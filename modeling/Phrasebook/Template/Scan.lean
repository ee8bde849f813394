import Phrasebook.Template.Token

/-!
# Reading the tokens of a template

Outside of braces the input is literal text, in which a backslash escapes a brace or a backslash;
inside braces it is a sequence of names, numbers, quoted literals and symbols between blanks. Every
input has tokens: a run that is none of these becomes one token of the category `unexpected`.

Each lexical class is given by the span of characters that it takes from the front of the input,
so that a span and the rest always concatenate to the input; the lexeme is decoded from the span
afterwards.
-/

namespace Phrasebook.Token

/-- Whether the input is read as literal text or as an expression. -/
inductive Mode where
  | text
  | expr
  deriving DecidableEq, Repr

/-- The blanks that separate tokens of an expression. -/
def isBlank (c : Char) : Bool := c == ' ' || c == '\t' || c == '\r' || c == '\n'

/-- The characters of a run that belongs to no lexical class. -/
def isJunk (c : Char) : Bool := !isBlank c && c != '}'

/-- The characters a name starts with: ASCII letters and the underscore. -/
def isNameStart (c : Char) : Bool := c.isAlpha || c == '_'

/-- The characters a name goes on with. -/
def isNamePart (c : Char) : Bool := c.isAlphanum || c == '_'

/-- The characters a run of digits goes on with; underscores separate digits. -/
def isDigitPart (c : Char) : Bool := c.isDigit || c == '_'

/-- The three quotes that delimit a literal. -/
def isQuote (c : Char) : Bool := c == '\'' || c == '"' || c == '\x60'

/-- The longest span of literal text, and the rest, which is empty or starts with an open brace
that no backslash escapes. -/
def textSpan : List Char → List Char × List Char
  | [] => ([], [])
  | '{' :: rest => ([], '{' :: rest)
  | '\\' :: '{' :: rest => ('\\' :: '{' :: (textSpan rest).1, (textSpan rest).2)
  | '\\' :: '\\' :: rest => ('\\' :: '\\' :: (textSpan rest).1, (textSpan rest).2)
  | c :: rest => (c :: (textSpan rest).1, (textSpan rest).2)

/-- Literal text without its escapes: a backslash before an open brace or a backslash is dropped,
any other backslash stays. -/
def decodeText : List Char → List Char
  | [] => []
  | '\\' :: '{' :: rest => '{' :: decodeText rest
  | '\\' :: '\\' :: rest => '\\' :: decodeText rest
  | c :: rest => c :: decodeText rest

/-- The body of a quoted literal up to and including its closing quote, and the rest. A literal
that is not closed takes all of the input. -/
def quotedSpan (quote : Char) : List Char → List Char × List Char
  | [] => ([], [])
  | [c] => ([c], [])
  | c :: d :: rest =>
    if c = quote then ([c], d :: rest)
    else if c = '\\' ∧ (d = quote ∨ d = '\\') then
      (c :: d :: (quotedSpan quote rest).1, (quotedSpan quote rest).2)
    else (c :: (quotedSpan quote (d :: rest)).1, (quotedSpan quote (d :: rest)).2)

/-- The value of the body of a quoted literal: a backslash before the quote or a backslash is
dropped, any other backslash stays, and the closing quote ends the value. -/
def decodeQuoted (quote : Char) : List Char → List Char
  | [] => []
  | [c] => if c = quote then [] else [c]
  | c :: d :: rest =>
    if c = quote then []
    else if c = '\\' ∧ (d = quote ∨ d = '\\') then d :: decodeQuoted quote rest
    else c :: decodeQuoted quote (d :: rest)

/-- A token before its lexeme is decoded: its category, the characters it takes and the rest. -/
structure Cut where
  kind : Kind
  span : List Char
  rest : List Char

/-- Cuts a number off the front of an input that starts with a digit. A dot that no digit follows
spoils the number together with the run behind it. -/
def cutNumber (cs : List Char) : Cut :=
  let digits := cs.takeWhile isDigitPart
  match cs.dropWhile isDigitPart with
  | '.' :: after =>
    if (after.head?.map Char.isDigit).getD false then
      ⟨.float, digits ++ '.' :: after.takeWhile isDigitPart, after.dropWhile isDigitPart⟩
    else ⟨.unexpected, digits ++ '.' :: after.takeWhile isJunk, after.dropWhile isJunk⟩
  | rest => ⟨.int, digits, rest⟩

/-- Cuts one token of an expression off an input that is neither empty nor starts with a blank. -/
def cutExpr (c : Char) (rest : List Char) : Cut :=
  if c = '}' then ⟨.leaveExpr, [c], rest⟩
  else if isQuote c then ⟨.string, c :: (quotedSpan c rest).1, (quotedSpan c rest).2⟩
  else if isNameStart c then
    let word := c :: rest.takeWhile isNamePart
    ⟨.ofWord word, word, rest.dropWhile isNamePart⟩
  else if c.isDigit then cutNumber (c :: rest)
  else
    match Kind.symbols.find? (fun kind => kind.spelling.toList.isPrefixOf (c :: rest)) with
    | some kind =>
      ⟨kind, kind.spelling.toList, (c :: rest).drop kind.spelling.toList.length⟩
    | none => ⟨.unexpected, (c :: rest).takeWhile isJunk, (c :: rest).dropWhile isJunk⟩

/-- Cuts one token of literal text, or the brace that ends it, off an input that is not empty. -/
def cutText (c : Char) (rest : List Char) : Cut :=
  if c = '{' then ⟨.enterExpr, [c], rest⟩
  else ⟨.text, (textSpan (c :: rest)).1, (textSpan (c :: rest)).2⟩

namespace Mode

/-- The blanks in front of the next token; literal text has none. -/
def blanks : Mode → List Char → List Char
  | .text, _ => []
  | .expr, cs => cs.takeWhile isBlank

/-- The input without the blanks in front of the next token. -/
def skipBlanks : Mode → List Char → List Char
  | .text, cs => cs
  | .expr, cs => cs.dropWhile isBlank

/-- Cuts the next token off an input that is neither empty nor starts with a blank to skip. -/
def cut : Mode → Char → List Char → Cut
  | .text => cutText
  | .expr => cutExpr

/-- How the input is read after a token. -/
def after (mode : Mode) : Kind → Mode
  | .enterExpr => .expr
  | .leaveExpr => .text
  | _ => mode

end Mode

/-- The lexeme of a span, by its category. -/
def decode : Kind → List Char → List Char
  | .text, span => decodeText span
  | .string, quote :: body => decodeQuoted quote body
  | _, span => span

/-- The number of bytes that characters take in UTF-8. -/
def byteSize (cs : List Char) : Nat := (cs.map Char.utf8Size).foldr (· + ·) 0

/-- The tokens of the rest of a template. The first argument bounds the number of tokens; the
length of the input is always enough, since every token takes at least one character. -/
def scanFrom : Nat → Mode → Nat → List Char → List Token
  | 0, _, offset, _ => [endOfInput offset]
  | bound + 1, mode, offset, cs =>
    let start := offset + byteSize (mode.blanks cs)
    match mode.skipBlanks cs with
    | [] => [endOfInput start]
    | c :: rest =>
      let cut := mode.cut c rest
      ⟨cut.kind, String.ofList (decode cut.kind cut.span), start⟩ ::
        scanFrom bound (mode.after cut.kind) (start + byteSize cut.span) cut.rest

/-- The tokens of a template, the last of which marks the end of the input. -/
def scanChars (cs : List Char) : List Token := scanFrom (cs.length + 1) .text 0 cs

/-- The tokens of a template, the last of which marks the end of the input. -/
def scan (source : String) : List Token := scanChars source.toList

end Phrasebook.Token
