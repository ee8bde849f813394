/-!
# Escaping

The two ways in which text is made safe inside the output: as the content or an attribute of an
HTML element, and as the body of a script string inside a page. Both work character by character.
-/

namespace Phrasebook.Markup

/-- How a character is written in HTML. The null character cannot be, and is replaced. -/
def escapeHtmlChar (c : Char) : List Char :=
  match c with
  | '&' => ['&', 'a', 'm', 'p', ';']
  | '\'' => ['&', '#', '3', '9', ';']
  | '<' => ['&', 'l', 't', ';']
  | '>' => ['&', 'g', 't', ';']
  | '"' => ['&', '#', '3', '4', ';']
  | '\x00' => ['\ufffd']
  | c => [c]

/-- Text as HTML. -/
def escapeHtmlChars (cs : List Char) : List Char := cs.flatMap escapeHtmlChar

/-- An upper-case hexadecimal digit. -/
def hexDigit (n : Nat) : Char := if n < 10 then Char.ofNat (48 + n) else Char.ofNat (55 + n)

/-- A character by its number, in four hexadecimal digits. -/
def unicodeEscape (n : Nat) : List Char :=
  ['\\', 'u', hexDigit (n / 4096 % 16), hexDigit (n / 256 % 16), hexDigit (n / 16 % 16),
    hexDigit (n % 16)]

/-- Whether a character is written by its number in a script: controls, line separators, and the
characters that mean something to the page around the script. -/
def isScriptSpecial (c : Char) : Bool :=
  c.toNat < 0x20 || c.toNat == 0x7f || c == '<' || c == '>' || c == '&' || c == '=' ||
    c.toNat == 0x2028 || c.toNat == 0x2029

/-- How a character is written in a script string. -/
def escapeScriptChar (c : Char) : List Char :=
  if c = '\\' ∨ c = '\'' ∨ c = '"' then ['\\', c]
  else if isScriptSpecial c then unicodeEscape c.toNat
  else [c]

/-- Text as the body of a script string. -/
def escapeScriptChars (cs : List Char) : List Char := cs.flatMap escapeScriptChar

/-- Text as HTML. -/
def escapeHtml (s : String) : String := String.ofList (escapeHtmlChars s.toList)

/-- Text as the body of a script string. -/
def escapeScript (s : String) : String := String.ofList (escapeScriptChars s.toList)

end Phrasebook.Markup
