/-!
# Tokens of a template

A template is read as a sequence of tokens: runs of literal text, the braces that open and close
an expression, and the names, literals and symbols inside the braces. Every token remembers the
byte offset at which it starts.
-/

namespace Phrasebook

/-- The lexical category of a token. -/
inductive Token.Kind where
  | eof
  | unexpected
  | text
  | enterExpr
  | leaveExpr
  | ident
  | int
  | float
  | string
  | or
  | and
  | bang
  | comma
  | colon
  | equal
  | equalEqual
  | bangEqual
  | greater
  | greaterEqual
  | less
  | lessEqual
  | equalGreater
  | plus
  | minus
  | asterisk
  | slash
  | percent
  | lParen
  | rParen
  | lBrack
  | rBrack
  deriving DecidableEq, Repr

namespace Token.Kind

/-- The spelling of a category in messages. For symbols and keywords it is the symbol itself. -/
def spelling : Kind → String
  | eof => "eof"
  | unexpected => "unexpected input"
  | text => "text"
  | enterExpr => "\x7b"
  | leaveExpr => "\x7d"
  | ident => "identifier"
  | int => "integer"
  | float => "float"
  | string => "string"
  | or => "or"
  | and => "and"
  | bang => "!"
  | comma => ","
  | colon => ":"
  | equal => "="
  | equalEqual => "=="
  | bangEqual => "!="
  | greater => ">"
  | greaterEqual => ">="
  | less => "<"
  | lessEqual => "<="
  | equalGreater => "=>"
  | plus => "+"
  | minus => "-"
  | asterisk => "*"
  | slash => "/"
  | percent => "%"
  | lParen => "("
  | rParen => ")"
  | lBrack => "["
  | rBrack => "]"

/-- The symbols that are made of punctuation, longer ones before their own beginnings, so that the
first one found is the longest. -/
def symbols : List Kind :=
  [equalEqual, bangEqual, greaterEqual, lessEqual, equalGreater, bang, comma, colon, lParen,
    rParen, lBrack, rBrack, plus, minus, asterisk, slash, percent, equal, greater, less]

/-- The category of a word: an operator keyword or a plain name. -/
def ofWord (word : List Char) : Kind :=
  if word = ['o', 'r'] then or
  else if word = ['a', 'n', 'd'] then and
  else ident

/-- The machine-readable name of a category. -/
def name : Kind → String
  | eof => "eof"
  | unexpected => "unexpected"
  | text => "text"
  | enterExpr => "enter_expr"
  | leaveExpr => "leave_expr"
  | ident => "ident"
  | int => "int"
  | float => "float"
  | string => "string"
  | or => "or"
  | and => "and"
  | bang => "bang"
  | comma => "comma"
  | colon => "colon"
  | equal => "equal"
  | equalEqual => "equal_equal"
  | bangEqual => "bang_equal"
  | greater => "greater"
  | greaterEqual => "greater_equal"
  | less => "less"
  | lessEqual => "less_equal"
  | equalGreater => "equal_greater"
  | plus => "plus"
  | minus => "minus"
  | asterisk => "asterisk"
  | slash => "slash"
  | percent => "percent"
  | lParen => "l_paren"
  | rParen => "r_paren"
  | lBrack => "l_brack"
  | rBrack => "r_brack"

end Token.Kind

/-- One lexical unit. The lexeme holds the decoded text of literal text and quoted literals, and
the characters as written for every other category; it is empty at the end of the input. -/
structure Token where
  kind : Token.Kind
  lexeme : String
  offset : Nat
  deriving DecidableEq, Repr

namespace Token

/-- The token that ends every template. -/
def endOfInput (offset : Nat) : Token := ⟨.eof, "", offset⟩

/-- A token as it is named in messages. -/
def display (t : Token) : String := if t.kind = .eof then "eof" else t.lexeme

@[simp] theorem endOfInput_kind (offset : Nat) : (endOfInput offset).kind = .eof := rfl

@[simp] theorem endOfInput_offset (offset : Nat) : (endOfInput offset).offset = offset := rfl

end Token

end Phrasebook
