import Phrasebook.Template.Token

/-!
# The tree of a template

A template is a list of fragments, each of them literal text or an expression. Expressions are
built from names, builtin functions and literals by operators, ranges, indexing, slicing, selection
and calls. A span that could not be read is kept as an invalid expression, so every input has a
tree.
-/

namespace Phrasebook

/-- The functions that a template may call. -/
inductive Builtin where
  | len
  | join
  | split
  | bold
  | italic
  | link
  | padLeft
  | padRight
  | trimLeft
  | trimRight
  | integer
  | fraction
  | abs
  | plural
  | translate
  deriving DecidableEq, Repr

namespace Builtin

/-- All builtin functions. -/
def all : List Builtin :=
  [len, join, split, bold, italic, link, padLeft, padRight, trimLeft, trimRight, integer,
    fraction, abs, plural, translate]

/-- The name by which a template calls a function. -/
def name : Builtin → String
  | len => "len"
  | join => "join"
  | split => "split"
  | bold => "bold"
  | italic => "italic"
  | link => "link"
  | padLeft => "pad_left"
  | padRight => "pad_right"
  | trimLeft => "trim_left"
  | trimRight => "trim_right"
  | integer => "integer"
  | fraction => "fraction"
  | abs => "abs"
  | plural => "plural"
  | translate => "t"

/-- The builtin function of a name. -/
def ofName? (name : String) : Option Builtin := all.find? (·.name == name)

end Builtin

/-- The kinds of literals inside expressions. -/
inductive LiteralKind where
  | string
  | int
  | float
  deriving DecidableEq, Repr

/-- The operators in front of their operand. -/
inductive UnaryOp where
  | not
  | plus
  | minus
  deriving DecidableEq, Repr

/-- The spelling of an operator. -/
def UnaryOp.symbol : UnaryOp → String
  | not => "!"
  | plus => "+"
  | minus => "-"

/-- The operators between two operands. -/
inductive BinaryOp where
  | or
  | and
  | equal
  | notEqual
  | greater
  | greaterEqual
  | less
  | lessEqual
  | add
  | sub
  | mul
  | div
  | rem
  deriving DecidableEq, Repr

/-- The spelling of an operator. -/
def BinaryOp.symbol : BinaryOp → String
  | or => "or"
  | and => "and"
  | equal => "=="
  | notEqual => "!="
  | greater => ">"
  | greaterEqual => ">="
  | less => "<"
  | lessEqual => "<="
  | add => "+"
  | sub => "-"
  | mul => "*"
  | div => "/"
  | rem => "%"

/-- An expression. An option of a selection pairs a pattern with the result chosen by it; an
invalid expression keeps the tokens at which reading failed and resumed. -/
inductive Expr where
  | ident (name : String)
  | func (function : Builtin)
  | literal (kind : LiteralKind) (lexeme : String)
  | unary (op : UnaryOp) (operand : Expr)
  | binary (op : BinaryOp) (lhs rhs : Expr)
  | range (start : Expr) (stop : Option Expr)
  | index (base position : Expr)
  | slice (base start : Expr) (stop : Option Expr)
  | select (value : Expr) (options : List (Expr × Expr))
  | call (callee : Expr) (args : List Expr)
  | invalid (start stop : Token)
  deriving Repr

namespace Expr

/-- A property of all expressions follows from its transfer from the parts to the whole. -/
@[induction_eliminator]
theorem induct {P : Expr → Prop}
    (ident : ∀ name, P (.ident name))
    (func : ∀ function, P (.func function))
    (literal : ∀ kind lexeme, P (.literal kind lexeme))
    (unary : ∀ op operand, P operand → P (.unary op operand))
    (binary : ∀ op lhs rhs, P lhs → P rhs → P (.binary op lhs rhs))
    (range : ∀ start stop, P start → (∀ e ∈ stop, P e) → P (.range start stop))
    (index : ∀ base position, P base → P position → P (.index base position))
    (slice : ∀ base start stop, P base → P start → (∀ e ∈ stop, P e) →
      P (.slice base start stop))
    (select : ∀ value options, P value → (∀ o ∈ options, P o.1 ∧ P o.2) →
      P (.select value options))
    (call : ∀ callee args, P callee → (∀ a ∈ args, P a) → P (.call callee args))
    (invalid : ∀ start stop, P (.invalid start stop)) (e : Expr) : P e := by
  refine Expr.rec (motive_1 := P) (motive_2 := fun stop => ∀ e ∈ stop, P e)
    (motive_3 := fun options => ∀ o ∈ options, P o.1 ∧ P o.2)
    (motive_4 := fun args => ∀ a ∈ args, P a) (motive_5 := fun o => P o.1 ∧ P o.2)
    ident func literal unary binary range index slice select call invalid ?_ ?_ ?_ ?_ ?_ ?_ ?_ e
  all_goals simp_all

/-- The expression that a name stands for: a builtin function or a variable. -/
def ofName (name : String) : Expr :=
  match Builtin.ofName? name with
  | some function => .func function
  | none => .ident name

/-- Whether a pattern matches everything. -/
def isWildcard : Expr → Bool
  | .ident name => name == "_"
  | _ => false

end Expr

/-- A part of a template: literal text or an expression between braces. -/
inductive Fragment where
  | text (content : String)
  | expr (content : Expr)
  deriving Repr

/-- A template is the sequence of its fragments. -/
abbrev Template := List Fragment

/-- What can be evaluated: a whole template or one of its fragments. -/
inductive Node where
  | template (t : Template)
  | fragment (f : Fragment)
  deriving Repr

end Phrasebook
