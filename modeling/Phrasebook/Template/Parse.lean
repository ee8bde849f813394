import Phrasebook.Template.Scan
import Phrasebook.Template.SyntaxError
import Phrasebook.Template.Tree

/-!
# From tokens to trees

Expressions are read by precedence climbing: an operand is extended to the right as long as the
operator behind it binds tighter than the context asks for. What cannot be read is reported and
kept as an invalid expression up to the end of the braces, never beyond it.

The depth of the tree is bounded by the room that is left: an expression with room `r + 1` reads its
operand with room `r`, and each extension uses up one level too, since it puts the tree built so
far one level deeper.
-/

namespace Phrasebook

namespace Template

/-- How tightly an operator binds, weakest first. -/
inductive Power where
  | none
  | or
  | and
  | comparison
  | term
  | factor
  | range
  | select
  | unary
  | call
  deriving DecidableEq, Repr

/-- The place of a binding power in the order. -/
def Power.rank : Power → Nat
  | none => 0
  | or => 1
  | and => 2
  | comparison => 3
  | term => 4
  | factor => 5
  | range => 6
  | select => 7
  | unary => 8
  | call => 9

instance : LT Power := ⟨fun p q => p.rank < q.rank⟩

instance (p q : Power) : Decidable (p < q) := inferInstanceAs (Decidable (p.rank < q.rank))

end Template

/-- The power of an operator between two operands. -/
def BinaryOp.power : BinaryOp → Template.Power
  | or => .or
  | and => .and
  | equal | notEqual | greater | greaterEqual | less | lessEqual => .comparison
  | add | sub => .term
  | mul | div | rem => .factor

/-- The operator between two operands that a token stands for. -/
def BinaryOp.ofKind? : Token.Kind → Option BinaryOp
  | .or => some .or
  | .and => some .and
  | .equalEqual => some .equal
  | .bangEqual => some .notEqual
  | .greater => some .greater
  | .greaterEqual => some .greaterEqual
  | .less => some .less
  | .lessEqual => some .lessEqual
  | .plus => some .add
  | .minus => some .sub
  | .asterisk => some .mul
  | .slash => some .div
  | .percent => some .rem
  | _ => none

namespace Template

/-- What may extend a finished operand to the right. -/
inductive Extension where
  | binary (op : BinaryOp)
  | range
  | select
  | index
  | call
  deriving DecidableEq, Repr

namespace Extension

/-- The extension that a token starts. -/
def ofKind? : Token.Kind → Option Extension
  | .colon => some .range
  | .equalGreater => some .select
  | .lBrack => some .index
  | .lParen => some .call
  | kind => (BinaryOp.ofKind? kind).map .binary

/-- How tightly an extension binds. -/
def power : Extension → Power
  | binary op => op.power
  | range => .range
  | select => .select
  | index | call => .call

end Extension

/-- The state of reading: the token looked at, those behind it, and the errors so far, latest
first. -/
structure Reader where
  current : Token
  upcoming : List Token
  errors : List SyntaxError

namespace Reader

/-- Moves on to the next token. The last token, which marks the end of the input, stays. -/
def advance (s : Reader) : Reader :=
  match s.upcoming with
  | [] => s
  | next :: rest => { s with current := next, upcoming := rest }

/-- Whether the current token is of the given category. -/
def at? (s : Reader) (kind : Token.Kind) : Bool := s.current.kind == kind

/-- Whether the current token ends the expression being read. -/
def atBoundary (s : Reader) : Bool := s.at? .leaveExpr || s.at? .eof

/-- Reports an error at the current token, unless the latest error is at the same place and this
one follows from it. -/
def report (s : Reader) (cause : SyntaxError.Cause) : Reader :=
  if (s.errors.head?.map (·.token.offset)) = some s.current.offset then s
  else { s with errors := ⟨s.current, cause⟩ :: s.errors }

/-- Skips the tokens in front of the end of the expression. -/
def skipToBoundary (s : Reader) : Reader :=
  go s.current s.upcoming s.errors
where
  /-- Skips tokens from the current one on. -/
  go (current : Token) : List Token → List SyntaxError → Reader
    | [], errors => ⟨current, [], errors⟩
    | next :: rest, errors =>
      if (Reader.mk current (next :: rest) errors).atBoundary then ⟨current, next :: rest, errors⟩
      else go next rest errors

/-- Reads a token of the given category. Another token is reported and skipped, unless it ends the
expression. -/
def expect (s : Reader) (kind : Token.Kind) : Reader :=
  if s.at? kind then s.advance
  else
    let s := s.report (.expected kind)
    if s.atBoundary then s else s.advance

/-- Gives up on the rest of the expression. -/
def giveUp (s : Reader) (cause : SyntaxError.Cause) : Expr × Reader :=
  let stop := (s.report cause).skipToBoundary
  (.invalid s.current stop.current, stop)

end Reader

/-- A way to read an expression that binds tighter than a given power. -/
abbrev ReadExpr := Power → Reader → Expr × Reader

/-- Reads what follows the colon of a range. The end may be missing in front of a bracket. -/
def readStop (sub : ReadExpr) (start : Expr) (s : Reader) : Expr × Reader :=
  if s.at? .rBrack then (.range start none, s)
  else
    let (stop, s) := sub .range s
    (.range start (some stop), s)

/-- Reads a literal of the given kind. -/
def readLiteral (kind : LiteralKind) (s : Reader) : Expr × Reader :=
  (.literal kind s.current.lexeme, s.advance)

/-- Reads the operand of an operator that stands in front of it. -/
def readUnary (sub : ReadExpr) (op : UnaryOp) (s : Reader) : Expr × Reader :=
  let (operand, s) := sub .unary s.advance
  (.unary op operand, s)

/-- Reads an operand: everything that does not start with another operand. -/
def readOperand (sub : ReadExpr) (s : Reader) : Expr × Reader :=
  match s.current.kind with
  | .int => readLiteral .int s
  | .float => readLiteral .float s
  | .string => readLiteral .string s
  | .ident => (Expr.ofName s.current.lexeme, s.advance)
  | .bang => readUnary sub .not s
  | .plus => readUnary sub .plus s
  | .minus => readUnary sub .minus s
  | .colon => readStop sub (.literal .int "0") s.advance
  | .lParen =>
    let (inner, s) := sub .none s.advance
    (inner, s.expect .rParen)
  | _ => s.giveUp .unexpected

/-- Reads the comma behind a list item, unless the list ends here. -/
def readComma (s : Reader) : Reader := if s.at? .rParen then s else s.expect .comma

/-- Whether a list between parentheses ends here. -/
def atListEnd (s : Reader) : Bool := s.at? .rParen || s.atBoundary

/-- Reads at most the given number of arguments. -/
def readArgs (sub : ReadExpr) : Nat → Reader → List Expr × Reader
  | 0, s => ([], s)
  | bound + 1, s =>
    if atListEnd s then ([], s)
    else
      let (arg, s) := sub .none s
      let (args, s) := readArgs sub bound (readComma s)
      (arg :: args, s)

/-- Reads at most the given number of options of a selection. -/
def readOptions (sub : ReadExpr) : Nat → Reader → List (Expr × Expr) × Reader
  | 0, s => ([], s)
  | bound + 1, s =>
    if atListEnd s then ([], s)
    else
      let (pattern, s) := sub .none s
      let (result, s) := sub .none (s.expect .equal)
      let (options, s) := readOptions sub bound (readComma s)
      ((pattern, result) :: options, s)

/-- An expression in brackets behind its base: a range selects a slice. -/
def indexed (base : Expr) : Expr → Expr
  | .range start stop => .slice base start stop
  | position => .index base position

/-- Reads an extension of an operand from its first token on. Every list item takes a token, so
the number of tokens left bounds a list. -/
def readExtension (sub : ReadExpr) (ext : Extension) (lhs : Expr) (s : Reader) :
    Expr × Reader :=
  let s := s.advance
  match ext with
  | .binary op =>
    let (rhs, s) := sub op.power s
    (.binary op lhs rhs, s)
  | .range => readStop sub lhs s
  | .select =>
    let s := s.expect .lParen
    let (options, s) := readOptions sub s.upcoming.length s
    (.select lhs options, s.expect .rParen)
  | .index =>
    let (position, s) := sub .none s
    (indexed lhs position, s.expect .rBrack)
  | .call =>
    let (args, s) := readArgs sub s.upcoming.length s
    (.call lhs args, s.expect .rParen)

/-- The extension at the current token, if it binds tighter than the given power. -/
def extension? (power : Power) (s : Reader) : Option Extension :=
  (Extension.ofKind? s.current.kind).filter (power < ·.power)

/-- The readers for a given room: one for an expression, and one that extends an operand already
read. -/
structure Level where
  expr : ReadExpr
  climb : Power → Expr → Reader → Expr × Reader

/-- The readers for each room. Without room nothing can be read, and an operand cannot be
extended. -/
def level : Nat → Level
  | 0 =>
    { expr := fun _ s => s.giveUp .nestedTooDeeply
      climb := fun power lhs s =>
        match extension? power s with
        | none => (lhs, s)
        | some _ => s.giveUp .nestedTooDeeply }
  | room + 1 =>
    let below := level room
    let expr := fun power s =>
      let (lhs, s) := readOperand below.expr s
      below.climb power lhs s
    { expr
      climb := fun power lhs s =>
        match extension? power s with
        | none => (lhs, s)
        | some ext =>
          let (lhs, s) := readExtension expr ext lhs s
          below.climb power lhs s }

/-- Reads a whole expression. The template itself is the first level of the tree. -/
def readExpr (s : Reader) : Expr × Reader := (level (maxNesting - 1)).expr .none s

/-- Reads the brace that closes an expression; what stands in front of it is reported and
skipped. -/
def closeExpr (s : Reader) : Reader :=
  let s := if s.at? .leaveExpr then s else (s.report (.expected .leaveExpr)).skipToBoundary
  if s.at? .leaveExpr then s.advance else s

/-- Reads one fragment. -/
def readFragment (s : Reader) : Fragment × Reader :=
  match s.current.kind with
  | .text => (.text s.current.lexeme, s.advance)
  | .enterExpr =>
    let (e, s) := readExpr s.advance
    (.expr e, closeExpr s)
  | _ => (.expr (.invalid s.current s.current), (s.report .unexpected).advance)

/-- Reads at most the given number of fragments. -/
def readFragments : Nat → Reader → Template × Reader
  | 0, s => ([], s)
  | bound + 1, s =>
    if s.at? .eof then ([], s)
    else
      let (fragment, s) := readFragment s
      let (fragments, s) := readFragments bound s
      (fragment :: fragments, s)

/-- The state before the first token. -/
def Reader.start (tokens : List Token) : Reader :=
  match tokens with
  | [] => ⟨.endOfInput 0, [], []⟩
  | first :: rest => ⟨first, rest, []⟩

/-- The template that tokens spell, and what is wrong with it in the order of the input. -/
def ofTokens (tokens : List Token) : Template × List SyntaxError :=
  let (fragments, s) := readFragments tokens.length (.start tokens)
  (fragments, s.errors.reverse)

/-- The template in a source text, with whatever could be recovered of it, and what is wrong with
it. -/
def read (source : String) : Template × List SyntaxError := ofTokens (Token.scan source)

/-- The errors of a template that cannot be accepted, and what could be recovered of it. -/
structure Rejected where
  template : Template
  errors : List SyntaxError

/-- The wording of all errors, a line for each. -/
def Rejected.message (r : Rejected) : String :=
  "\n".intercalate (r.errors.map (·.message))

/-- The template in a source text without errors. -/
def parse (source : String) : Except Rejected Template :=
  match read source with
  | (template, []) => .ok template
  | (template, errors) => .error ⟨template, errors⟩

end Template

end Phrasebook
