import Mathlib
import Phrasebook.Template.Parse

/-!
# Templates as sequences of lexemes

A lexeme is a token without its place in the source. Every tree can be written as the sequence of
its lexemes in the order of the source. Where an operand has to be grouped by parentheses is left
open here: how tightly the place of an operand binds, given by the rank of a power, and the operand
itself decide it.
-/

namespace Phrasebook

/-- The category and the text of a token. -/
structure Lexeme where
  kind : Token.Kind
  text : String
  deriving DecidableEq, Repr

/-- A token without its place. -/
def Token.toLexeme (t : Token) : Lexeme := ⟨t.kind, t.lexeme⟩

@[simp] theorem Token.toLexeme_kind (t : Token) : t.toLexeme.kind = t.kind := rfl

/-- The category of the literals of a kind. -/
def LiteralKind.token : LiteralKind → Token.Kind
  | string => .string
  | int => .int
  | float => .float

/-- The symbol of an operator in front of its operand. -/
def UnaryOp.token : UnaryOp → Token.Kind
  | not => .bang
  | plus => .plus
  | minus => .minus

/-- The symbol or keyword of an operator between its operands. -/
def BinaryOp.token : BinaryOp → Token.Kind
  | or => .or
  | and => .and
  | equal => .equalEqual
  | notEqual => .bangEqual
  | greater => .greater
  | greaterEqual => .greaterEqual
  | less => .less
  | lessEqual => .lessEqual
  | add => .plus
  | sub => .minus
  | mul => .asterisk
  | div => .slash
  | rem => .percent

namespace Lexeme

/-- The lexeme of a symbol or keyword, which is always spelled in the same way. -/
def symbol (kind : Token.Kind) : Lexeme := ⟨kind, kind.spelling⟩

@[simp] theorem symbol_kind (kind : Token.Kind) : (symbol kind).kind = kind := rfl

/-- Lexemes in parentheses, if these are needed. -/
def group (needed : Bool) (ls : List Lexeme) : List Lexeme :=
  if needed then symbol .lParen :: ls ++ [symbol .rParen] else ls

@[simp] theorem group_false (ls : List Lexeme) : group false ls = ls := rfl

@[simp] theorem group_true (ls : List Lexeme) :
    group true ls = symbol .lParen :: ls ++ [symbol .rParen] := rfl

/-- The items of a list with commas between them, and one behind the last item if it is a trailing
one. The empty list has no comma. -/
def separated (trailing : Bool) : List (List Lexeme) → List Lexeme
  | [] => []
  | [item] => if trailing then item ++ [symbol .comma] else item
  | item :: items => item ++ symbol .comma :: separated trailing items

end Lexeme

namespace Expr

open Template (Power)
open Lexeme (symbol group separated)

/-- How tightly the outermost operator of an expression binds. Names and literals need no context
to hold them together, no more than calls do. -/
def power : Expr → Power
  | .unary _ _ => .unary
  | .binary op _ _ => op.power
  | .range _ _ => .range
  | .select _ _ => .select
  | _ => .call

/-- The lexemes of an expression in the order of the source. An operand is put in parentheses if
`grouped` says so for the least rank that fits its place: that of the operator on its left-hand
side, and one more on its right-hand side, since operators group to the left. -/
def lexemesWith (grouped : Nat → Expr → Bool) : Expr → List Lexeme
  | .ident name => [⟨.ident, name⟩]
  | .func function => [⟨.ident, function.name⟩]
  | .literal kind lexeme => [⟨kind.token, lexeme⟩]
  | .unary op operand =>
    symbol op.token :: group (grouped Power.unary.rank operand) (operand.lexemesWith grouped)
  | .binary op lhs rhs =>
    group (grouped op.power.rank lhs) (lhs.lexemesWith grouped) ++
      symbol op.token :: group (grouped (op.power.rank + 1) rhs) (rhs.lexemesWith grouped)
  | .range start stop =>
    group (grouped Power.range.rank start) (start.lexemesWith grouped) ++
      symbol .colon :: ofStop grouped stop
  | .index base position =>
    group (grouped Power.call.rank base) (base.lexemesWith grouped) ++
      symbol .lBrack :: position.lexemesWith grouped ++ [symbol .rBrack]
  | .slice base start stop =>
    group (grouped Power.call.rank base) (base.lexemesWith grouped) ++
      symbol .lBrack ::
        (group (grouped Power.range.rank start) (start.lexemesWith grouped) ++
          symbol .colon :: ofStop grouped stop) ++ [symbol .rBrack]
  | .select value options =>
    group (grouped Power.select.rank value) (value.lexemesWith grouped) ++
      symbol .equalGreater :: symbol .lParen ::
        separated false (ofOptions grouped options) ++ [symbol .rParen]
  | .call callee args =>
    group (grouped Power.call.rank callee) (callee.lexemesWith grouped) ++
      symbol .lParen :: separated false (ofArgs grouped args) ++ [symbol .rParen]
  | .invalid _ _ => []
where
  /-- The lexemes of the end of a range, if it has one. -/
  ofStop (grouped : Nat → Expr → Bool) : Option Expr → List Lexeme
    | none => []
    | some stop => group (grouped (Power.range.rank + 1) stop) (stop.lexemesWith grouped)
  /-- The lexemes of each argument of a call. -/
  ofArgs (grouped : Nat → Expr → Bool) : List Expr → List (List Lexeme)
    | [] => []
    | arg :: args => arg.lexemesWith grouped :: ofArgs grouped args
  /-- The lexemes of each option of a selection. -/
  ofOptions (grouped : Nat → Expr → Bool) : List (Expr × Expr) → List (List Lexeme)
    | [] => []
    | (pattern, result) :: options =>
      (pattern.lexemesWith grouped ++ symbol .equal :: result.lexemesWith grouped) ::
        ofOptions grouped options

/-- The lexemes of an expression without any parentheses for grouping. -/
abbrev lexemes (e : Expr) : List Lexeme := e.lexemesWith fun _ _ => false

theorem lexemesWith_ofName (grouped : Nat → Expr → Bool) (name : String) :
    (ofName name).lexemesWith grouped = [⟨.ident, name⟩] := by
  unfold ofName
  split
  · next function h =>
      have hname := List.find?_some h
      simp only [beq_iff_eq] at hname
      rw [lexemesWith, hname]
  · rfl

theorem lexemesWith.ofArgs_eq_map (grouped : Nat → Expr → Bool) (args : List Expr) :
    ofArgs grouped args = args.map (lexemesWith grouped) := by
  induction args with
  | nil => rfl
  | cons arg args ih => rw [ofArgs, ih, List.map_cons]

theorem lexemesWith.ofOptions_eq_map (grouped : Nat → Expr → Bool)
    (options : List (Expr × Expr)) :
    ofOptions grouped options = options.map fun o =>
      o.1.lexemesWith grouped ++ symbol .equal :: o.2.lexemesWith grouped := by
  induction options with
  | nil => rfl
  | cons option options ih => rw [ofOptions, ih, List.map_cons]

end Expr

namespace Template

/-- The lexemes of a template: its texts as they are, and its expressions in braces. -/
def lexemes (t : Template) : List Lexeme :=
  t.flatMap fun
    | .text content => [⟨.text, content⟩]
    | .expr e => .symbol .enterExpr :: e.lexemes ++ [.symbol .leaveExpr]

end Template

end Phrasebook
