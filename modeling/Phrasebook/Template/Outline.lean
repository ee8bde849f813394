import Phrasebook.Template.Tree

/-!
# Outlines of trees

An outline lists the nodes of a tree from the top, each before its parts, with its depth, its kind
and one detail.
-/

namespace Phrasebook

/-- One node of an outline. -/
structure OutlineRow where
  depth : Nat
  kind : String
  detail : String
  deriving DecidableEq, Repr

/-- The kind of a literal in an outline. -/
def LiteralKind.label : LiteralKind → String
  | string => "string"
  | int => "int"
  | float => "float"

/-- The detail of a node that may lack its end. -/
def endDetail (stop : Option α) : String := if stop.isSome then "closed" else "open"

/-- A token with its place, as an outline shows it. -/
def Token.outline (t : Token) : String := t.display ++ "@" ++ toString t.offset

/-- The outline of an expression whose top node has the given depth. -/
def Expr.outline (depth : Nat) : Expr → List OutlineRow
  | .ident name => [⟨depth, "ident", name⟩]
  | .func function => [⟨depth, "func", function.name⟩]
  | .literal kind lexeme => [⟨depth, kind.label, lexeme⟩]
  | .unary op operand => ⟨depth, "unary", op.symbol⟩ :: operand.outline (depth + 1)
  | .binary op lhs rhs =>
    ⟨depth, "binary", op.symbol⟩ :: (lhs.outline (depth + 1) ++ rhs.outline (depth + 1))
  | .range start stop =>
    ⟨depth, "range", endDetail stop⟩ :: (start.outline (depth + 1) ++ outlineEnd depth stop)
  | .index base position =>
    ⟨depth, "index", ""⟩ :: (base.outline (depth + 1) ++ position.outline (depth + 1))
  | .slice base start stop =>
    ⟨depth, "slice", endDetail stop⟩ ::
      (base.outline (depth + 1) ++ start.outline (depth + 1) ++ outlineEnd depth stop)
  | .select value options =>
    ⟨depth, "select", toString options.length⟩ ::
      (value.outline (depth + 1) ++ outlineOptions depth options)
  | .call callee args =>
    ⟨depth, "call", toString args.length⟩ ::
      (callee.outline (depth + 1) ++ outlineArgs depth args)
  | .invalid start stop => [⟨depth, "invalid", start.outline ++ ".." ++ stop.outline⟩]
where
  /-- The outline of the end of a range or slice, below a node of the given depth. -/
  outlineEnd (depth : Nat) : Option Expr → List OutlineRow
    | none => []
    | some stop => stop.outline (depth + 1)
  /-- The outlines of the arguments of a call. -/
  outlineArgs (depth : Nat) : List Expr → List OutlineRow
    | [] => []
    | arg :: args => arg.outline (depth + 1) ++ outlineArgs depth args
  /-- The outlines of the options of a selection: each has a node of its own above its parts. -/
  outlineOptions (depth : Nat) : List (Expr × Expr) → List OutlineRow
    | [] => []
    | (pattern, result) :: options =>
      ⟨depth + 1, "option", if pattern.isWildcard then "_" else ""⟩ ::
        (pattern.outline (depth + 2) ++ result.outline (depth + 2)) ++
          outlineOptions depth options

/-- The outline of a fragment below the top. -/
def Fragment.outline : Fragment → List OutlineRow
  | .text content => [⟨1, "text", content⟩]
  | .expr content => content.outline 1

/-- The outline of a template. -/
def Template.outline (t : Template) : List OutlineRow :=
  ⟨0, "root", toString t.length⟩ :: t.flatMap Fragment.outline

end Phrasebook
