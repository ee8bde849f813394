import Phrasebook.Template.Tree
import Phrasebook.Text.Quoted

/-!
# Printed trees

A tree is printed as symbolic expressions: names, numbers and quoted texts stand for themselves,
everything else is a list of a head and the parts in parentheses. The fragments of a template are
separated by single blanks.
-/

namespace Phrasebook

/-- A symbolic expression over words. -/
inductive Symbolic where
  | word (chars : List Char)
  | list (items : List Symbolic)
  deriving Repr

namespace Symbolic

/-- A word given by its text. -/
def ofString (s : String) : Symbolic := .word s.toList

/-- The characters of a symbolic expression. -/
def chars : Symbolic → List Char
  | .word cs => cs
  | .list items => '(' :: (charsOfItems items ++ [')'])
where
  /-- The characters of items separated by single blanks. -/
  charsOfItems : List Symbolic → List Char
    | [] => []
    | [item] => item.chars
    | item :: items => item.chars ++ ' ' :: charsOfItems items

end Symbolic

/-- The symbolic form of an expression. -/
def Expr.symbolic : Expr → Symbolic
  | .ident name => .ofString name
  | .func function => .ofString function.name
  | .literal .string lexeme => .word (Text.quoteChars lexeme.toList)
  | .literal _ lexeme => .ofString lexeme
  | .unary op operand => .list [.ofString op.symbol, operand.symbolic]
  | .binary op lhs rhs => .list [.ofString op.symbol, lhs.symbolic, rhs.symbolic]
  | .range start none => .list [.ofString ":", start.symbolic]
  | .range start (some stop) => .list [.ofString ":", start.symbolic, stop.symbolic]
  | .index base position => .list [.ofString "index", base.symbolic, position.symbolic]
  | .slice base start none => .list [.ofString "slice", base.symbolic, start.symbolic]
  | .slice base start (some stop) =>
    .list [.ofString "slice", base.symbolic, start.symbolic, stop.symbolic]
  | .select value options =>
    .list (.ofString "select" :: value.symbolic :: symbolicOptions options)
  | .call callee args => .list (.ofString "call" :: callee.symbolic :: symbolicArgs args)
  | .invalid start _ =>
    .list [.ofString "invalid", .word (Text.quoteChars start.display.toList)]
where
  /-- The symbolic forms of the arguments of a call. -/
  symbolicArgs : List Expr → List Symbolic
    | [] => []
    | arg :: args => arg.symbolic :: symbolicArgs args
  /-- The symbolic forms of the options of a selection. -/
  symbolicOptions : List (Expr × Expr) → List Symbolic
    | [] => []
    | (pattern, result) :: options =>
      .list [.ofString "opt", pattern.symbolic, result.symbolic] :: symbolicOptions options

/-- The symbolic form of a fragment; literal text is quoted. -/
def Fragment.symbolic : Fragment → Symbolic
  | .text content => .word (Text.quoteChars content.toList)
  | .expr content => content.symbolic

/-- The printed form of an expression. -/
def Expr.print (e : Expr) : String := String.ofList e.symbolic.chars

/-- The printed form of a fragment. -/
def Fragment.print (f : Fragment) : String := String.ofList f.symbolic.chars

/-- The printed form of a template. -/
def Template.print (t : Template) : String :=
  String.ofList (Symbolic.chars.charsOfItems (t.map Fragment.symbolic))

/-- The printed form of a template or fragment. -/
def Node.print : Node → String
  | .template t => t.print
  | .fragment f => f.print

end Phrasebook
