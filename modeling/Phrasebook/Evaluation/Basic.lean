import Phrasebook.Evaluation.Depth
import Phrasebook.Markup.Format
import Phrasebook.Message
import Phrasebook.Plural.Category
import Phrasebook.Template.Tree
import Phrasebook.Translation.Basic
import Phrasebook.Value.Function
import Phrasebook.Value.Order

/-!
# Evaluation

Templates are evaluated in a scope: an output format, a locale, variables, the translations that
the template may ask for, and a limit for the depth of nesting. A template has a list of the values
of its fragments.

Each step of evaluation is described in terms of the evaluation of parts, one level deeper. The
evaluators are tied together by the number of levels that are left below the limit.
-/

namespace Phrasebook

/-- The result of a builtin function in an output format. Missing arguments are empty texts, and those
that are too many are ignored. The plural form and the nested translation depend on more than the
arguments and are left out. -/
def Format.call? (f : Format) (function : Builtin) (args : List Value) : Option Value :=
  let arg (i : Nat) : Value := args.getD i .empty
  match function with
  | .len => some (arg 0).length
  | .join => some ((arg 0).join (arg 1))
  | .split => some ((arg 0).split (arg 1))
  | .bold => some (f.bold (arg 0))
  | .italic => some (f.italic (arg 0))
  | .link => some (f.link (arg 0) (arg 1) (arg 2))
  | .padLeft => some ((arg 0).padLeft (arg 1) (arg 2))
  | .padRight => some ((arg 0).padRight (arg 1) (arg 2))
  | .trimLeft => some ((arg 0).trimLeft (arg 1))
  | .trimRight => some ((arg 0).trimRight (arg 1))
  | .integer => some (arg 0).integer
  | .fraction => some ((arg 0).fraction (arg 1))
  | .abs => some (arg 0).abs
  | .plural => none
  | .translate => none

/-- The limit of nesting unless another one is set. -/
def defaultMaxDepth : Nat := 128

/-- What a template is evaluated in. -/
structure Scope where
  format : Format
  locale : String
  vars : Vars
  table : Table
  limit : Nat

namespace Evaluation

/-- The evaluators of parts. -/
structure Parts where
  node : Scope → Node → Eval Value
  choose : Scope → Translation → Eval (Option Template)

/-- The evaluator of an expression that is a part. -/
def Parts.expr (parts : Parts) (scope : Scope) (e : Expr) : Eval Value :=
  parts.node scope (.fragment (.expr e))

/-- The value of a literal. Underscores separate the digits of numbers. -/
def literal (kind : LiteralKind) (lexeme : String) : Value :=
  let digits := String.ofList (lexeme.toList.filter (· != '_'))
  match kind with
  | .string => .text lexeme
  | .int => .int ((Number.readInt64? digits).getD 0)
  | .float => .float ((Number.readFloat? digits).getD 0)

/-- The value of an operator in front of a value. -/
def unary : UnaryOp → Value → Value
  | .not, v => v.not
  | .plus, v => v.plus
  | .minus, v => v.neg

/-- The value of an operator between two values. -/
def binary : BinaryOp → Value → Value → Value
  | .or, a, b => .bool (a.toBool || b.toBool)
  | .and, a, b => .bool (a.toBool && b.toBool)
  | .equal, a, b => .bool (a.equal b)
  | .notEqual, a, b => .bool !a.equal b
  | .greater, a, b => .bool (a.greater b)
  | .greaterEqual, a, b => .bool (a.greaterEqual b)
  | .less, a, b => .bool (a.less b)
  | .lessEqual, a, b => .bool (a.lessEqual b)
  | .add, a, b => a.add b
  | .sub, a, b => a.sub b
  | .mul, a, b => a.mul b
  | .div, a, b => a.div b
  | .rem, a, b => a.mod b

/-- The value of an operator whose left operand decides it alone. -/
def decided? : BinaryOp → Value → Option Value
  | .or, a => if a.toBool then some (.bool true) else none
  | .and, a => if a.toBool then none else some (.bool false)
  | _, _ => none

/-- The item at a position, which counts from the end if it is negative; the empty text if there
is none. -/
def itemAt (base : Value) (position : Int64) : Value :=
  let items := base.items
  let i := if position.toInt < 0 then position.toInt + items.length else position.toInt
  if i < 0 then .empty else items.getD i.toNat .empty

/-- The items from a position up to another one, which counts from the end if it is negative; the
empty text if they are not positions in order. -/
def itemsBetween (items : List Value) (start stop : Int) : Value :=
  let stop := if stop < 0 then stop + items.length else stop
  if 0 ≤ start ∧ start ≤ stop ∧ stop ≤ items.length then
    .list ((items.take stop.toNat).drop start.toNat)
  else .empty

/-- Reads a bound of a slice off its value. -/
def bound (which : SliceBound) : Value → Eval Int
  | .int n => pure n.toInt
  | v => throw (.invalidBound which v.kind)

/-- Whether a value has slices. -/
def isSliceable : Value → Bool
  | .text _ | .raw _ | .list _ => true
  | _ => false

/-- The value of a slice. The bounds are not looked at unless the base has slices. -/
def slice (parts : Parts) (scope : Scope) (base start : Expr) (stop : Option Expr) :
    Eval Value := do
  let base ← parts.expr scope base
  if isSliceable base then
    let items := base.items
    let start ← bound .start (← parts.expr scope start)
    let stop ←
      match stop with
      | some stop => bound .stop (← parts.expr scope stop)
      | none => pure (items.length : Int)
    return itemsBetween items start stop
  else throw (.cannotSlice base.kind)

/-- The value of the first option that matches a value; the empty text if there is none. -/
def firstOption (parts : Parts) (scope : Scope) (v : Value) : List (Expr × Expr) → Eval Value
  | [] => pure .empty
  | (pattern, result) :: options =>
    if pattern.isWildcard then parts.expr scope result
    else do
      if v.equal (← parts.expr scope pattern) then parts.expr scope result
      else firstOption parts scope v options

/-- The rendering of another translation of the same locale, as raw text; the empty text if there
is none that applies. It sees only the variables of its own message. -/
def translation (parts : Parts) (scope : Scope) (key value option : Value) : Eval Value :=
  let message := Message.nested key value option
  match scope.table.find? message.key with
  | none => pure .empty
  | some t =>
    let inner := { scope with vars := message.vars }
    Eval.isolated do
      match ← parts.choose inner t with
      | none => pure .empty
      | some template =>
        return .raw (scope.format.render (← parts.node inner (.template template)))

/-- The value of a call of a builtin function. -/
def call (parts : Parts) (scope : Scope) (function : Builtin) (args : List Expr) : Eval Value := do
  let values ← args.mapM (parts.expr scope)
  let arg (i : Nat) : Value := values.getD i .empty
  match function with
  | .plural => return .text (PluralCategory.ofInt scope.locale (arg 0).toInt).name
  | .translate => translation parts scope (arg 0) (arg 1) (arg 2)
  | function => return (scope.format.call? function values).getD .empty

/-- The value of an expression. -/
def expr (parts : Parts) (scope : Scope) : Expr → Eval Value
  | .ident name => pure ((scope.vars.find? name).getD .empty)
  | .func function => pure (.text function.name)
  | .literal kind lexeme => pure (literal kind lexeme)
  | .unary op operand => return unary op (← parts.expr scope operand)
  | .binary op lhs rhs => do
    let a ← parts.expr scope lhs
    match decided? op a with
    | some v => pure v
    | none => return binary op a (← parts.expr scope rhs)
  | .range _ _ => throw .unexpectedRange
  | .index base position => do
    let base ← parts.expr scope base
    return itemAt base (← parts.expr scope position).toInt
  | .slice base start stop => slice parts scope base start stop
  | .select value options => do firstOption parts scope (← parts.expr scope value) options
  | .call (.func function) args => call parts scope function args
  | .call callee args => do
    let name ← parts.expr scope callee
    match Builtin.ofName? name.toText with
    | some function => call parts scope function args
    | none => pure .empty
  | .invalid start _ => throw (.invalidExpr start.display)

/-- The value of a fragment of a template. One that could not be read is empty. -/
def fragment (parts : Parts) (scope : Scope) : Fragment → Eval Value
  | .expr (.invalid _ _) => pure .empty
  | f => parts.node scope (.fragment f)

/-- The value of a template or fragment. -/
def node (parts : Parts) (scope : Scope) : Node → Eval Value
  | .template t => return .list (← t.mapM (fragment parts scope))
  | .fragment (.text content) => pure (.text content)
  | .fragment (.expr e) => expr parts scope e

/-- The template of the first alternative that applies. -/
def firstChosen (parts : Parts) (scope : Scope) : List Translation → Eval (Option Template)
  | [] => pure none
  | t :: group => do
    match ← parts.choose scope t with
    | some template => pure (some template)
    | none => firstChosen parts scope group

/-- Whether the condition of a translation holds, if it has one. -/
def holds (parts : Parts) (scope : Scope) : Option Node → Eval Bool
  | none => pure true
  | some condition => return (← parts.node scope condition).toBool

/-- The template of a translation that applies, if any does. -/
def choice (parts : Parts) (scope : Scope) (t : Translation) : Eval (Option Template) := do
  if ← holds parts scope t.condition then
    match t.value with
    | some template => pure (some template)
    | none => firstChosen parts scope t.group
  else pure none

mutual
/-- Evaluates a template or fragment with the given number of levels left. -/
def nodeWithin : Nat → Scope → Node → Eval Value
  | 0, scope, _ => throw (.tooDeep scope.limit)
  | levels + 1, scope, n =>
    Eval.deeper scope.limit (node ⟨nodeWithin levels, chooseWithin levels⟩ scope n)

/-- Chooses the template of a translation with the given number of levels left. -/
def chooseWithin : Nat → Scope → Translation → Eval (Option Template)
  | 0, scope, _ => throw (.tooDeep scope.limit)
  | levels + 1, scope, t =>
    Eval.deeper scope.limit (choice ⟨nodeWithin levels, chooseWithin levels⟩ scope t)
end

end Evaluation

namespace Scope

/-- Evaluates a template or fragment from the current depth on. -/
def evalNode (scope : Scope) (n : Node) : Eval Value := fun depth =>
  (Evaluation.nodeWithin (scope.limit - depth) scope n).runAt depth

/-- Evaluates a template. -/
def eval (scope : Scope) (t : Template) : Eval Value := scope.evalNode (.template t)

/-- Chooses the template of a translation that applies, if any does. -/
def choose (scope : Scope) (t : Translation) : Eval (Option Template) := fun depth =>
  (Evaluation.chooseWithin (scope.limit - depth) scope t).runAt depth

/-- The value of a translation that applies, if any does. -/
def translate (scope : Scope) (t : Translation) : Eval (Option Value) := do
  match ← scope.choose t with
  | some template => return some (← scope.eval template)
  | none => pure none

end Scope

end Phrasebook
