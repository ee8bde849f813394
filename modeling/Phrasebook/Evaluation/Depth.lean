import Phrasebook.Text.Quoted
import Phrasebook.Value.Basic

/-!
# Computations that keep track of their depth

Evaluation may end with an error. Missing names, wrong kinds and positions out of range have values;
only what has no sensible value is an error.

Evaluation carries the current depth of nesting along. Every nested step goes one level deeper,
which fails at the limit, and comes back when it is done, whether it has a result or an error.
-/

namespace Phrasebook

/-- The two bounds of a slice. -/
inductive SliceBound where
  | start
  | stop
  deriving DecidableEq, Repr

/-- The name of a bound in messages. -/
def SliceBound.name : SliceBound → String
  | start => "start"
  | stop => "end"

/-- Why evaluation stops. -/
inductive EvalError where
  /-- Only texts and lists have slices. -/
  | cannotSlice (kind : Value.Kind)
  /-- Only integers bound slices. -/
  | invalidBound (bound : SliceBound) (kind : Value.Kind)
  /-- A range stands outside of brackets. -/
  | unexpectedRange
  /-- A span that could not be read, given by its first token. -/
  | invalidExpr (lexeme : String)
  /-- Evaluation is nested too deeply, most often because a translation asks for itself. -/
  | tooDeep (limit : Nat)
  deriving DecidableEq, Repr

/-- The wording of an error. -/
def EvalError.message : EvalError → String
  | cannotSlice kind => "cannot slice a value of type " ++ kind.name
  | invalidBound bound kind => "invalid slice " ++ bound.name ++ " bound of type " ++ kind.name
  | unexpectedRange => "unexpected operator ':'"
  | invalidExpr lexeme => "cannot evaluate invalid expression at " ++ Text.quote lexeme
  | tooDeep limit => "maximum evaluation depth of " ++ toString limit ++ " exceeded"

/-- A computation that starts at a depth and ends with a result or an error, and at a depth. -/
abbrev Eval (α : Type) := ExceptT EvalError (StateM Nat) α

namespace Eval

/-- The outcome of a computation that starts at the given depth, and the depth at its end. -/
def runAt (act : Eval α) (depth : Nat) : Except EvalError α × Nat := act depth

/-- Goes one level deeper, unless that is beyond the limit. -/
def descend (limit : Nat) : Eval Unit := fun depth =>
  if limit ≤ depth then (.error (.tooDeep limit), depth) else (.ok (), depth + 1)

/-- A computation followed by coming up one level, whatever its outcome. -/
def ascending (act : Eval α) : Eval α := fun depth =>
  let (outcome, depth) := act.runAt depth
  (outcome, depth - 1)

/-- A computation one level deeper. -/
def deeper (limit : Nat) (act : Eval α) : Eval α := do
  descend limit
  ascending act

/-- A computation on a copy of the current depth. -/
def isolated (act : Eval α) : Eval α := fun depth => ((act.runAt depth).1, depth)

end Eval

end Phrasebook
