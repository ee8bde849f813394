import Mathlib
import Phrasebook.Proofs.Evaluation.Descent

/-!
# Calls

A function is called by its name, or by an expression whose value is its name. Either way the call
comes to the function and the values of its arguments (`Scope.Calls`). One that asks for a
translation takes the message from these values, and nothing else from the place where it stands.
-/

namespace Phrasebook

open Evaluation

/-- The message that the arguments of a call ask for. Missing ones are empty. -/
def Message.ofArguments (values : List Value) : Message :=
  .nested (values.getD 0 .empty) (values.getD 1 .empty) (values.getD 2 .empty)

namespace Scope

variable (scope : Scope)

/-- Evaluates an expression. -/
def evalExpr (e : Expr) : Eval Value := scope.evalNode (.fragment (.expr e))

/-- What is called stands for a builtin function: it is the function, or its value is the name of
the function. -/
inductive Calls (depth : Nat) : Expr → Builtin → Prop where
  | direct (function : Builtin) : Calls depth (.func function) function
  | named {callee : Expr} {name : Value} {function : Builtin} (hcallee : ∀ f, callee ≠ .func f)
      (hname : ((scope.evalExpr callee).runAt depth).1 = .ok name)
      (hfunction : Builtin.ofName? name.toText = some function) : Calls depth callee function

variable {scope}

theorem steady_evalExpr (scope : Scope) (e : Expr) : (scope.evalExpr e).Steady :=
  scope.steady_evalNode _

theorem steady_evalArgs (scope : Scope) (args : List Expr) :
    (args.mapM scope.evalExpr).Steady :=
  Eval.congruence_steady.mapM (g := scope.evalExpr) fun a _ => scope.steady_evalExpr a

/-- An expression is evaluated one level down. -/
theorem evalExpr_eq (scope : Scope) (e : Expr) :
    scope.evalExpr e = Eval.deeper scope.limit (expr evaluators scope e) :=
  scope.evalNode_eq _

end Scope

/-- A callee that is not a function itself is evaluated for the name of one. -/
theorem Evaluation.expr_call {callee : Expr} (h : ∀ f, callee ≠ .func f) (parts : Parts)
    (scope : Scope) (args : List Expr) :
    expr parts scope (.call callee args) = (do
      let name ← parts.expr scope callee
      match Builtin.ofName? name.toText with
      | some function => call parts scope function args
      | none => pure .empty) := by
  cases callee with
  | func f => exact absurd rfl (h f)
  | _ => rfl

namespace Scope

variable {scope : Scope}

/-- A call is that of the function that is called. -/
theorem Calls.runAt_expr {depth : Nat} {callee : Expr} {function : Builtin}
    (h : scope.Calls depth callee function) (args : List Expr) :
    ((expr evaluators scope (.call callee args)).runAt depth).1 =
      ((call evaluators scope function args).runAt depth).1 := by
  cases h with
  | direct => rfl
  | @named _ name _ hcallee hname hfunction =>
      rw [expr_call hcallee]
      show (Eval.runAt (scope.evalExpr callee >>= _) depth).1 = _
      rw [(scope.steady_evalExpr callee).outcome_bind, hname]
      simp only [bind, Except.bind, hfunction]

/-- A call comes to what its function comes to for the values of the arguments. -/
theorem Calls.outcome_evalExpr {depth : Nat} {callee : Expr} {function : Builtin}
    {args : List Expr} {values : List Value} (h : scope.Calls (depth + 1) callee function)
    (hargs : ((args.mapM scope.evalExpr).runAt (depth + 1)).1 = .ok values) :
    ((scope.evalExpr (.call callee args)).runAt depth).1 =
      ((Eval.deeper scope.limit (apply evaluators scope function values)).runAt depth).1 := by
  rw [evalExpr_eq, Eval.outcome_deeper, Eval.outcome_deeper, h.runAt_expr, call_eq]
  show (if _ then _ else (Eval.runAt (args.mapM scope.evalExpr >>= _) (depth + 1)).1) = _
  rw [(scope.steady_evalArgs args).outcome_bind, hargs]
  rfl

end Scope

end Phrasebook
