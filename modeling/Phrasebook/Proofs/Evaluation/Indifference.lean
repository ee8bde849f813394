import Mathlib
import Phrasebook.Proofs.Evaluation.Congruence

/-!
# Scopes that make no difference

Two scopes with the same limit make no difference to an expression if its own step is the same in
both (`Expr.SameStep`): the value of a variable, and what functions come to for the values of their
arguments. If that holds of all expressions in a tree, evaluation of the tree is the same
computation in both scopes: it has the same outcome from every depth.
-/

namespace Phrasebook

/-- Equal computations put together in the same way are equal. -/
theorem Eval.congruence_eq : Eval.Congruence fun _ x y => x = y where
  pure _ := rfl
  throw _ := rfl
  bind := by
    rintro α β x y f g rfl hfg
    rw [funext hfg]

/-- The own step of an expression is the same in two scopes, whatever its parts come to. -/
structure Expr.SameStep (scope scope' : Scope) (e : Expr) : Prop where
  name : ∀ name, e = .ident name → scope.vars.find? name = scope'.vars.find? name
  apply : ∀ function, e.MayCall function → ∀ parts values,
    Evaluation.apply parts scope function values = Evaluation.apply parts scope' function values

namespace Evaluation

variable {scope scope' : Scope}

/-- With any number of levels left, scopes that make no difference to a tree evaluate it alike. -/
theorem nodeWithin_congr (hlimit : scope.limit = scope'.limit) (levels : Nat) {n : Node}
    (h : n.Everywhere (·.SameStep scope scope')) :
    nodeWithin levels scope n = nodeWithin levels scope' n := by
  induction levels generalizing n with
  | zero => rw [nodeWithin, nodeWithin, hlimit]
  | succ levels ih =>
      let parts : Parts := ⟨nodeWithin levels, chooseWithin levels⟩
      suffices hnode : node parts scope n = node parts scope' n by
        rw [nodeWithin, nodeWithin, hlimit]
        exact congrArg _ hnode
      cases n with
      | template t =>
          apply related_template Eval.congruence_eq
          intro f hf
          exact ih (h.fragment hf)
      | fragment f =>
          cases f with
          | text content => rfl
          | expr e =>
              obtain ⟨hown, hbelow⟩ := h
              apply related_expr Eval.congruence_eq hown.name
              · intro function hmay
                exact hown.apply function hmay parts
              · intro p hp
                exact ih (hbelow p hp)

end Evaluation

/-- Scopes that make no difference to a tree evaluate it alike. -/
theorem Scope.evalNode_congr {scope scope' : Scope} (hlimit : scope.limit = scope'.limit) {n : Node}
    (h : n.Everywhere (·.SameStep scope scope')) : scope.evalNode n = scope'.evalNode n := by
  funext depth
  rw [evalNode, evalNode, hlimit, Evaluation.nodeWithin_congr hlimit _ h]

end Phrasebook
