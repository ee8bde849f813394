import Mathlib
import Phrasebook.Evaluation.Depth

/-!
# What evaluation yields

`Eval.Yields act Q` is partial correctness of a computation: whenever it has a result, from whatever
depth it starts, the result satisfies `Q`. The rules below follow the ways in which computations are
put together, so a property of all results is proved along the evaluator and not along its runs.
-/

namespace Phrasebook.Eval

variable {α β : Type} {Q : α → Prop} {R : β → Prop}

/-- Every result of a computation has a property. Nothing is said about failing ones. -/
def Yields (act : Eval α) (Q : α → Prop) : Prop :=
  ∀ depth v, (act.runAt depth).1 = .ok v → Q v

theorem runAt_pure (a : α) (depth : Nat) : (pure a : Eval α).runAt depth = (.ok a, depth) := rfl

theorem runAt_throw (e : EvalError) (depth : Nat) :
    (throw e : Eval α).runAt depth = (.error e, depth) := rfl

/-- A sequence goes on where its first part ends, unless that fails. -/
theorem runAt_bind (act : Eval α) (f : α → Eval β) (depth : Nat) :
    (act >>= f).runAt depth =
      match act.runAt depth with
      | (.ok a, depth) => (f a).runAt depth
      | (.error e, depth) => (.error e, depth) := by
  have hbind : (act >>= f).runAt depth =
      ExceptT.bindCont f (act.runAt depth).1 (act.runAt depth).2 := rfl
  rw [hbind]
  rcases act.runAt depth with ⟨_ | _, _⟩ <;> rfl

theorem runAt_deeper (limit : Nat) (act : Eval α) (depth : Nat) :
    (deeper limit act).runAt depth =
      if limit ≤ depth then (.error (.tooDeep limit), depth)
      else ((act.runAt (depth + 1)).1, (act.runAt (depth + 1)).2 - 1) := by
  rw [deeper, runAt_bind]
  by_cases h : limit ≤ depth
  · simp [runAt, descend, h]
  · simp [runAt, descend, ascending, h]

theorem outcome_deeper (limit : Nat) (act : Eval α) (depth : Nat) :
    ((deeper limit act).runAt depth).1 =
      if limit ≤ depth then .error (.tooDeep limit) else (act.runAt (depth + 1)).1 := by
  rw [runAt_deeper]
  split <;> rfl

namespace Yields

theorem pure {a : α} (h : Q a) : Yields (pure a) Q := by
  intro depth v hv
  cases hv
  exact h

theorem throw (e : EvalError) : Yields (throw e) Q := by
  intro depth v hv
  cases hv

theorem bind {act : Eval α} {f : α → Eval β} (first : Yields act Q)
    (rest : ∀ a, Q a → Yields (f a) R) : Yields (act >>= f) R := by
  intro depth v hv
  rw [runAt_bind] at hv
  cases h : act.runAt depth with
  | mk outcome depth' =>
      rw [h] at hv
      cases outcome with
      | error e => cases hv
      | ok a => exact rest a (first depth a (by rw [h])) depth' v hv

theorem trivial (act : Eval α) : Yields act fun _ => True := fun _ _ _ => True.intro

theorem deeper {act : Eval α} (h : Yields act Q) (limit : Nat) :
    Yields (deeper limit act) Q := by
  intro depth v hv
  rw [runAt_deeper] at hv
  by_cases hd : limit ≤ depth
  · simp [hd] at hv
  · exact h (depth + 1) v (by simpa [hd] using hv)

theorem isolated {act : Eval α} (h : Yields act Q) : Yields (isolated act) Q :=
  fun depth v hv => h depth v hv

theorem mapM {f : β → Eval α} {xs : List β} (h : ∀ x ∈ xs, Yields (f x) Q) :
    Yields (xs.mapM f) fun vs => ∀ v ∈ vs, Q v := by
  induction xs with
  | nil => exact .pure (by simp)
  | cons x xs ih =>
      rw [List.mapM_cons]
      refine (h x (by simp)).bind fun v hv => ?_
      refine (ih fun y hy => h y (by simp [hy])).bind fun vs hvs => .pure ?_
      simpa [hv] using hvs

end Yields

end Phrasebook.Eval
