import Mathlib
import Phrasebook.Proofs.Evaluation.Descent

/-!
# Evaluation comes to an end

Translations may ask for each other in a circle, so evaluation does not go by the size of a tree. It
ends because every step is one level deeper than the one that it is a part of, and no step is deeper
than the limit.

To say so, evaluation is written once more, as a recursion that knows nothing of the levels that are
left (`Evaluation.nodeFueled`). It raises an alarm where its fuel runs out, and where a step is at a
depth above the limit. With fuel for one call more than there are levels left, no alarm is ever
raised.

What comes to the limit fails with an error that names the limit, and no other error does.
-/

namespace Phrasebook

/-- A computation that raises an alarm if it starts above the ceiling. -/
def Eval.watched {α : Type} (ceiling : Nat) (alarm : EvalError) (act : Eval α) : Eval α :=
  fun depth => if ceiling < depth then (.error alarm, depth) else act.runAt depth

theorem Eval.runAt_watched {α : Type} {ceiling depth : Nat} (h : depth ≤ ceiling)
    (alarm : EvalError) (act : Eval α) :
    (watched ceiling alarm act).runAt depth = act.runAt depth :=
  if_neg (Nat.not_lt.mpr h)

namespace Evaluation

mutual
/-- Evaluates a template or fragment, as far as the fuel reaches. -/
def nodeFueled (alarm : EvalError) : Nat → Scope → Node → Eval Value
  | 0, _, _ => throw alarm
  | fuel + 1, scope, n =>
    Eval.deeper scope.limit <| Eval.watched scope.limit alarm <|
      node ⟨nodeFueled alarm fuel, chooseFueled alarm fuel⟩ scope n

/-- Chooses the template of a translation, as far as the fuel reaches. -/
def chooseFueled (alarm : EvalError) : Nat → Scope → Translation → Eval (Option Template)
  | 0, _, _ => throw alarm
  | fuel + 1, scope, t =>
    Eval.deeper scope.limit <| Eval.watched scope.limit alarm <|
      choice ⟨nodeFueled alarm fuel, chooseFueled alarm fuel⟩ scope t
end

/-- With fuel for one call more than there are levels left, the recursion takes the course of
evaluation, whatever the alarm is. -/
theorem related_fueled (alarm : EvalError) {limit depth fuel : Nat} (h : limit - depth < fuel) :
    Parts.Related (fun _ x y => x.Steady ∧ x.runAt depth = y.runAt depth) limit limit evaluators
      ⟨nodeFueled alarm fuel, chooseFueled alarm fuel⟩ := by
  induction fuel generalizing depth with
  | zero => omega
  | succ fuel ih =>
      constructor
      · rintro scope n rfl
        refine ⟨scope.steady_evalNode n, ?_⟩
        rw [evaluators_node, Scope.evalNode_eq]
        apply Eval.runAt_deeper_congr
        intro hdepth
        rw [Eval.runAt_watched hdepth]
        exact (related_node (Eval.congruence_runAt (depth + 1)) (fun _ _ => Eval.isolated_runAt)
          (ih (by omega)) n).2
      · rintro scope t rfl
        refine ⟨scope.steady_choose t, ?_⟩
        rw [evaluators_choose, Scope.choose_eq]
        apply Eval.runAt_deeper_congr
        intro hdepth
        rw [Eval.runAt_watched hdepth]
        exact (related_choice (Eval.congruence_runAt (depth + 1)) (ih (by omega)) t).2

end Evaluation

namespace Eval

variable {α β : Type} {limit : Nat}

/-- A computation that fails for its depth names a limit. -/
def Names (limit : Nat) (act : Eval α) : Prop :=
  ∀ depth n, (act.runAt depth).1 = .error (.tooDeep n) → n = limit

theorem Names.bind {act : Eval α} {f : α → Eval β} (h : act.Names limit)
    (hf : ∀ a, (f a).Names limit) : (act >>= f).Names limit := by
  intro depth n hn
  rw [runAt_bind] at hn
  cases hrun : act.runAt depth with
  | mk outcome depth' =>
      rw [hrun] at hn
      cases outcome with
      | ok a => exact hf a depth' n hn
      | error e =>
          obtain rfl : e = .tooDeep n := Except.error.inj hn
          exact h depth n (by rw [hrun])

theorem congruence_names (limit : Nat) : Congruence fun _ x _ => x.Names limit where
  pure := by
    intro α a depth n hn
    cases hn
  throw := by
    intro α e he depth n hn
    exact absurd (Except.error.inj hn) (he n)
  bind := Names.bind

theorem Names.deeper {act : Eval α} (h : act.Names limit) : (deeper limit act).Names limit := by
  intro depth n hn
  rw [outcome_deeper] at hn
  split at hn
  · cases hn
    rfl
  · exact h (depth + 1) n hn

end Eval

namespace Evaluation

theorem names_within (limit levels : Nat) :
    Parts.Related (fun _ x _ => x.Names limit) limit limit ⟨nodeWithin levels, chooseWithin levels⟩
      ⟨nodeWithin levels, chooseWithin levels⟩ := by
  have isolated : ∀ x _ : Eval Value, x.Names limit → x.isolated.Names limit := fun _ _ hx => hx
  induction levels with
  | zero =>
      constructor
      · rintro scope n rfl depth k hk
        cases hk
        rfl
      · rintro scope t rfl depth k hk
        cases hk
        rfl
  | succ levels ih =>
      constructor
      · rintro scope n rfl
        exact (related_node (Eval.congruence_names scope.limit) isolated ih n).deeper
      · rintro scope t rfl
        exact (related_choice (Eval.congruence_names scope.limit) ih t).deeper

end Evaluation

namespace Scope

/-- Evaluation that comes too deep names the limit of its scope. -/
theorem names_evalNode (scope : Scope) (n : Node) : (scope.evalNode n).Names scope.limit := by
  intro depth
  exact (Evaluation.names_within scope.limit _).node scope n rfl depth

theorem names_choose (scope : Scope) (t : Translation) : (scope.choose t).Names scope.limit := by
  intro depth
  exact (Evaluation.names_within scope.limit _).choose scope t rfl depth

theorem names_translate (scope : Scope) (t : Translation) :
    (scope.translate t).Names scope.limit := by
  apply (scope.names_choose t).bind
  intro chosen
  cases chosen with
  | none =>
      intro depth n hn
      cases hn
  | some template =>
      apply (scope.names_evalNode _).bind
      intro v depth n hn
      cases hn

end Scope

end Phrasebook
