import Mathlib
import Phrasebook.Proofs.Evaluation.Descent

/-!
# What a translation means

Apart from the limit, a translation means the first template in it whose conditions hold
(`Translation.meaning`), for given truths of the conditions. Choosing at a depth gives that
template, with the truths that the conditions have at the same depth, unless it fails for the depth.
It does not fail if there is room for all levels of the translation and for the conditions below
them.
-/

namespace Phrasebook

/-- A template, none, or an error: what may come of choosing. -/
abbrev Chosen := Except EvalError (Option Template)

/-- The first result that is a template. An error ends the search, and what stands behind a
template does not matter. -/
def firstResult : List Chosen → Chosen
  | [] => .ok none
  | .ok none :: results => firstResult results
  | result :: _ => result

/-- A result that counts only where a condition holds. -/
def gated (holds : Except EvalError Bool) (result : Chosen) : Chosen := do
  if ← holds then result else return none

@[simp] theorem firstResult_nil : firstResult [] = .ok none := rfl

@[simp] theorem firstResult_none (results : List Chosen) :
    firstResult (.ok none :: results) = firstResult results := rfl

@[simp] theorem firstResult_some (t : Template) (results : List Chosen) :
    firstResult (.ok (some t) :: results) = .ok (some t) := rfl

@[simp] theorem firstResult_error (e : EvalError) (results : List Chosen) :
    firstResult (.error e :: results) = .error e := rfl

@[simp] theorem firstResult_singleton (result : Chosen) : firstResult [result] = result := by
  rcases result with e | _ | t <;> rfl

@[simp] theorem gated_true (result : Chosen) : gated (.ok true) result = result := rfl

theorem firstResult_ne_some {results : List Chosen}
    (h : ∀ result ∈ results, ∀ t, result ≠ .ok (some t)) (t : Template) :
    firstResult results ≠ .ok (some t) := by
  induction results with
  | nil => simp
  | cons result results ih =>
      obtain ⟨hfirst, hothers⟩ := List.forall_mem_cons.mp h
      rcases result with e | _ | t'
      · simp
      · exact ih hothers
      · exact absurd rfl (hfirst t')

theorem gated_ne_some {holds : Except EvalError Bool} {result : Chosen} {t : Template}
    (h : result ≠ .ok (some t)) : gated holds result ≠ .ok (some t) := by
  rcases holds with e | _ | _
  · intro he
    cases he
  · intro he
    cases he
  · exact h

section

open Eval (Approximates)

variable {limit : Nat}

theorem approximates_gated {holds holds' : Except EvalError Bool} {result result' : Chosen}
    (hholds : Approximates limit holds holds') (hresult : Approximates limit result result') :
    Approximates limit (gated holds result) (gated holds' result') := by
  apply hholds.bind
  intro b
  cases b with
  | false => exact .refl _
  | true => exact hresult

theorem approximates_firstResult {α : Type} {f g : α → Chosen} {xs : List α}
    (h : ∀ x ∈ xs, Approximates limit (f x) (g x)) :
    Approximates limit (firstResult (xs.map f)) (firstResult (xs.map g)) := by
  induction xs with
  | nil => exact .refl _
  | cons x xs ih =>
      obtain ⟨hfirst, hothers⟩ := List.forall_mem_cons.mp h
      rw [List.map_cons, List.map_cons]
      obtain he | he := hfirst
      · rw [he]
        exact .tooDeep
      · rw [← he]
        rcases f x with e | _ | t
        · exact .refl _
        · exact ih hothers
        · exact .refl _

end

/-- The truth of a condition at a depth. -/
def Scope.truth (scope : Scope) (depth : Nat) (condition : Node) : Except EvalError Bool :=
  ((scope.evalNode condition).runAt depth).1.map Value.toBool

theorem Scope.approximates_truth (scope : Scope) (condition : Node) {deep shallow : Nat}
    (hle : shallow ≤ deep) :
    Eval.Approximates scope.limit (scope.truth deep condition) (scope.truth shallow condition) :=
  (scope.approximates_evalNode condition hle).map _

namespace Translation

/-- What one level of a translation comes to, by the truths of conditions and by what comes of its
alternatives. -/
def outcome (t : Translation) (truth : Node → Except EvalError Bool)
    (alternative : Translation → Chosen) : Chosen :=
  gated (t.condition.elim (.ok true) truth)
    (t.value.elim (firstResult (t.group.map alternative)) fun template => .ok (some template))

theorem approximates_outcome {limit : Nat} {truth truth' : Node → Except EvalError Bool}
    {alternative alternative' : Translation → Chosen} {t : Translation}
    (htruth : ∀ c, Eval.Approximates limit (truth c) (truth' c))
    (hgroup : ∀ m ∈ t.group, Eval.Approximates limit (alternative m) (alternative' m)) :
    Eval.Approximates limit (t.outcome truth alternative) (t.outcome truth' alternative') := by
  apply approximates_gated
  · cases t.condition with
    | none => exact .refl _
    | some condition => exact htruth condition
  · cases t.value with
    | none => exact approximates_firstResult hgroup
    | some template => exact .refl _

/-- What a translation means, for given truths of conditions. -/
def meaning (truth : Node → Except EvalError Bool) : Translation → Chosen
  | ⟨condition, value, group⟩ =>
    gated (condition.elim (.ok true) truth)
      (value.elim (firstResult (meanings truth group)) fun template => .ok (some template))
where
  /-- What alternatives mean. -/
  meanings (truth : Node → Except EvalError Bool) : List Translation → List Chosen
    | [] => []
    | t :: group => meaning truth t :: meanings truth group

/-- The number of levels of a translation: its own one, and those of its deepest alternative. -/
def levels : Translation → Nat
  | ⟨_, _, group⟩ => levelsOf group + 1
where
  /-- The levels of the deepest alternative. -/
  levelsOf : List Translation → Nat
    | [] => 0
    | t :: group => max t.levels (levelsOf group)

theorem meaning_eq (truth : Node → Except EvalError Bool) (t : Translation) :
    t.meaning truth = t.outcome truth (meaning truth) := by
  have map : ∀ group, meaning.meanings truth group = group.map (meaning truth) := by
    intro group
    induction group with
    | nil => rfl
    | cons t group ih => rw [meaning.meanings, ih, List.map_cons]
  obtain ⟨condition, value, group⟩ := t
  rw [meaning, map, outcome]

theorem levels_lt_of_mem {t m : Translation} (h : m ∈ t.group) : m.levels < t.levels := by
  have greatest : ∀ group, levels.levelsOf group = greatest (group.map levels) := by
    intro group
    induction group with
    | nil => rfl
    | cons t group ih => rw [levels.levelsOf, ih, List.map_cons, greatest_cons]
  obtain ⟨condition, value, group⟩ := t
  rw [levels, greatest]
  exact Nat.lt_succ_of_le (le_greatest (List.mem_map_of_mem h))

theorem levels_pos (t : Translation) : 0 < t.levels := by
  obtain ⟨condition, value, group⟩ := t
  exact Nat.succ_pos _

theorem meaning_ofTemplate (truth : Node → Except EvalError Bool) (template : Template) :
    (ofTemplate template).meaning truth = .ok (some template) := rfl

theorem meaning_ofGroup (truth : Node → Except EvalError Bool) (group : List Translation) :
    (ofGroup group).meaning truth = firstResult (group.map (meaning truth)) := by
  rw [meaning_eq]
  rfl

/-- A condition in front of a translation gates all that it means. -/
theorem meaning_guardedBy (truth : Node → Except EvalError Bool) (t : Translation)
    (condition : Node) :
    (t.guardedBy condition).meaning truth = gated (truth condition) (t.meaning truth) := by
  obtain ⟨inner, value, group⟩ := t
  cases inner with
  | none => simp [guardedBy, meaning_eq, outcome]
  | some inner => simp [guardedBy, meaning_eq, outcome]

theorem meaning_ne_some_of_isEmpty {t : Translation} (h : t.isEmpty)
    (truth : Node → Except EvalError Bool) (template : Template) :
    t.meaning truth ≠ .ok (some template) := by
  induction t generalizing template with
  | mk condition value group ih =>
      have all : ∀ group, isEmpty.areEmpty group = group.all isEmpty := by
        intro group
        induction group with
        | nil => rfl
        | cons t group ih => rw [isEmpty.areEmpty, ih, List.all_cons]
      simp only [isEmpty, all, Bool.and_eq_true, Option.isNone_iff_eq_none, List.all_eq_true] at h
      obtain ⟨rfl, hgroup⟩ := h
      rw [meaning_eq]
      apply gated_ne_some
      apply firstResult_ne_some
      intro result hresult t
      obtain ⟨m, hm, rfl⟩ := List.mem_map.mp hresult
      exact ih m hm (hgroup m hm) t

/-- A translation in which nothing has both a template and alternatives. -/
inductive Exclusive : Translation → Prop where
  | intro {condition : Option Node} {value : Option Template} {group : List Translation} :
      value = none ∨ group = [] → (∀ t ∈ group, Exclusive t) →
      Exclusive ⟨condition, value, group⟩

namespace Exclusive

theorem never : never.Exclusive := .intro (.inl rfl) (by simp)

theorem ofTemplate (template : Template) : (ofTemplate template).Exclusive :=
  .intro (.inr rfl) (by simp)

theorem ofGroup {group : List Translation} (h : ∀ t ∈ group, t.Exclusive) :
    (ofGroup group).Exclusive :=
  .intro (.inl rfl) h

theorem guardedBy {t : Translation} (h : t.Exclusive) (condition : Node) :
    (t.guardedBy condition).Exclusive := by
  unfold Translation.guardedBy
  split
  · exact .intro (.inl rfl) (by simpa using h)
  · obtain ⟨hvalue, hgroup⟩ := h
    exact .intro hvalue hgroup

end Exclusive

end Translation

namespace Scope

open Evaluation

variable (scope : Scope)

/-- The truth of a condition that may be missing. -/
theorem runAt_holds (condition : Option Node) (depth : Nat) :
    ((holds evaluators scope condition).runAt depth).1 =
      condition.elim (.ok true) (scope.truth depth) := by
  cases condition with
  | none => rfl
  | some condition =>
      rw [holds, evaluators_node, (scope.steady_evalNode condition).outcome_bind, Option.elim_some,
        truth]
      cases ((scope.evalNode condition).runAt depth).1 <;> rfl

/-- The first alternative that applies, where all are looked at from the same depth. -/
theorem runAt_firstChosen (group : List Translation) (depth : Nat) :
    ((firstChosen evaluators scope group).runAt depth).1 =
      firstResult (group.map fun m => ((scope.choose m).runAt depth).1) := by
  induction group with
  | nil => rfl
  | cons m group ih =>
      rw [firstChosen, evaluators_choose, (scope.steady_choose m).outcome_bind, List.map_cons]
      rcases ((scope.choose m).runAt depth).1 with e | _ | template
      · rfl
      · exact ih
      · rfl

/-- What choosing comes to at one level, where all conditions and alternatives are looked at from
the same depth. -/
theorem runAt_choice (t : Translation) (depth : Nat) :
    ((choice evaluators scope t).runAt depth).1 =
      t.outcome (scope.truth depth) fun m => ((scope.choose m).runAt depth).1 := by
  have hsteady : (holds evaluators scope t.condition).Steady := by
    cases t.condition with
    | none => exact fun _ => rfl
    | some condition => exact (scope.steady_evalNode condition).bind fun _ _ => rfl
  rw [choice, hsteady.outcome_bind, runAt_holds, Translation.outcome, gated]
  congr 1
  funext b
  cases b with
  | false => rfl
  | true =>
      cases t.value with
      | none => exact scope.runAt_firstChosen t.group depth
      | some template => rfl

/-- A choice is what the translation means, unless it fails for its depth. -/
theorem approximates_meaning (t : Translation) {depth reference : Nat} (hle : reference ≤ depth) :
    Eval.Approximates scope.limit ((scope.choose t).runAt depth).1
      (t.meaning (scope.truth reference)) := by
  induction t generalizing depth with
  | mk condition value group ih =>
      rw [choose_eq, Eval.runAt_deeper, Translation.meaning_eq]
      split
      · exact .tooDeep
      · rw [runAt_choice]
        apply Translation.approximates_outcome
        · intro c
          exact scope.approximates_truth c (by omega)
        · intro m hm
          exact ih m hm (by omega)

/-- Where there is room for all levels of a translation, and for its conditions below them, a choice
does not fail for its depth. -/
theorem meaning_approximates (t : Translation) {depth reference : Nat}
    (hroom : depth + t.levels ≤ reference) (hlimit : reference ≤ scope.limit) :
    Eval.Approximates scope.limit (t.meaning (scope.truth reference))
      ((scope.choose t).runAt depth).1 := by
  induction t generalizing depth with
  | mk condition value group ih =>
      have hlevels := Translation.levels_pos ⟨condition, value, group⟩
      rw [choose_eq, Eval.runAt_deeper, if_neg (by omega), runAt_choice, Translation.meaning_eq]
      apply Translation.approximates_outcome
      · intro c
        exact scope.approximates_truth c (by omega)
      · intro m hm
        have hlt := Translation.levels_lt_of_mem (t := ⟨condition, value, group⟩) hm
        exact ih m hm (by omega)

end Scope

end Phrasebook
