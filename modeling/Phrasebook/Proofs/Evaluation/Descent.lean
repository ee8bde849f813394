import Mathlib
import Phrasebook.Proofs.Evaluation.Congruence

/-!
# Depth and limit

All of evaluation is steady: it ends at the depth at which it starts, whatever comes of it. So the
depth matters by the limit only. With fewer levels left between its depth and the limit, evaluation
has the outcome that it has with more of them, unless it fails for its depth (`Eval.Approximates`).

The evaluators are defined by the number of levels that are left. They satisfy the equations for one
level, in which that number does not occur (`Scope.evalNode_eq`, `Scope.choose_eq`).
-/

namespace Phrasebook

namespace Eval

variable {α β : Type} {limit limit' deep shallow : Nat}

/-- A computation ends at the depth at which it starts, with a result or with an error. -/
def Steady (act : Eval α) : Prop := ∀ depth, (act.runAt depth).2 = depth

namespace Steady

variable {act : Eval α}

theorem runAt_eq (h : act.Steady) (depth : Nat) :
    act.runAt depth = ((act.runAt depth).1, depth) := by
  rw [Prod.ext_iff]
  exact ⟨rfl, h depth⟩

/-- What follows a steady computation starts at the same depth. -/
theorem runAt_bind (h : act.Steady) (f : α → Eval β) (depth : Nat) :
    (act >>= f).runAt depth =
      match (act.runAt depth).1 with
      | .ok a => (f a).runAt depth
      | .error e => (.error e, depth) := by
  rw [Eval.runAt_bind, h.runAt_eq]
  cases (act.runAt depth).1 <;> rfl

/-- The outcome of a sequence is that of its parts, all from the same depth. -/
theorem outcome_bind (h : act.Steady) (f : α → Eval β) (depth : Nat) :
    ((act >>= f).runAt depth).1 = (act.runAt depth).1 >>= fun a => ((f a).runAt depth).1 := by
  rw [h.runAt_bind]
  cases (act.runAt depth).1 <;> rfl

theorem bind (h : act.Steady) {f : α → Eval β} (hf : ∀ a, (f a).Steady) :
    (act >>= f).Steady := by
  intro depth
  rw [h.runAt_bind]
  cases (act.runAt depth).1 with
  | ok a => exact hf a depth
  | error e => rfl

theorem deeper (h : act.Steady) (limit : Nat) : (deeper limit act).Steady := by
  intro depth
  rw [runAt_deeper]
  split
  · rfl
  · rw [h, Nat.add_sub_cancel]

theorem isolated (act : Eval α) : act.isolated.Steady := fun _ => rfl

end Steady

theorem congruence_steady : Congruence fun _ x _ => x.Steady where
  pure _ _ := rfl
  throw _ _ := rfl
  bind hx hf := hx.bind hf

/-- Two computations take the same course from a depth. -/
theorem congruence_runAt (depth : Nat) :
    Congruence fun _ x y => x.Steady ∧ x.runAt depth = y.runAt depth where
  pure _ := ⟨fun _ => rfl, rfl⟩
  throw _ := ⟨fun _ => rfl, rfl⟩
  bind := by
    rintro α β x y f g ⟨hsteady, hxy⟩ hfg
    refine ⟨hsteady.bind fun a => (hfg a).1, ?_⟩
    rw [hsteady.runAt_bind, Eval.runAt_bind, ← hxy, hsteady.runAt_eq]
    cases (x.runAt depth).1 with
    | ok a => exact (hfg a).2
    | error e => rfl

/-- A copy of the depth is the depth itself. -/
theorem isolated_runAt {depth : Nat} {x y : Eval α}
    (h : x.Steady ∧ x.runAt depth = y.runAt depth) :
    x.isolated.Steady ∧ x.isolated.runAt depth = y.isolated.runAt depth := by
  constructor
  · exact .isolated x
  · show ((x.runAt depth).1, depth) = ((y.runAt depth).1, depth)
    rw [h.2]

/-- What two computations do one level deeper decides what they do. -/
theorem runAt_deeper_congr {depth : Nat} {x y : Eval α}
    (h : depth < limit → x.runAt (depth + 1) = y.runAt (depth + 1)) :
    (deeper limit x).runAt depth = (deeper limit y).runAt depth := by
  rw [runAt_deeper, runAt_deeper]
  by_cases hdeep : limit ≤ depth
  · rw [if_pos hdeep, if_pos hdeep]
  · rw [h (by omega)]

/-- An outcome is the same as another one, unless it is an error for the depth. -/
def Approximates (limit : Nat) (a b : Except EvalError α) : Prop :=
  a = .error (.tooDeep limit) ∨ a = b

namespace Approximates

variable {a b c : Except EvalError α} {f g : α → Except EvalError β}

theorem refl (a : Except EvalError α) : Approximates limit a a := .inr rfl

theorem tooDeep : Approximates limit (.error (.tooDeep limit)) a := .inl rfl

theorem eq_of_ne (h : Approximates limit a b) (hne : a ≠ .error (.tooDeep limit)) : a = b :=
  h.resolve_left hne

theorem bind (h : Approximates limit a b) (hfg : ∀ x, Approximates limit (f x) (g x)) :
    Approximates limit (a >>= f) (b >>= g) := by
  obtain rfl | rfl := h
  · exact tooDeep
  · cases a with
    | ok x => exact hfg x
    | error e => exact refl _

theorem map (h : Approximates limit a b) (f : α → β) :
    Approximates limit (a.map f) (b.map f) := by
  obtain rfl | rfl := h
  · exact tooDeep
  · exact refl _

end Approximates

/-- Steady computations of which one, from a depth of its own, approximates the other one. -/
structure Agrees (limit deep shallow : Nat) (x y : Eval α) : Prop where
  steady : x.Steady
  steady' : y.Steady
  outcome : Approximates limit (x.runAt deep).1 (y.runAt shallow).1

theorem congruence_agrees (limit deep shallow : Nat) :
    Congruence fun _ x y => Agrees limit deep shallow x y where
  pure a := ⟨fun _ => rfl, fun _ => rfl, .refl (.ok a)⟩
  throw {_ e} _ := ⟨fun _ => rfl, fun _ => rfl, .refl (.error e)⟩
  bind := by
    intro α β x y f g hxy hfg
    refine ⟨hxy.steady.bind fun a => (hfg a).steady, hxy.steady'.bind fun a => (hfg a).steady', ?_⟩
    rw [hxy.steady.runAt_bind, hxy.steady'.runAt_bind]
    obtain h | h := hxy.outcome
    · rw [h]
      exact .tooDeep
    · rw [← h]
      cases (x.runAt deep).1 with
      | ok a => exact (hfg a).outcome
      | error e => exact .refl _

theorem approximates_deeper {x y : Eval α} (hle : limit - deep ≤ limit' - shallow)
    (h : deep < limit → Approximates limit (x.runAt (deep + 1)).1 (y.runAt (shallow + 1)).1) :
    Approximates limit ((deeper limit x).runAt deep).1 ((deeper limit' y).runAt shallow).1 := by
  rw [runAt_deeper, runAt_deeper]
  by_cases hdeep : limit ≤ deep
  · rw [if_pos hdeep]
    exact .tooDeep
  · rw [if_neg hdeep, if_neg (by omega)]
    exact h (by omega)

end Eval

namespace Evaluation

/-- The evaluators, which go by the depth they are at. -/
def evaluators : Parts := ⟨Scope.evalNode, Scope.choose⟩

@[simp] theorem evaluators_node : evaluators.node = Scope.evalNode := rfl

@[simp] theorem evaluators_choose : evaluators.choose = Scope.choose := rfl

theorem steady_within (limit levels : Nat) :
    Parts.Related (fun _ x _ => x.Steady) limit limit ⟨nodeWithin levels, chooseWithin levels⟩
      ⟨nodeWithin levels, chooseWithin levels⟩ := by
  have isolated : ∀ x _ : Eval Value, x.Steady → x.isolated.Steady := fun x _ _ => .isolated x
  induction levels generalizing limit with
  | zero =>
      constructor
      · intro scope n _ depth
        rfl
      · intro scope t _ depth
        rfl
  | succ levels ih =>
      constructor
      · intro scope n _
        exact (related_node Eval.congruence_steady isolated (ih scope.limit) n).deeper _
      · intro scope t _
        exact (related_choice Eval.congruence_steady (ih scope.limit) t).deeper _

end Evaluation

namespace Scope

open Evaluation

theorem steady_evalNode (scope : Scope) (n : Node) : (scope.evalNode n).Steady := by
  intro depth
  exact (steady_within scope.limit _).node scope n rfl depth

theorem steady_choose (scope : Scope) (t : Translation) : (scope.choose t).Steady := by
  intro depth
  exact (steady_within scope.limit _).choose scope t rfl depth

/-- With the levels that are left at a depth, parts take the course of the evaluators. -/
theorem related_evaluators (limit depth : Nat) :
    Parts.Related (fun _ x y => x.Steady ∧ x.runAt depth = y.runAt depth) limit limit
      ⟨nodeWithin (limit - depth), chooseWithin (limit - depth)⟩ evaluators where
  node scope n h := ⟨(steady_within limit _).node scope n h, by rw [← h]; rfl⟩
  choose scope t h := ⟨(steady_within limit _).choose scope t h, by rw [← h]; rfl⟩

/-- Evaluation is one level of evaluation, with evaluation for the parts. -/
theorem evalNode_eq (scope : Scope) (n : Node) :
    scope.evalNode n = Eval.deeper scope.limit (node evaluators scope n) := by
  funext depth
  change (nodeWithin (scope.limit - depth) scope n).runAt depth =
    (Eval.deeper scope.limit (node evaluators scope n)).runAt depth
  by_cases h : scope.limit ≤ depth
  · rw [Nat.sub_eq_zero_of_le h, Eval.runAt_deeper, if_pos h]
    rfl
  · have hlevels : scope.limit - depth = scope.limit - (depth + 1) + 1 := by omega
    rw [hlevels, nodeWithin]
    apply Eval.runAt_deeper_congr
    rintro -
    exact (related_node (Eval.congruence_runAt (depth + 1)) (fun _ _ => Eval.isolated_runAt)
      (related_evaluators scope.limit (depth + 1)) n).2

/-- Choosing is one level of choosing, with evaluation for the conditions. -/
theorem choose_eq (scope : Scope) (t : Translation) :
    scope.choose t = Eval.deeper scope.limit (choice evaluators scope t) := by
  funext depth
  change (chooseWithin (scope.limit - depth) scope t).runAt depth =
    (Eval.deeper scope.limit (choice evaluators scope t)).runAt depth
  by_cases h : scope.limit ≤ depth
  · rw [Nat.sub_eq_zero_of_le h, Eval.runAt_deeper, if_pos h]
    rfl
  · have hlevels : scope.limit - depth = scope.limit - (depth + 1) + 1 := by omega
    rw [hlevels, chooseWithin]
    apply Eval.runAt_deeper_congr
    rintro -
    exact (related_choice (Eval.congruence_runAt (depth + 1))
      (related_evaluators scope.limit (depth + 1)) t).2

/-- What the evaluators do one level deeper carries over to the levels above. -/
theorem agrees_step {limit limit' deep shallow : Nat} (hle : limit - deep ≤ limit' - shallow)
    (h : deep < limit → Parts.Related (fun _ x y => Eval.Agrees limit (deep + 1) (shallow + 1) x y)
      limit limit' evaluators evaluators) :
    Parts.Related (fun _ x y => Eval.Agrees limit deep shallow x y) limit limit' evaluators
      evaluators := by
  have congruence := Eval.congruence_agrees limit (deep + 1) (shallow + 1)
  have isolated : ∀ x y : Eval Value, Eval.Agrees limit (deep + 1) (shallow + 1) x y →
      Eval.Agrees limit (deep + 1) (shallow + 1) x.isolated y.isolated :=
    fun x y hxy => ⟨.isolated x, .isolated y, hxy.outcome⟩
  constructor
  · rintro scope n rfl
    refine ⟨scope.steady_evalNode n, steady_evalNode _ n, ?_⟩
    rw [evaluators_node, evalNode_eq, evalNode_eq]
    apply Eval.approximates_deeper hle
    intro hdeep
    exact (related_node congruence isolated (h hdeep) n).outcome
  · rintro scope t rfl
    refine ⟨scope.steady_choose t, steady_choose _ t, ?_⟩
    rw [evaluators_choose, choose_eq, choose_eq]
    apply Eval.approximates_deeper hle
    intro hdeep
    exact (related_choice congruence (h hdeep) t).outcome

/-- With fewer levels left the evaluators approximate themselves with more of them. -/
theorem agrees_evaluators {limit limit' deep shallow : Nat}
    (hle : limit - deep ≤ limit' - shallow) :
    Parts.Related (fun _ x y => Eval.Agrees limit deep shallow x y) limit limit' evaluators
      evaluators := by
  -- The induction is on the fewer levels, which run out first.
  induction hlevels : limit - deep generalizing deep shallow with
  | zero =>
      apply agrees_step hle
      intro hdeep
      omega
  | succ levels ih =>
      apply agrees_step hle
      intro hdeep
      exact ih (by omega) (by omega)

/-- Evaluation with fewer levels left, by its depth or by its limit, has the outcome that it has
with more of them, unless it fails for its depth. -/
theorem approximates_evalNode_limit (scope : Scope) (n : Node) {limit' deep shallow : Nat}
    (hle : scope.limit - deep ≤ limit' - shallow) :
    Eval.Approximates scope.limit ((scope.evalNode n).runAt deep).1
      ((evalNode { scope with limit := limit' } n).runAt shallow).1 :=
  ((agrees_evaluators hle).node scope n rfl).outcome

/-- The choice with fewer levels left is that with more of them, unless it fails for its depth. -/
theorem approximates_choose_limit (scope : Scope) (t : Translation) {limit' deep shallow : Nat}
    (hle : scope.limit - deep ≤ limit' - shallow) :
    Eval.Approximates scope.limit ((scope.choose t).runAt deep).1
      ((choose { scope with limit := limit' } t).runAt shallow).1 :=
  ((agrees_evaluators hle).choose scope t rfl).outcome

/-- Evaluation from a greater depth has the outcome that it has from a smaller one, unless it fails
for its depth. -/
theorem approximates_evalNode (scope : Scope) (n : Node) {deep shallow : Nat}
    (hle : shallow ≤ deep) :
    Eval.Approximates scope.limit ((scope.evalNode n).runAt deep).1
      ((scope.evalNode n).runAt shallow).1 :=
  scope.approximates_evalNode_limit n (Nat.sub_le_sub_left hle _)

/-- The choice from a greater depth is that from a smaller one, unless it fails for its depth. -/
theorem approximates_choose (scope : Scope) (t : Translation) {deep shallow : Nat}
    (hle : shallow ≤ deep) :
    Eval.Approximates scope.limit ((scope.choose t).runAt deep).1
      ((scope.choose t).runAt shallow).1 :=
  scope.approximates_choose_limit t (Nat.sub_le_sub_left hle _)

end Scope

end Phrasebook
