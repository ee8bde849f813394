import Mathlib
import Phrasebook.Proofs.Evaluation.Levels

/-!
# Evaluation in terms of its parts

Each step of evaluation is put together from the evaluation of parts, by sequencing and by errors of
its own. So a relation between computations that respects sequencing holds between two evaluators as
soon as it holds between the evaluators of the parts. The rules below are stated once for all such
relations (`Eval.Congruence`), one for each kind of step.

The two evaluators may be in different scopes. The step of an expression depends on its scope in two
places only: where it is a name, and where a function is applied to the values of its arguments
(`Evaluation.apply`).

A translation that is asked for is evaluated on a copy of the current depth. Not every relation
respects that, so it is a condition of its own.
-/

namespace Phrasebook

/-- A relation between computations that respects the ways in which they are put together. An error
for the depth is not a step of its own. -/
structure Eval.Congruence (R : ∀ α : Type, Eval α → Eval α → Prop) : Prop where
  pure : ∀ {α : Type} (a : α), R α (pure a) (pure a)
  throw : ∀ {α : Type} {e : EvalError}, (∀ n, e ≠ .tooDeep n) → R α (throw e) (throw e)
  bind : ∀ {α β : Type} {x y : Eval α} {f g : α → Eval β}, R α x y → (∀ a, R β (f a) (g a)) →
    R β (x >>= f) (y >>= g)

variable {R : ∀ α : Type, Eval α → Eval α → Prop}

theorem Eval.Congruence.mapM (h : Eval.Congruence R) {α β : Type} {f g : β → Eval α}
    {xs : List β} (hfg : ∀ x ∈ xs, R α (f x) (g x)) : R (List α) (xs.mapM f) (xs.mapM g) := by
  induction xs with
  | nil => exact h.pure _
  | cons x xs ih =>
      rw [List.mapM_cons, List.mapM_cons]
      apply h.bind (hfg x (by simp))
      intro a
      apply h.bind (ih fun y hy => hfg y (by simp [hy]))
      intro as
      exact h.pure _

/-- The functions that evaluation of an expression may apply to arguments. A callee that is not a
function itself may come to the name of any of them. -/
def Expr.MayCall : Expr → Builtin → Prop
  | .call (.func f) _, function => f = function
  | .call _ _, _ => True
  | _, _ => False

theorem Expr.ne_translate_of_mayCall {e : Expr} (h : e.callsDirectly) {function : Builtin}
    (hmay : e.MayCall function) : function ≠ .translate := by
  cases e with
  | call callee args =>
      cases callee with
      | func f =>
          obtain rfl : f = function := hmay
          simpa [callsDirectly] using h
      | _ => cases h
  | _ => cases hmay

namespace Evaluation

/-- The value of a builtin function for the values of its arguments. -/
def apply (parts : Parts) (scope : Scope) (function : Builtin) (values : List Value) : Eval Value :=
  let arg (i : Nat) : Value := values.getD i .empty
  match function with
  | .plural => pure (.text (PluralCategory.ofInt scope.locale (arg 0).toInt).name)
  | .translate => translation parts scope (arg 0) (arg 1) (arg 2)
  | function => pure ((scope.format.call? function values).getD .empty)

theorem call_eq (parts : Parts) (scope : Scope) (function : Builtin) (args : List Expr) :
    call parts scope function args =
      args.mapM (parts.expr scope) >>= apply parts scope function := rfl

variable {parts parts' : Parts} {scope scope' : Scope}

/-- Evaluators of parts are related in all scopes with a limit, where the second ones may have
another limit instead. -/
structure Parts.Related (R : ∀ α : Type, Eval α → Eval α → Prop) (limit limit' : Nat)
    (parts parts' : Parts) : Prop where
  node : ∀ scope n, scope.limit = limit →
    R Value (parts.node scope n) (parts'.node { scope with limit := limit' } n)
  choose : ∀ scope t, scope.limit = limit →
    R (Option Template) (parts.choose scope t) (parts'.choose { scope with limit := limit' } t)

section

variable (h : Eval.Congruence R)

include h

theorem related_bound (which : SliceBound) (v : Value) : R Int (bound which v) (bound which v) := by
  cases v with
  | int n => exact h.pure _
  | _ => exact h.throw (by simp)

theorem related_slice {base start : Expr} {stop : Option Expr}
    (hparts : ∀ p ∈ (Expr.slice base start stop).parts,
      R Value (parts.expr scope p) (parts'.expr scope' p)) :
    R Value (slice parts scope base start stop) (slice parts' scope' base start stop) := by
  apply h.bind (hparts base (by simp [Expr.parts]))
  intro v
  split
  · apply h.bind (hparts start (by simp [Expr.parts]))
    intro first
    apply h.bind (related_bound h .start first)
    intro first
    cases stop with
    | none => exact h.pure _
    | some stop =>
        apply h.bind (hparts stop (by simp [Expr.parts]))
        intro last
        apply h.bind (related_bound h .stop last)
        intro last
        exact h.pure _
  · exact h.throw (by simp)

theorem related_firstOption (v : Value) {options : List (Expr × Expr)}
    (hparts : ∀ o ∈ options, R Value (parts.expr scope o.1) (parts'.expr scope' o.1) ∧
      R Value (parts.expr scope o.2) (parts'.expr scope' o.2)) :
    R Value (firstOption parts scope v options) (firstOption parts' scope' v options) := by
  induction options with
  | nil => exact h.pure _
  | cons option options ih =>
      obtain ⟨⟨hpattern, hresult⟩, hothers⟩ := List.forall_mem_cons.mp hparts
      rw [firstOption, firstOption]
      split
      · exact hresult
      · apply h.bind hpattern
        intro w
        split
        · exact hresult
        · exact ih hothers

/-- A call of a function by its arguments. -/
theorem related_call {function : Builtin} {args : List Expr}
    (happly : ∀ values,
      R Value (apply parts scope function values) (apply parts' scope' function values))
    (hparts : ∀ a ∈ args, R Value (parts.expr scope a) (parts'.expr scope' a)) :
    R Value (call parts scope function args) (call parts' scope' function args) := by
  rw [call_eq, call_eq]
  exact h.bind (h.mapM hparts) happly

theorem related_expr {e : Expr}
    (hname : ∀ name, e = .ident name → scope.vars.find? name = scope'.vars.find? name)
    (happly : ∀ function, e.MayCall function → ∀ values,
      R Value (apply parts scope function values) (apply parts' scope' function values))
    (hparts : ∀ p ∈ e.parts, R Value (parts.expr scope p) (parts'.expr scope' p)) :
    R Value (expr parts scope e) (expr parts' scope' e) := by
  cases e with
  | ident name =>
      rw [expr, expr, hname name rfl]
      exact h.pure _
  | func | literal => exact h.pure _
  | unary op operand =>
      apply h.bind (hparts operand (by simp [Expr.parts]))
      intro v
      exact h.pure _
  | binary op lhs rhs =>
      apply h.bind (hparts lhs (by simp [Expr.parts]))
      intro a
      split
      · exact h.pure _
      · apply h.bind (hparts rhs (by simp [Expr.parts]))
        intro b
        exact h.pure _
  | range => exact h.throw (by simp)
  | index base position =>
      apply h.bind (hparts base (by simp [Expr.parts]))
      intro v
      apply h.bind (hparts position (by simp [Expr.parts]))
      intro i
      exact h.pure _
  | slice => exact related_slice h hparts
  | select value options =>
      apply h.bind (hparts value (by simp [Expr.parts]))
      intro v
      apply related_firstOption h v
      intro o ho
      have hmem : ∀ p ∈ [o.1, o.2], p ∈ options.flatMap fun o => [o.1, o.2] := by
        intro p hp
        exact List.mem_flatMap.mpr ⟨o, ho, hp⟩
      constructor
      · exact hparts o.1 (List.mem_cons_of_mem _ (hmem o.1 (by simp)))
      · exact hparts o.2 (List.mem_cons_of_mem _ (hmem o.2 (by simp)))
  | call callee args =>
      cases callee with
      | func function => exact related_call h (happly function rfl) hparts
      | _ =>
          obtain ⟨hcallee, hargs⟩ := List.forall_mem_cons.mp hparts
          apply h.bind hcallee
          intro name
          split
          · next function _ => exact related_call h (happly function trivial) hargs
          · exact h.pure _
  | invalid => exact h.throw (by simp)

/-- A function that is applied in scopes of the same format and locale. If it asks for another
translation, that has to be related. -/
theorem related_apply {function : Builtin} (hformat : scope.format = scope'.format)
    (hlocale : scope.locale = scope'.locale)
    (hasks : function = .translate → ∀ key value option,
      R Value (translation parts scope key value option)
        (translation parts' scope' key value option)) (values : List Value) :
    R Value (apply parts scope function values) (apply parts' scope' function values) := by
  cases function with
  | translate => exact hasks rfl _ _ _
  | plural =>
      simp only [apply, hlocale]
      exact h.pure _
  | _ =>
      simp only [apply, hformat]
      exact h.pure _

theorem related_firstChosen {group : List Translation}
    (hchoose : ∀ t ∈ group, R (Option Template) (parts.choose scope t) (parts'.choose scope' t)) :
    R (Option Template) (firstChosen parts scope group) (firstChosen parts' scope' group) := by
  induction group with
  | nil => exact h.pure _
  | cons t group ih =>
      obtain ⟨hfirst, hothers⟩ := List.forall_mem_cons.mp hchoose
      rw [firstChosen, firstChosen]
      apply h.bind hfirst
      intro chosen
      cases chosen with
      | none => exact ih hothers
      | some template => exact h.pure _

theorem related_template {t : Template}
    (hparts : ∀ f ∈ t,
      R Value (parts.node scope (.fragment f)) (parts'.node scope' (.fragment f))) :
    R Value (node parts scope (.template t)) (node parts' scope' (.template t)) := by
  apply h.bind (h.mapM _)
  · intro values
    exact h.pure _
  · intro f hf
    unfold fragment
    split
    · exact h.pure _
    · exact hparts f hf

variable {limit' : Nat}
  (hisolated : ∀ x y : Eval Value, R Value x y → R Value x.isolated y.isolated)
  (hparts : parts.Related R scope.limit limit' parts')

include hparts

theorem related_choice (t : Translation) :
    R (Option Template) (choice parts scope t)
      (choice parts' { scope with limit := limit' } t) := by
  have hholds : R Bool (holds parts scope t.condition)
      (holds parts' { scope with limit := limit' } t.condition) := by
    cases t.condition with
    | none => exact h.pure _
    | some condition =>
        apply h.bind (hparts.node scope condition rfl)
        intro v
        exact h.pure _
  apply h.bind hholds
  intro b
  split
  · cases t.value with
    | none => exact related_firstChosen h fun t _ => hparts.choose scope t rfl
    | some template => exact h.pure _
  · exact h.pure _

include hisolated

theorem related_translation (key value option : Value) :
    R Value (translation parts scope key value option)
      (translation parts' { scope with limit := limit' } key value option) := by
  -- The scope of the message differs in its variables only, so it has the same limit.
  let inner := { scope with vars := (Message.nested key value option).vars }
  unfold translation
  simp only
  split
  · exact h.pure _
  · next t _ =>
      apply hisolated
      apply h.bind (hparts.choose inner t rfl)
      intro chosen
      cases chosen with
      | none => exact h.pure _
      | some template =>
          apply h.bind (hparts.node inner (.template template) rfl)
          intro v
          exact h.pure _

theorem related_node (n : Node) :
    R Value (node parts scope n) (node parts' { scope with limit := limit' } n) := by
  cases n with
  | template t => exact related_template h fun f _ => hparts.node scope _ rfl
  | fragment f =>
      cases f with
      | text content => exact h.pure _
      | expr e =>
          apply related_expr h
          · rintro name -
            rfl
          · rintro function -
            exact related_apply h rfl rfl fun _ => related_translation h hisolated hparts
          · intro p hp
            exact hparts.node scope _ rfl

end

end Evaluation

end Phrasebook
