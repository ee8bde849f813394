import Mathlib
import Phrasebook.Evaluation.Basic
import Phrasebook.Proofs.Evaluation.Yields

/-!
# The levels of a tree, and those that evaluation visits

Evaluation goes one level deeper for the template, for each of its fragments, and for each part of
an expression that it looks at. Not every part is looked at: a selection stops at the first option
that matches, and the left operand of a logical operator may decide it alone.

The levels that are visited are counted by a survey (`Evaluation.surveyWithin`). It takes the same
steps as evaluation, but has no limit, and its state is the number of levels below the current one
instead of the current depth.
-/

namespace Phrasebook

/-- The greatest of several numbers, or zero if there are none. -/
def greatest (ns : List Nat) : Nat := ns.foldr max 0

@[simp] theorem greatest_nil : greatest [] = 0 := rfl

@[simp] theorem greatest_cons (n : Nat) (ns : List Nat) :
    greatest (n :: ns) = max n (greatest ns) := rfl

theorem le_greatest {n : Nat} {ns : List Nat} (h : n ∈ ns) : n ≤ greatest ns := by
  induction ns with
  | nil => cases h
  | cons m ns ih =>
      rcases List.mem_cons.mp h with rfl | h
      · exact Nat.le_max_left _ _
      · exact Nat.le_trans (ih h) (Nat.le_max_right _ _)

namespace Expr

/-- The parts of an expression that evaluation may look at. A function that is called by its name
is none. -/
def parts : Expr → List Expr
  | .unary _ operand => [operand]
  | .binary _ lhs rhs => [lhs, rhs]
  | .range start stop => start :: stop.toList
  | .index base position => [base, position]
  | .slice base start stop => base :: start :: stop.toList
  | .select value options => value :: options.flatMap fun o => [o.1, o.2]
  | .call (.func _) args => args
  | .call callee args => callee :: args
  | _ => []

theorem mem_parts_option {value : Expr} {options : List (Expr × Expr)} {o : Expr × Expr}
    (ho : o ∈ options) :
    o.1 ∈ (select value options).parts ∧ o.2 ∈ (select value options).parts := by
  constructor <;> exact List.mem_cons_of_mem _ (List.mem_flatMap_of_mem ho (by simp))

theorem mem_parts_arg {callee a : Expr} {args : List Expr} (ha : a ∈ args) :
    a ∈ (call callee args).parts := by
  cases callee with
  | func => exact ha
  | _ => exact List.mem_cons_of_mem _ ha

/-- The number of levels of an expression: its own one, and those of its deepest part. -/
def levels : Expr → Nat
  | .unary _ operand => operand.levels + 1
  | .binary _ lhs rhs => max lhs.levels rhs.levels + 1
  | .range start stop => max start.levels (ofStop stop) + 1
  | .index base position => max base.levels position.levels + 1
  | .slice base start stop => max base.levels (max start.levels (ofStop stop)) + 1
  | .select value options => max value.levels (ofOptions options) + 1
  | .call (.func _) args => ofArgs args + 1
  | .call callee args => max callee.levels (ofArgs args) + 1
  | _ => 1
where
  /-- The levels of the end of a range, if it has one. -/
  ofStop : Option Expr → Nat
    | none => 0
    | some stop => stop.levels
  /-- The levels of the deepest argument of a call. -/
  ofArgs : List Expr → Nat
    | [] => 0
    | arg :: args => max arg.levels (ofArgs args)
  /-- The levels of the deepest pattern or result of a selection. -/
  ofOptions : List (Expr × Expr) → Nat
    | [] => 0
    | (pattern, result) :: options =>
      max pattern.levels (max result.levels (ofOptions options))

theorem levels_eq (e : Expr) : e.levels = greatest (e.parts.map levels) + 1 := by
  have stop : ∀ stop : Option Expr, levels.ofStop stop = greatest (stop.toList.map levels) := by
    intro stop
    cases stop <;> simp [levels.ofStop]
  have args : ∀ args : List Expr, levels.ofArgs args = greatest (args.map levels) := by
    intro args
    induction args with
    | nil => rfl
    | cons arg args ih => rw [levels.ofArgs, ih, List.map_cons, greatest_cons]
  have options : ∀ options : List (Expr × Expr), levels.ofOptions options =
      greatest ((options.flatMap fun o => [o.1, o.2]).map levels) := by
    intro options
    induction options with
    | nil => rfl
    | cons option options ih =>
        rw [levels.ofOptions, ih]
        simp
  cases e with
  | call callee => cases callee <;> simp [levels, parts, args]
  | _ => simp [levels, parts, stop, options]

theorem levels_le_of_mem_parts {e p : Expr} (h : p ∈ e.parts) : p.levels + 1 ≤ e.levels := by
  rw [levels_eq e]
  exact Nat.succ_le_succ (le_greatest (List.mem_map_of_mem h))

/-- What holds of an expression if it holds of its parts holds of all expressions. -/
theorem induct_parts {P : Expr → Prop} (step : ∀ e : Expr, (∀ p ∈ e.parts, P p) → P e) (e : Expr) :
    P e := by
  induction h : e.levels using Nat.strongRecOn generalizing e with
  | ind levels ih =>
      apply step
      intro p hp
      have hp' := levels_le_of_mem_parts hp
      exact ih p.levels (by omega) p rfl

/-- A property of an expression and of all parts below it that evaluation may look at. -/
inductive Everywhere (P : Expr → Prop) : Expr → Prop where
  | intro {e : Expr} : P e → (∀ p ∈ e.parts, Everywhere P p) → Everywhere P e

theorem Everywhere.leaf {P : Expr → Prop} {e : Expr} (hown : P e) (hparts : e.parts = []) :
    e.Everywhere P := .intro hown (by simp [hparts])

theorem Everywhere.mono {P Q : Expr → Prop} (hPQ : ∀ e, P e → Q e) {e : Expr}
    (h : e.Everywhere P) : e.Everywhere Q := by
  induction h with
  | intro hown _ ih => exact .intro (hPQ _ hown) ih

theorem Everywhere.unary {P : Expr → Prop} {op : UnaryOp} {operand : Expr}
    (hown : P (.unary op operand)) (h : operand.Everywhere P) :
    (Expr.unary op operand).Everywhere P := .intro hown (List.forall_mem_singleton.mpr h)

theorem Everywhere.binary {P : Expr → Prop} {op : BinaryOp} {lhs rhs : Expr}
    (hown : P (.binary op lhs rhs)) (hlhs : lhs.Everywhere P) (hrhs : rhs.Everywhere P) :
    (Expr.binary op lhs rhs).Everywhere P :=
  .intro hown (List.forall_mem_cons.mpr ⟨hlhs, List.forall_mem_singleton.mpr hrhs⟩)

theorem Everywhere.range {P : Expr → Prop} {start : Expr} {stop : Option Expr}
    (hown : P (.range start stop)) (hstart : start.Everywhere P)
    (hstop : ∀ e ∈ stop, e.Everywhere P) : (Expr.range start stop).Everywhere P := by
  refine .intro hown (List.forall_mem_cons.mpr ⟨hstart, fun p hp => ?_⟩)
  exact hstop p (Option.mem_toList.mp hp)

theorem Everywhere.select {P : Expr → Prop} {value : Expr} {options : List (Expr × Expr)}
    (hown : P (.select value options)) (hvalue : value.Everywhere P)
    (hoptions : ∀ o ∈ options, o.1.Everywhere P ∧ o.2.Everywhere P) :
    (Expr.select value options).Everywhere P := by
  refine .intro hown (List.forall_mem_cons.mpr ⟨hvalue, fun p hp => ?_⟩)
  obtain ⟨o, ho, hp⟩ := List.mem_flatMap.mp hp
  obtain ⟨hpattern, hresult⟩ := hoptions o ho
  have hcases : p = o.1 ∨ p = o.2 := by simpa using hp
  obtain rfl | rfl := hcases
  · exact hpattern
  · exact hresult

theorem Everywhere.call {P : Expr → Prop} {callee : Expr} {args : List Expr}
    (hown : P (.call callee args)) (hcallee : callee.Everywhere P)
    (hargs : ∀ a ∈ args, a.Everywhere P) : (Expr.call callee args).Everywhere P := by
  cases callee with
  | func => exact .intro hown hargs
  | _ => exact .intro hown (List.forall_mem_cons.mpr ⟨hcallee, hargs⟩)

/-- Whether an expression, if it is a call, calls a builtin function by its name, and not the one
that asks for another translation. -/
def callsDirectly : Expr → Bool
  | .call (.func function) _ => function != .translate
  | .call _ _ => false
  | _ => true

/-- Whether evaluation always looks at all parts of an expression. -/
def usesAllParts : Expr → Bool
  | .binary .or _ _ | .binary .and _ _ => false
  | .range _ _ | .slice _ _ _ | .select _ _ => false
  | _ => true

/-- Whether an expression stands for a span that could not be read. -/
def isInvalid : Expr → Bool
  | .invalid _ _ => true
  | _ => false

end Expr

/-- The number of levels of a fragment. -/
def Fragment.levels : Fragment → Nat
  | .text _ => 1
  | .expr e => e.levels

namespace Template

/-- The number of levels of a template: its own one, and those of its deepest fragment. -/
def levels (t : Template) : Nat := greatest (t.map Fragment.levels) + 1

/-- A property of all expressions in a template. -/
def Everywhere (P : Expr → Prop) (t : Template) : Prop :=
  ∀ e, .expr e ∈ t → e.Everywhere P

end Template

/-- A property of the expression of a fragment, if it is one, and of all parts below it. -/
def Fragment.Everywhere (P : Expr → Prop) : Fragment → Prop
  | .text _ => True
  | .expr e => e.Everywhere P

theorem Template.Everywhere.fragment {P : Expr → Prop} {t : Template} (h : t.Everywhere P)
    {f : Fragment} (hf : f ∈ t) : f.Everywhere P := by
  cases f with
  | text content => trivial
  | expr e => exact h e hf

namespace Node

/-- The number of levels of a template or fragment. -/
def levels : Node → Nat
  | .template t => t.levels
  | .fragment f => f.levels

/-- A property of all expressions in a template or fragment. -/
def Everywhere (P : Expr → Prop) : Node → Prop
  | .template t => t.Everywhere P
  | .fragment f => f.Everywhere P

theorem Everywhere.mono {P Q : Expr → Prop} (hPQ : ∀ e, P e → Q e) {n : Node}
    (h : n.Everywhere P) : n.Everywhere Q := by
  match n with
  | .template t => exact fun e he => (h e he).mono hPQ
  | .fragment (.text content) => trivial
  | .fragment (.expr e) => exact Expr.Everywhere.mono hPQ h

end Node

namespace Eval

variable {α β : Type}

/-- A survey of one more level: what is visited below it starts afresh, and then its own level
counts on top of that. -/
def counted (act : Eval α) : Eval α := fun visited =>
  let (outcome, below) := act.runAt 0
  (outcome, max visited (below + 1))

/-- A survey has an outcome and visits a number of levels, whatever has been visited before. -/
def Surveys (act : Eval α) (outcome : Except EvalError α) (levels : Nat) : Prop :=
  ∀ visited, act.runAt visited = (outcome, max visited levels)

namespace Surveys

variable {act : Eval α} {f : α → Eval β} {a : α} {m n : Nat}

theorem pure (a : α) : Surveys (pure a) (.ok a) 0 := fun visited => by
  rw [runAt_pure, Nat.max_zero]

theorem throw (e : EvalError) : Surveys (throw e : Eval α) (.error e) 0 := fun visited => by
  rw [runAt_throw, Nat.max_zero]

theorem bind {outcome : Except EvalError β} (h : Surveys act (.ok a) m)
    (hf : Surveys (f a) outcome n) : Surveys (act >>= f) outcome (max m n) := fun visited => by
  rw [runAt_bind, h visited]
  exact (hf _).trans (by rw [Nat.max_assoc])

theorem bind_error {e : EvalError} (h : Surveys act (.error e) m) :
    Surveys (act >>= f) (.error e) m := fun visited => by
  rw [runAt_bind, h visited]

theorem counted {outcome : Except EvalError α} (h : Surveys act outcome m) :
    Surveys (counted act) outcome (m + 1) := fun visited => by
  change (let (outcome, below) := act.runAt 0; (outcome, max visited (below + 1))) = _
  rw [h 0, Nat.zero_max]

/-- A survey of all items of a list visits as many levels as that of one of them at most. -/
theorem mapM {f : β → Eval α} {levels : β → Nat} {xs : List β}
    (h : ∀ x ∈ xs, ∃ a, Surveys (f x) (.ok a) (levels x)) :
    ∃ as, Surveys (xs.mapM f) (.ok as) (greatest (xs.map levels)) := by
  induction xs with
  | nil => exact ⟨[], .pure _⟩
  | cons x xs ih =>
      obtain ⟨a, ha⟩ := h x (by simp)
      obtain ⟨as, has⟩ := ih fun y hy => h y (by simp [hy])
      rw [List.mapM_cons, List.map_cons, greatest_cons, ← Nat.max_zero (greatest _)]
      exact ⟨a :: as, ha.bind (has.bind (.pure (a :: as)))⟩

end Surveys

end Eval

namespace Evaluation

/-- Evaluates without a limit, down to the given number of levels, and counts the levels that are
visited. -/
def surveyWithin : Nat → Scope → Node → Eval Value
  | 0, _, _ => pure .empty
  | levels + 1, scope, n =>
    Eval.counted (node ⟨surveyWithin levels, fun _ _ => pure none⟩ scope n)

/-- The surveys of parts, which ask for no other translations. -/
abbrev surveys (levels : Nat) : Parts := ⟨surveyWithin levels, fun _ _ => pure none⟩

section All

variable {parts : Parts} {scope : Scope}

/-- If all parts of an expression are looked at and have values, the survey visits all of their
levels. -/
theorem surveys_expr {e : Expr} (hused : e.usesAllParts) (hcalls : e.callsDirectly)
    (hvalid : e.isInvalid = false)
    (hparts : ∀ p ∈ e.parts, ∃ v, (parts.expr scope p).Surveys (.ok v) p.levels) :
    ∃ v, (expr parts scope e).Surveys (.ok v) (greatest (e.parts.map Expr.levels)) := by
  cases e with
  | ident | func | literal => exact ⟨_, .pure _⟩
  | unary op operand =>
      obtain ⟨v, hv⟩ := hparts operand (by simp [Expr.parts])
      exact ⟨_, hv.bind (.pure _)⟩
  | binary op lhs rhs =>
      obtain ⟨a, ha⟩ := hparts lhs (by simp [Expr.parts])
      obtain ⟨b, hb⟩ := hparts rhs (by simp [Expr.parts])
      have hdecided : decided? op a = none := by
        cases op <;> first | rfl | cases hused
      refine ⟨binary op a b, ha.bind ?_⟩
      rw [hdecided]
      exact hb.bind (.pure _)
  | index base position =>
      obtain ⟨a, ha⟩ := hparts base (by simp [Expr.parts])
      obtain ⟨b, hb⟩ := hparts position (by simp [Expr.parts])
      exact ⟨_, ha.bind (hb.bind (.pure _))⟩
  | call callee args =>
      cases callee with
      | func function =>
          obtain ⟨values, hvalues⟩ := Eval.Surveys.mapM hparts
          rw [← Nat.max_zero (greatest _)]
          cases function with
          | translate => cases hcalls
          | _ => exact ⟨_, hvalues.bind (.pure _)⟩
      | _ => cases hcalls
  | range | slice | select => cases hused
  | invalid => cases hvalid

end All

/-- A survey with room for all levels visits all of them if all parts are looked at. -/
theorem surveys_surveyWithin {e : Expr} (hused : e.Everywhere (·.usesAllParts))
    (hcalls : e.Everywhere (·.callsDirectly)) (hvalid : e.Everywhere (·.isInvalid = false))
    {levels : Nat} (hlevels : e.levels ≤ levels) (scope : Scope) :
    ∃ v, (surveyWithin levels scope (.fragment (.expr e))).Surveys (.ok v) e.levels := by
  induction levels generalizing e with
  | zero =>
      rw [Expr.levels_eq] at hlevels
      cases hlevels
  | succ levels ih =>
      obtain ⟨hown, hbelow⟩ := hused
      obtain ⟨hcall, hcalls⟩ := hcalls
      obtain ⟨hreadable, hvalid⟩ := hvalid
      have part : ∀ p ∈ e.parts, ∃ v,
          ((surveys levels).expr scope p).Surveys (.ok v) p.levels := by
        intro p hp
        have hle := Expr.levels_le_of_mem_parts hp
        exact ih (hbelow p hp) (hcalls p hp) (hvalid p hp) (by omega)
      obtain ⟨v, hv⟩ := surveys_expr hown hcall hreadable part
      rw [Expr.levels_eq e]
      exact ⟨v, hv.counted⟩

theorem fragment_eq {parts : Parts} {scope : Scope} {f : Fragment}
    (h : ∀ e, f = .expr e → e.isInvalid = false) :
    fragment parts scope f = parts.node scope (.fragment f) := by
  unfold fragment
  split
  · cases h _ rfl
  · rfl

end Evaluation

/-- The number of levels of a template that evaluation visits if it has no limit. -/
def Scope.visited (scope : Scope) (t : Template) : Nat :=
  ((Evaluation.surveyWithin t.levels scope (.template t)).runAt 0).2

theorem Expr.Everywhere.own {P : Expr → Prop} {e : Expr} (h : e.Everywhere P) : P e := by
  cases h with
  | intro h _ => exact h

/-- If all parts of a template are looked at, all of its levels are visited. -/
theorem Scope.visited_eq_levels {t : Template} (hused : t.Everywhere (·.usesAllParts))
    (hcalls : t.Everywhere (·.callsDirectly)) (hvalid : t.Everywhere (·.isInvalid = false))
    (scope : Scope) : scope.visited t = t.levels := by
  have fragments : ∀ f ∈ t, ∃ v,
      (Evaluation.fragment (Evaluation.surveys (greatest (t.map Fragment.levels))) scope f).Surveys
        (.ok v) f.levels := by
    intro f hf
    have hle := le_greatest (List.mem_map_of_mem (f := Fragment.levels) hf)
    rw [Evaluation.fragment_eq fun e he => (hvalid e (he ▸ hf)).own]
    cases f with
    | text content =>
        obtain ⟨levels, hlevels⟩ := Nat.exists_eq_add_of_le' hle
        rw [hlevels]
        exact ⟨Value.text content, Eval.Surveys.counted (.pure _)⟩
    | expr e =>
        exact Evaluation.surveys_surveyWithin (hused e hf) (hcalls e hf) (hvalid e hf) hle scope
  obtain ⟨values, hvalues⟩ := Eval.Surveys.mapM fragments
  have hnode : (Evaluation.node (Evaluation.surveys (greatest (t.map Fragment.levels))) scope
      (.template t)).Surveys (.ok (.list values)) (max (greatest (t.map Fragment.levels)) 0) :=
    hvalues.bind (.pure _)
  have hall := congrArg Prod.snd (hnode.counted 0)
  rwa [Nat.max_zero, Nat.zero_max] at hall

end Phrasebook
