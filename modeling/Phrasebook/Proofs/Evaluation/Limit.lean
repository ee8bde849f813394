import Mathlib
import Phrasebook.Proofs.Evaluation.Calls

/-!
# What the limit of the depth is good for

The limit shows in one way only: evaluation that comes too deep fails, and says so. Whatever else
comes of evaluation under one limit comes of it under every higher one, also if translations ask for
each other in a circle. So the limit may be raised without any other effect.

A tree that does not ask for other translations needs no more levels than it has. Whether a call
asks for one may be known only when its callee has been evaluated (`Scope.NeverAsks`).
-/

namespace Phrasebook

open Evaluation

namespace Eval

variable {α β : Type} {depth limit : Nat}

/-- From a depth, a computation does not fail for its depth, and comes back to it. -/
structure Fits (depth : Nat) (act : Eval α) : Prop where
  back : (act.runAt depth).2 = depth
  outcome : ∀ n, (act.runAt depth).1 ≠ .error (.tooDeep n)

namespace Fits

variable {act : Eval α}

theorem pure (a : α) : Fits depth (pure a) := ⟨rfl, fun _ => by simp [runAt_pure]⟩

theorem throw {e : EvalError} (h : ∀ n, e ≠ .tooDeep n) : Fits depth (throw e : Eval α) :=
  ⟨rfl, fun n => by simpa [runAt_throw] using h n⟩

/-- What follows has to fit for the result that is there, and for no other one. -/
theorem bind {f : α → Eval β} (h : act.Fits depth)
    (hf : ∀ a, (act.runAt depth).1 = .ok a → (f a).Fits depth) : (act >>= f).Fits depth := by
  obtain ⟨hback, houtcome⟩ := h
  cases hact : act.runAt depth with
  | mk outcome depth' =>
      rw [hact] at hback houtcome hf
      obtain rfl : depth' = depth := hback
      cases outcome with
      | ok a =>
          have hbind : (act >>= f).runAt depth' = (f a).runAt depth' := by rw [runAt_bind, hact]
          constructor
          · rw [hbind]
            exact (hf a rfl).back
          · rw [hbind]
            exact (hf a rfl).outcome
      | error e =>
          have hbind : (act >>= f).runAt depth' = (.error e, depth') := by rw [runAt_bind, hact]
          constructor
          · rw [hbind]
          · intro n
            rw [hbind]
            simpa using houtcome n

theorem deeper (h : act.Fits (depth + 1)) (hlimit : depth < limit) :
    (deeper limit act).Fits depth := by
  have hrun := runAt_deeper limit act depth
  rw [if_neg (by omega), h.back] at hrun
  constructor
  · rw [hrun, Nat.add_sub_cancel]
  · rw [hrun]
    exact h.outcome

end Fits

theorem congruence_fits (depth : Nat) : Congruence fun _ x _ => x.Fits depth where
  pure := .pure
  throw := .throw
  bind hx hf := hx.bind fun a _ => hf a

end Eval

namespace Scope

variable {scope : Scope}

/-- An expression is not a call that asks for another translation, neither directly nor by what its
callee comes to. -/
def NeverAsks (scope : Scope) : Expr → Prop
  | .call callee _ => ¬ scope.Calls 0 callee .translate
  | _ => True

/-- A callee comes to the same function from every depth, unless it is too deep. -/
theorem Calls.shallow {depth : Nat} {callee : Expr} {function : Builtin}
    (h : scope.Calls depth callee function) : scope.Calls 0 callee function := by
  cases h with
  | direct => exact .direct function
  | @named _ name _ hcallee hname hfunction =>
      have hsame := scope.approximates_evalNode (.fragment (.expr callee)) (Nat.zero_le depth)
      refine .named hcallee ?_ hfunction
      rw [← hname]
      refine (hsame.eq_of_ne ?_).symm
      show ((scope.evalExpr callee).runAt depth).1 ≠ _
      simp [hname]

/-- A call that does not ask for another translation fits where its parts do. -/
theorem fits_call {callee : Expr} {args : List Expr} (hown : scope.NeverAsks (.call callee args))
    {depth : Nat} (hparts : ∀ p ∈ (Expr.call callee args).parts, (scope.evalExpr p).Fits depth) :
    (expr evaluators scope (.call callee args)).Fits depth := by
  have congruence := Eval.congruence_fits depth
  have hcall : ∀ function, scope.Calls depth callee function →
      (∀ a ∈ args, (scope.evalExpr a).Fits depth) →
      (call evaluators scope function args).Fits depth := by
    intro function hcalls hargs
    have hasks : function ≠ .translate := by
      rintro rfl
      exact hown hcalls.shallow
    have happly : ∀ values, (apply evaluators scope function values).Fits depth :=
      @related_apply _ evaluators evaluators scope scope congruence function rfl rfl
        fun h => absurd h hasks
    exact @related_call _ evaluators evaluators scope scope congruence function args happly hargs
  by_cases hfunc : ∃ f, callee = .func f
  · obtain ⟨f, rfl⟩ := hfunc
    exact hcall f (.direct f) hparts
  · have hcallee : ∀ f, callee ≠ .func f := not_exists.mp hfunc
    have hmem : (Expr.call callee args).parts = callee :: args := by
      cases callee with
      | func f => exact absurd rfl (hcallee f)
      | _ => rfl
    rw [hmem] at hparts
    obtain ⟨hname, hargs⟩ := List.forall_mem_cons.mp hparts
    rw [expr_call hcallee]
    apply hname.bind
    intro name hvalue
    split
    · next function hfunction => exact hcall function (.named hcallee hvalue hfunction) hargs
    · exact .pure _

/-- An expression that never asks for another translation fits with as many levels as it has. -/
theorem fits_evalExpr {e : Expr} (h : e.Everywhere scope.NeverAsks) {depth : Nat}
    (hle : depth + e.levels ≤ scope.limit) : (scope.evalExpr e).Fits depth := by
  induction h generalizing depth with
  | @intro e hown _ ih =>
      have hlevels := Expr.levels_eq e
      have hparts : ∀ p ∈ e.parts, (scope.evalExpr p).Fits (depth + 1) := by
        intro p hp
        have hp' := Expr.levels_le_of_mem_parts hp
        exact ih p hp (by omega)
      rw [evalExpr_eq]
      apply Eval.Fits.deeper _ (by omega)
      cases e with
      | call callee args => exact fits_call hown hparts
      | _ =>
          exact @related_expr _ evaluators evaluators scope scope
            (Eval.congruence_fits (depth + 1)) _ (fun _ _ => rfl) (fun _ hmay => hmay.elim) hparts

/-- A template or fragment that never asks for another translation fits with as many levels as it
has. -/
theorem fits_evalNode {n : Node} (h : n.Everywhere scope.NeverAsks) {depth : Nat}
    (hle : depth + n.levels ≤ scope.limit) : (scope.evalNode n).Fits depth := by
  have fragment : ∀ {f : Fragment} {depth : Nat}, f.Everywhere scope.NeverAsks →
      depth + f.levels ≤ scope.limit → (scope.evalNode (.fragment f)).Fits depth := by
    intro f depth hf hle
    cases f with
    | text content =>
        rw [evalNode_eq]
        exact (Eval.Fits.pure (Value.text content)).deeper hle
    | expr e => exact fits_evalExpr hf hle
  cases n with
  | fragment f => exact fragment h hle
  | template t =>
      have hle' : depth + (greatest (t.map Fragment.levels) + 1) ≤ scope.limit := hle
      rw [evalNode_eq]
      apply Eval.Fits.deeper _ (by omega)
      apply @related_template _ evaluators evaluators scope scope (Eval.congruence_fits (depth + 1))
      intro f hf
      have hf' := le_greatest (List.mem_map_of_mem (f := Fragment.levels) hf)
      exact fragment (h.fragment hf) (by omega)

/-- The limit shows only where evaluation fails for its depth. Whatever else comes of a template, a
fragment or a choice, comes of it under every limit that is at least as high. And if evaluation
never asks for another translation, it does not fail for its depth under any limit that is at least
the number of levels of the tree. -/
theorem limit_shows_as_tooDeep (scope : Scope) :
    (∀ limit', scope.limit ≤ limit' →
      (∀ n, (∀ k, ((scope.evalNode n).runAt 0).1 ≠ .error (.tooDeep k)) →
        (evalNode { scope with limit := limit' } n).runAt 0 = (scope.evalNode n).runAt 0) ∧
      ∀ t, (∀ k, ((scope.choose t).runAt 0).1 ≠ .error (.tooDeep k)) →
        (choose { scope with limit := limit' } t).runAt 0 = (scope.choose t).runAt 0) ∧
    ∀ n, n.Everywhere scope.NeverAsks → n.levels ≤ scope.limit →
      ∀ k, ((scope.evalNode n).runAt 0).1 ≠ .error (.tooDeep k) := by
  constructor
  · intro limit' hle
    constructor
    · intro n hdeep
      have hsame := (scope.approximates_evalNode_limit n (Nat.sub_le_sub_right hle 0)).eq_of_ne
        (hdeep scope.limit)
      rw [(scope.steady_evalNode n).runAt_eq, (steady_evalNode _ n).runAt_eq, hsame]
    · intro t hdeep
      have hsame := (scope.approximates_choose_limit t (Nat.sub_le_sub_right hle 0)).eq_of_ne
        (hdeep scope.limit)
      rw [(scope.steady_choose t).runAt_eq, (steady_choose _ t).runAt_eq, hsame]
  · intro n hasks hle
    exact (fits_evalNode hasks (by omega)).outcome

end Scope

/-- A translation that asks for itself as long as it has a value, which it passes on to none. -/
def echo : Translation :=
  .ofTemplate [.expr (.binary .and (.ident "value") (.call (.func .translate)
    [.literal .string "echo"]))]

/-- A scope for the translation, with just as many levels as the template below takes. -/
def echoScope : Scope := ⟨.html, "en", ∅, .ofList [("echo", echo)], 8⟩

/-- A template that asks for the translation with a value. -/
def echoTemplate : Template :=
  [.expr (.call (.func .translate) [.literal .string "echo", .literal .string "x"])]

/-- A scope in which a variable holds the name of a function, with just as many levels as the
template below has. -/
def namedScope : Scope := ⟨.html, "en", .ofList [("f", .text "len")], ∅, 3⟩

/-- A template that calls a function by the name in the variable. -/
def namedTemplate : Template := [.expr (.call (.ident "f") [.literal .string "x"])]

theorem Scope.neverAsks_namedTemplate : namedTemplate.Everywhere namedScope.NeverAsks := by
  have hcallee : ¬ namedScope.Calls 0 (.ident "f") .translate := by
    intro hcalls
    cases hcalls with
    | named _ hname hfunction =>
        obtain rfl : Value.text "len" = _ := Except.ok.inj hname
        revert hfunction
        decide
  intro e he
  cases List.mem_singleton.mp he
  refine .intro hcallee fun p hp => ?_
  have hp' : p = .ident "f" ∨ p = .literal .string "x" := by simpa [Expr.parts] using hp
  obtain rfl | rfl := hp'
  · exact .leaf trivial rfl
  · exact .leaf trivial rfl

theorem Scope.limit_shows_as_tooDeep_of_echo :
    (Scope.eval { echoScope with limit := 7 } echoTemplate).runAt 0 = (.error (.tooDeep 7), 0) ∧
    (∃ v, ((echoScope.eval echoTemplate).runAt 0).1 = .ok v) ∧
    (Scope.eval { echoScope with limit := 128 } echoTemplate).runAt 0 =
      (echoScope.eval echoTemplate).runAt 0 ∧
    (Scope.choose { echoScope with limit := 128 } echo).runAt 0 = (echoScope.choose echo).runAt 0 ∧
    ∀ k, ((namedScope.eval namedTemplate).runAt 0).1 ≠ .error (.tooDeep k) := by
  have hok : ∃ v, ((echoScope.eval echoTemplate).runAt 0).1 = .ok v := ⟨_, rfl⟩
  have hchosen : ((echoScope.choose echo).runAt 0).1 = .ok echo.value := rfl
  obtain ⟨hnode, hchoose⟩ := (limit_shows_as_tooDeep echoScope).1 128 (by decide)
  refine ⟨rfl, hok, hnode (.template echoTemplate) ?_, hchoose echo ?_, ?_⟩
  · obtain ⟨v, hv⟩ := hok
    intro k hk
    exact absurd (hv.symm.trans hk) (by simp)
  · intro k
    simp [hchosen]
  · exact (limit_shows_as_tooDeep namedScope).2 (.template namedTemplate) neverAsks_namedTemplate
      (by decide)

end Phrasebook
