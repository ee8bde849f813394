import Mathlib
import Phrasebook.Proofs.Evaluation.Calls
import Phrasebook.Proofs.Evaluation.Indifference
import Phrasebook.Proofs.Template.Shape

/-!
# The variables that a template sees

Evaluation of a template depends on the variables that occur in it, and on no other ones. Two sets
of variables that agree on these names make no difference to it.

A builtin function is not a variable, so variables that are named like one are never seen. And what
a template gets for a message depends on the values of the arguments that ask for it. The variables
of the place where it is asked for are not seen from inside of the message.
-/

namespace Phrasebook

open Evaluation

namespace Expr

/-- An expression is another one, or stands somewhere inside of it. -/
inductive Contains : Expr → Expr → Prop where
  | self (e : Expr) : Contains e e
  | inside {e p q : Expr} : p ∈ e.parts → Contains p q → Contains e q

theorem everywhere_iff {P : Expr → Prop} {e : Expr} :
    e.Everywhere P ↔ ∀ q, e.Contains q → P q := by
  constructor
  · intro h q hq
    induction hq with
    | self e => exact h.own
    | inside hp _ ih =>
        obtain ⟨-, hbelow⟩ := h
        exact ih (hbelow _ hp)
  · induction e using induct_parts with
    | step e ih =>
        intro h
        refine .intro (h e (.self e)) fun p hp => ?_
        exact ih p hp fun q hq => h q (.inside hp hq)

end Expr

namespace Template

/-- An expression stands somewhere in a template. -/
def Contains (t : Template) (q : Expr) : Prop := ∃ e, .expr e ∈ t ∧ e.Contains q

theorem everywhere_iff {P : Expr → Prop} {t : Template} :
    t.Everywhere P ↔ ∀ q, t.Contains q → P q := by
  constructor
  · rintro h q ⟨e, he, hq⟩
    exact Expr.everywhere_iff.mp (h e he) q hq
  · intro h e he
    exact Expr.everywhere_iff.mpr fun q hq => h q ⟨e, he, hq⟩

end Template

namespace Scope

variable {scope : Scope}

/-- Variables that agree on the names in a template make no difference to it. -/
theorem eval_eq_of_find? {t : Template} {vars : Vars}
    (h : ∀ name, t.Contains (.ident name) → vars.find? name = scope.vars.find? name) :
    eval { scope with vars } t = scope.eval t := by
  have hsame : (Node.template t).Everywhere (·.SameStep { scope with vars } scope) := by
    apply Template.everywhere_iff.mpr
    intro q hq
    constructor
    · rintro name rfl
      exact h name hq
    · -- A function sees the variables neither directly nor through the message that it asks for.
      intro function _ parts values
      rfl
  apply evalNode_congr _ hsame
  rfl

/-- What a template gets for a message is the same at two places with different variables, if the
arguments that ask for it have the same values. -/
theorem runAt_translate_eq {vars : Vars} {depth : Nat} {callee callee' : Expr}
    {args args' : List Expr} {values : List Value}
    (hcalls : scope.Calls (depth + 1) callee .translate)
    (hcalls' : Calls { scope with vars } (depth + 1) callee' .translate)
    (hargs : ((args.mapM scope.evalExpr).runAt (depth + 1)).1 = .ok values)
    (hargs' : ((args'.mapM (evalExpr { scope with vars })).runAt (depth + 1)).1 = .ok values) :
    (evalExpr { scope with vars } (.call callee' args')).runAt depth =
      (scope.evalExpr (.call callee args)).runAt depth := by
  rw [(steady_evalExpr _ _).runAt_eq, (scope.steady_evalExpr _).runAt_eq,
    hcalls'.outcome_evalExpr hargs', hcalls.outcome_evalExpr hargs]
  rfl

/-- The outcome of evaluating a template, accepted or not, depends only on those variables that
occur in it. They are no builtin functions, so variables with the names of these are never seen. And
a call that asks for a message, at any depth, depends only on the values of its arguments and not on
the variables of the place where it stands. -/
theorem eval_eq_of_agree {source : String} {t : Template}
    (hread : (Template.read source).1 = t ∨ Template.parse source = .ok t) (scope : Scope) :
    (∀ vars, (∀ name, t.Contains (.ident name) → Builtin.ofName? name = none →
        vars.find? name = scope.vars.find? name) → eval { scope with vars } t = scope.eval t) ∧
    (∀ (function : Builtin) (v : Value),
      eval { scope with vars := scope.vars.insert function.name v } t = scope.eval t) ∧
    ∀ vars depth callee callee' args args' values,
      scope.Calls (depth + 1) callee .translate →
      Calls { scope with vars } (depth + 1) callee' .translate →
      ((args.mapM scope.evalExpr).runAt (depth + 1)).1 = .ok values →
      ((args'.mapM (evalExpr { scope with vars })).runAt (depth + 1)).1 = .ok values →
      (evalExpr { scope with vars } (.call callee' args')).runAt depth =
        (scope.evalExpr (.call callee args)).runAt depth := by
  obtain rfl : (Template.read source).1 = t := hread.elim id Template.read_of_parse
  have hresolved := Template.everywhere_iff.mp (Template.resolved_read source)
  refine ⟨?_, ?_, ?_⟩
  · intro vars hagree
    apply eval_eq_of_find?
    intro name hname
    exact hagree name hname (hresolved _ hname)
  · intro function v
    apply eval_eq_of_find?
    intro name hname
    have hne : function.name ≠ name := by
      rintro rfl
      have hnone : Builtin.ofName? function.name = none := hresolved _ hname
      simp [Builtin.ofName?_name] at hnone
    simp [hne]
  · intro vars depth callee callee' args args' values
    exact runAt_translate_eq

/-- A source whose end cannot be read. -/
def partialSource : String := "\x7blen\x7d \x7bt('k', y)\x7d\x7b]"

/-- What is read of it. -/
def partialTemplate : Template :=
  [.expr (.func .len), .text " ",
    .expr (.call (.func .translate) [.literal .string "k", .ident "y"]),
    .expr (.invalid ⟨.rBrack, "]", 18⟩ ⟨.eof, "", 19⟩)]

/-- A scope whose translation renders a variable of its message and one that the message lacks. -/
def partialScope : Scope :=
  ⟨.html, "en", .ofList [("y", .text "a"), ("z", .text "b")],
    .ofList [("k", .ofTemplate [.expr (.ident "value"), .expr (.ident "z")])], 16⟩

/-- Variables that differ in all but the one name that the template sees. -/
def otherVars : Vars := .ofList [("g", .text "t"), ("len", .text "c"), ("y", .text "a")]

/-- The only variable in the template has the same value in both. -/
theorem agree_partialTemplate (name : String) (h : partialTemplate.Contains (.ident name)) :
    otherVars.find? name = partialScope.vars.find? name := by
  suffices hall : partialTemplate.Everywhere fun q => ∀ name, q = .ident name → name = "y" by
    obtain rfl := Template.everywhere_iff.mp hall _ h name rfl
    rfl
  intro e he
  have hcases : e = .func .len ∨
      e = .call (.func .translate) [.literal .string "k", .ident "y"] ∨
      e = .invalid ⟨.rBrack, "]", 18⟩ ⟨.eof, "", 19⟩ := by
    simpa [partialTemplate] using he
  obtain rfl | rfl | rfl := hcases
  · exact .leaf (by simp) rfl
  · refine .intro (by simp) (List.forall_mem_cons.mpr ⟨.leaf (by simp) rfl, ?_⟩)
    exact List.forall_mem_singleton.mpr (.leaf (by simp) rfl)
  · exact .leaf (by simp) rfl

theorem eval_eq_of_agree_of_partial :
    (Template.read partialSource).1 = partialTemplate ∧
    ((partialScope.eval partialTemplate).runAt 0).1 =
      .ok (.list [.text "len", .text " ", .raw "a", .text ""]) ∧
    eval { partialScope with vars := otherVars } partialTemplate =
      partialScope.eval partialTemplate ∧
    eval { partialScope with vars := partialScope.vars.insert "len" (.text "c") } partialTemplate =
      partialScope.eval partialTemplate ∧
    (evalExpr { partialScope with vars := otherVars }
        (.call (.ident "g") [.literal .string "k", .literal .string "a"])).runAt 5 =
      (partialScope.evalExpr
        (.call (.func .translate) [.literal .string "k", .ident "y"])).runAt 5 := by
  have hread : (Template.read partialSource).1 = partialTemplate := rfl
  obtain ⟨hagree, hbuiltin, hmessage⟩ := eval_eq_of_agree (.inl hread) partialScope
  refine ⟨hread, rfl, ?_, hbuiltin .len (.text "c"), ?_⟩
  · apply hagree
    intro name hname _
    exact agree_partialTemplate name hname
  · exact hmessage otherVars 5 (.func .translate) (.ident "g") _ _ [.text "k", .text "a"]
      (.direct .translate) (.named (by simp) rfl rfl) rfl rfl

end Scope

end Phrasebook
