import Mathlib
import Phrasebook.Proofs.Evaluation.Congruence

/-!
# What evaluation fails with

Besides the limit there are three sources of errors: a range outside of brackets, a slice, and a
span that could not be read (`Expr.Raises`). `Eval.Raises act Q` says that every error of a
computation has a property. If that holds of the errors of all expressions that evaluation may come
to, it holds of the errors of evaluation.

The expressions that evaluation may come to are given by a property that holds everywhere in the
template at hand and is closed under asking for other translations (`Table.Closed`).
-/

namespace Phrasebook

namespace Eval

variable {α β : Type} {Q : EvalError → Prop} {R : α → Prop}

/-- Every error of a computation has a property. -/
def Raises (act : Eval α) (Q : EvalError → Prop) : Prop :=
  ∀ depth e, (act.runAt depth).1 = .error e → Q e

namespace Raises

theorem pure (a : α) : Raises (pure a) Q := by
  intro depth e h
  cases h

theorem throw {e : EvalError} (h : Q e) : Raises (throw e : Eval α) Q := by
  intro depth e' he
  cases he
  exact h

/-- What follows may rely on what the first part yields. -/
theorem bind {act : Eval α} {f : α → Eval β} (first : Raises act Q) (yields : act.Yields R)
    (rest : ∀ a, R a → Raises (f a) Q) : Raises (act >>= f) Q := by
  intro depth e h
  rw [runAt_bind] at h
  cases hact : act.runAt depth with
  | mk outcome depth' =>
      rw [hact] at h
      cases outcome with
      | error e' =>
          cases h
          exact first depth e (by rw [hact])
      | ok a => exact rest a (yields depth a (by rw [hact])) depth' e h

theorem andThen {act : Eval α} {f : α → Eval β} (first : Raises act Q)
    (rest : ∀ a, Raises (f a) Q) : Raises (act >>= f) Q :=
  first.bind (.trivial act) fun a _ => rest a

theorem deeper {act : Eval α} (h : Raises act Q) {limit : Nat} (hlimit : Q (.tooDeep limit)) :
    Raises (deeper limit act) Q := by
  intro depth e he
  rw [outcome_deeper] at he
  split at he
  · cases he
    exact hlimit
  · exact h (depth + 1) e he

theorem isolated {act : Eval α} (h : Raises act Q) : Raises act.isolated Q :=
  fun depth e he => h depth e he

theorem mapM {f : β → Eval α} {xs : List β} (h : ∀ x ∈ xs, Raises (f x) Q) :
    Raises (xs.mapM f) Q := by
  induction xs with
  | nil => exact .pure []
  | cons x xs ih =>
      obtain ⟨hx, hxs⟩ := List.forall_mem_cons.mp h
      rw [List.mapM_cons]
      refine hx.andThen ?_
      intro a
      refine (ih hxs).andThen ?_
      intro as
      exact .pure (a :: as)

end Raises

end Eval

namespace Expr

/-- The errors of the own step of an expression. -/
inductive Raises : Expr → EvalError → Prop where
  | range {start : Expr} {stop : Option Expr} : Raises (.range start stop) .unexpectedRange
  | base {base start : Expr} {stop : Option Expr} (kind : Value.Kind) :
      Raises (.slice base start stop) (.cannotSlice kind)
  | bound {base start : Expr} {stop : Option Expr} (which : SliceBound) (kind : Value.Kind) :
      Raises (.slice base start stop) (.invalidBound which kind)
  | invalid {start stop : Token} : Raises (.invalid start stop) (.invalidExpr start.display)

/-- An expression may ask for the translation of a key. If the key is written as a text, it is the
only one. -/
def MayAsk : Expr → String → Prop
  | .call callee args, key => (Expr.call callee args).MayCall .translate ∧
      ∀ lexeme, args.head? = some (.literal .string lexeme) → key = lexeme
  | _, _ => False

end Expr

namespace Translation

theorem forall_mem_nodesOf {S : Node → Prop} {group : List Translation} :
    (∀ n ∈ nodes.nodesOf group, S n) ↔ ∀ t ∈ group, ∀ n ∈ t.nodes, S n := by
  induction group with
  | nil => simp [nodes.nodesOf]
  | cons t group ih => rw [nodes.nodesOf, List.forall_mem_append, ih, List.forall_mem_cons]

theorem forall_mem_nodes {S : Node → Prop} {t : Translation} :
    (∀ n ∈ t.nodes, S n) ↔ (∀ n ∈ t.condition, S n) ∧
      (∀ template ∈ t.value, S (.template template)) ∧ ∀ u ∈ t.group, ∀ n ∈ u.nodes, S n := by
  obtain ⟨condition, value, group⟩ := t
  simp only [nodes, List.forall_mem_append, forall_mem_nodesOf, and_assoc]
  simp

/-- A property of all expressions in a translation. -/
def Everywhere (P : Expr → Prop) (t : Translation) : Prop := ∀ n ∈ t.nodes, n.Everywhere P

end Translation

/-- With an expression a property holds of all expressions in the translations that it may ask
for. -/
def Table.Closed (table : Table) (P : Expr → Prop) : Prop :=
  ∀ e key t, P e → e.MayAsk key → table.find? key = some t → t.Everywhere P

namespace Evaluation

variable {Q : EvalError → Prop} {parts : Parts} {scope : Scope}

theorem raises_bound (which : SliceBound) (h : ∀ kind, Q (.invalidBound which kind)) (v : Value) :
    (bound which v).Raises Q := by
  cases v with
  | int n => exact .pure _
  | _ => exact .throw (h _)

theorem raises_slice {base start : Expr} {stop : Option Expr}
    (hown : ∀ err, (Expr.slice base start stop).Raises err → Q err)
    (hparts : ∀ p ∈ (Expr.slice base start stop).parts, (parts.expr scope p).Raises Q) :
    (slice parts scope base start stop).Raises Q := by
  have hbound : ∀ which v, (bound which v).Raises Q := fun which =>
    raises_bound which fun kind => hown _ (.bound which kind)
  refine (hparts base (by simp [Expr.parts])).andThen fun v => ?_
  split
  · refine (hparts start (by simp [Expr.parts])).andThen fun first => ?_
    refine (hbound .start first).andThen fun first => ?_
    cases stop with
    | none => exact .pure _
    | some stop =>
        refine (hparts stop (by simp [Expr.parts])).andThen fun last => ?_
        exact (hbound .stop last).andThen fun last => .pure _
  · exact .throw (hown _ (.base v.kind))

theorem raises_firstOption (v : Value) {options : List (Expr × Expr)}
    (hparts : ∀ o ∈ options, (parts.expr scope o.1).Raises Q ∧ (parts.expr scope o.2).Raises Q) :
    (firstOption parts scope v options).Raises Q := by
  induction options with
  | nil => exact .pure _
  | cons option options ih =>
      obtain ⟨⟨hpattern, hresult⟩, hothers⟩ := List.forall_mem_cons.mp hparts
      rw [firstOption]
      split
      · exact hresult
      · refine hpattern.andThen fun w => ?_
        split
        · exact hresult
        · exact ih hothers

/-- The key that a call asks for, if it is written as a text. -/
def KeyOf (args : List Expr) (values : List Value) : Prop :=
  ∀ lexeme, args.head? = some (.literal .string lexeme) → (values.getD 0 .empty).toText = lexeme

theorem yields_args
    (hliteral : ∀ lexeme, (parts.expr scope (.literal .string lexeme)).Yields (· = .text lexeme))
    (args : List Expr) : (args.mapM (parts.expr scope)).Yields (KeyOf args) := by
  cases args with
  | nil => exact .pure (by simp [KeyOf])
  | cons arg args =>
      rw [List.mapM_cons]
      by_cases hfirst : ∃ lexeme, arg = .literal .string lexeme
      · obtain ⟨lexeme, rfl⟩ := hfirst
        refine (hliteral lexeme).bind fun v hv => (Eval.Yields.trivial _).bind fun vs _ => .pure ?_
        simp [KeyOf, hv]
      · refine (Eval.Yields.trivial _).bind fun v _ => (Eval.Yields.trivial _).bind fun vs _ =>
          .pure fun lexeme hlexeme => ?_
        exact absurd ⟨lexeme, Option.some.inj hlexeme⟩ hfirst

theorem raises_call {function : Builtin} {args : List Expr}
    (hliteral : ∀ lexeme, (parts.expr scope (.literal .string lexeme)).Yields (· = .text lexeme))
    (happly : ∀ values, KeyOf args values → (apply parts scope function values).Raises Q)
    (hparts : ∀ a ∈ args, (parts.expr scope a).Raises Q) :
    (call parts scope function args).Raises Q := by
  rw [call_eq]
  exact (Eval.Raises.mapM hparts).bind (yields_args hliteral args) happly

/-- An expression raises errors of its own, those of its parts, and those of the functions that it
applies to arguments. -/
theorem raises_expr {e : Expr}
    (hliteral : ∀ lexeme, (parts.expr scope (.literal .string lexeme)).Yields (· = .text lexeme))
    (hown : ∀ err, e.Raises err → Q err)
    (happly : ∀ function values,
      (function = .translate → e.MayAsk (values.getD 0 .empty).toText) →
      (apply parts scope function values).Raises Q)
    (hparts : ∀ p ∈ e.parts, (parts.expr scope p).Raises Q) : (expr parts scope e).Raises Q := by
  cases e with
  | ident | func | literal => exact .pure _
  | unary op operand =>
      exact (hparts operand (by simp [Expr.parts])).andThen fun v => .pure _
  | binary op lhs rhs =>
      refine (hparts lhs (by simp [Expr.parts])).andThen fun a => ?_
      split
      · exact .pure _
      · exact (hparts rhs (by simp [Expr.parts])).andThen fun b => .pure _
  | range => exact .throw (hown _ .range)
  | index base position =>
      refine (hparts base (by simp [Expr.parts])).andThen fun v => ?_
      exact (hparts position (by simp [Expr.parts])).andThen fun i => .pure _
  | slice => exact raises_slice hown hparts
  | select value options =>
      refine (hparts value (by simp [Expr.parts])).andThen fun v => raises_firstOption v ?_
      intro o ho
      have hmem : ∀ p ∈ [o.1, o.2], p ∈ (Expr.select value options).parts := by
        intro p hp
        exact List.mem_cons_of_mem _ (List.mem_flatMap.mpr ⟨o, ho, hp⟩)
      exact ⟨hparts o.1 (hmem o.1 (by simp)), hparts o.2 (hmem o.2 (by simp))⟩
  | call callee args =>
      have hcall : ∀ function, (Expr.call callee args).MayCall function →
          (∀ a ∈ args, (parts.expr scope a).Raises Q) →
          (call parts scope function args).Raises Q := by
        intro function hmay hargs
        refine raises_call hliteral (fun values hkey => happly function values ?_) hargs
        rintro rfl
        exact ⟨hmay, hkey⟩
      cases callee with
      | func function => exact hcall function rfl hparts
      | _ =>
          obtain ⟨hcallee, hargs⟩ := List.forall_mem_cons.mp hparts
          refine hcallee.andThen fun name => ?_
          split
          · next function _ => exact hcall function trivial hargs
          · exact .pure _
  | invalid => exact .throw (hown _ .invalid)

/-- What the evaluators of parts have to ensure, for the step from the parts to the whole. -/
structure Parts.Safe (parts : Parts) (table : Table) (limit : Nat) (P : Expr → Prop)
    (Q : EvalError → Prop) : Prop where
  node : ∀ scope n, scope.table = table → scope.limit = limit → n.Everywhere P →
    (parts.node scope n).Raises Q
  choose : ∀ scope t, scope.table = table → scope.limit = limit → t.Everywhere P →
    (parts.choose scope t).Raises Q
  chosen : ∀ scope t, t.Everywhere P →
    (parts.choose scope t).Yields fun chosen => ∀ template ∈ chosen, template.Everywhere P
  literal : ∀ scope lexeme,
    (parts.expr scope (.literal .string lexeme)).Yields (· = .text lexeme)

section Step

variable {P : Expr → Prop} (hsafe : parts.Safe scope.table scope.limit P Q)

include hsafe

theorem raises_translation {key : Value} (value option : Value)
    (hasked : ∀ t, scope.table.find? key.toText = some t → t.Everywhere P) :
    (translation parts scope key value option).Raises Q := by
  -- The scope of the message differs in its variables only.
  let inner := { scope with vars := (Message.nested key value option).vars }
  simp only [translation]
  split
  · exact .pure _
  · next t ht =>
      have hnodes := hasked t ht
      apply Eval.Raises.isolated
      refine (hsafe.choose inner t rfl rfl hnodes).bind (hsafe.chosen inner t hnodes) ?_
      intro chosen hchosen
      cases chosen with
      | none => exact .pure _
      | some template =>
          have heval := hsafe.node inner (.template template) rfl rfl (hchosen template rfl)
          exact heval.andThen fun v => .pure _

theorem raises_apply {function : Builtin} {values : List Value}
    (hasked : function = .translate → ∀ t,
      scope.table.find? (values.getD 0 .empty).toText = some t → t.Everywhere P) :
    (apply parts scope function values).Raises Q := by
  cases function with
  | translate => exact raises_translation hsafe _ _ (hasked rfl)
  | _ => exact .pure _

theorem raises_node (hclosed : scope.table.Closed P) (hown : ∀ e, P e → ∀ err, e.Raises err → Q err)
    {n : Node} (hn : n.Everywhere P) : (node parts scope n).Raises Q := by
  match n with
  | .template t =>
      refine Eval.Raises.andThen (Eval.Raises.mapM fun f hf => ?_) fun vs => .pure _
      have hfragment := hsafe.node scope (.fragment f) rfl rfl (Template.Everywhere.fragment hn hf)
      rw [fragment.eq_def]
      split
      · exact .pure _
      · exact hfragment
  | .fragment (.text content) => exact .pure _
  | .fragment (.expr e) =>
      obtain ⟨he, hparts⟩ := hn
      refine raises_expr (hsafe.literal scope) (hown e he) ?_ fun p hp =>
        hsafe.node scope _ rfl rfl (hparts p hp)
      intro function values hmay
      exact raises_apply hsafe fun hfunction t ht => hclosed e _ t he (hmay hfunction) ht

theorem raises_firstChosen {group : List Translation} (h : ∀ t ∈ group, t.Everywhere P) :
    (firstChosen parts scope group).Raises Q := by
  induction group with
  | nil => exact .pure _
  | cons t group ih =>
      obtain ⟨hfirst, hothers⟩ := List.forall_mem_cons.mp h
      rw [firstChosen]
      refine (hsafe.choose scope t rfl rfl hfirst).andThen fun chosen => ?_
      cases chosen with
      | none => exact ih hothers
      | some template => exact .pure _

theorem raises_choice {t : Translation} (h : t.Everywhere P) : (choice parts scope t).Raises Q := by
  obtain ⟨hcondition, -, hgroup⟩ := Translation.forall_mem_nodes.mp h
  have hholds : (holds parts scope t.condition).Raises Q := by
    cases ht : t.condition with
    | none => exact .pure _
    | some condition =>
        have heval := hsafe.node scope condition rfl rfl (hcondition condition ht)
        exact heval.andThen fun v => .pure _
  refine hholds.andThen fun b => ?_
  split
  · cases t.value with
    | none => exact raises_firstChosen hsafe hgroup
    | some template => exact .pure _
  · exact .pure _

end Step

section Chosen

variable {P : Expr → Prop} (hchosen : ∀ scope t, t.Everywhere P →
  (parts.choose scope t).Yields fun chosen => ∀ template ∈ chosen, template.Everywhere P)

include hchosen

theorem yields_firstChosen {group : List Translation} (h : ∀ t ∈ group, t.Everywhere P) :
    (firstChosen parts scope group).Yields fun chosen =>
      ∀ template ∈ chosen, template.Everywhere P := by
  induction group with
  | nil => exact .pure (by simp)
  | cons t group ih =>
      obtain ⟨hfirst, hothers⟩ := List.forall_mem_cons.mp h
      rw [firstChosen]
      refine (hchosen scope t hfirst).bind fun chosen hmem => ?_
      cases chosen with
      | none => exact ih hothers
      | some template => exact .pure hmem

theorem yields_choice {t : Translation} (h : t.Everywhere P) :
    (choice parts scope t).Yields fun chosen => ∀ template ∈ chosen, template.Everywhere P := by
  obtain ⟨-, hvalue, hgroup⟩ := Translation.forall_mem_nodes.mp h
  refine (Eval.Yields.trivial _).bind fun b _ => ?_
  split
  · cases ht : t.value with
    | none => exact yields_firstChosen hchosen hgroup
    | some template =>
        refine .pure fun chosen hmem => ?_
        cases hmem
        exact hvalue template ht
  · exact .pure (by simp)

end Chosen

theorem safe_within {table : Table} {limit : Nat} {P : Expr → Prop} (hclosed : table.Closed P)
    (hown : ∀ e, P e → ∀ err, e.Raises err → Q err) (hlimit : Q (.tooDeep limit)) (levels : Nat) :
    Parts.Safe ⟨nodeWithin levels, chooseWithin levels⟩ table limit P Q := by
  induction levels with
  | zero =>
      refine ⟨?_, ?_, ?_, ?_⟩
      · rintro scope n rfl rfl hn
        exact .throw hlimit
      · rintro scope t rfl rfl ht
        exact .throw hlimit
      · intro scope t ht
        exact .throw _
      · intro scope lexeme
        exact .throw _
  | succ levels ih =>
      refine ⟨?_, ?_, ?_, ?_⟩
      · rintro scope n rfl rfl hn
        exact (raises_node ih hclosed hown hn).deeper hlimit
      · rintro scope t rfl rfl ht
        exact (raises_choice ih ht).deeper hlimit
      · intro scope t ht
        exact (yields_choice ih.chosen ht).deeper scope.limit
      · intro scope lexeme
        have htext : (pure (.text lexeme) : Eval Value).Yields (· = .text lexeme) := .pure rfl
        exact htext.deeper scope.limit

end Evaluation

namespace Scope

variable {P : Expr → Prop} {Q : EvalError → Prop} (scope : Scope) (hclosed : scope.table.Closed P)
  (hown : ∀ e, P e → ∀ err, e.Raises err → Q err) (hlimit : Q (.tooDeep scope.limit))

include hclosed hown hlimit

/-- The errors of evaluation are those of the expressions that it may come to, and the limit. -/
theorem raises_evalNode {n : Node} (hn : n.Everywhere P) : (scope.evalNode n).Raises Q := by
  intro depth e he
  exact (Evaluation.safe_within hclosed hown hlimit _).node scope n rfl rfl hn depth e he

theorem raises_choose {t : Translation} (ht : t.Everywhere P) : (scope.choose t).Raises Q := by
  intro depth e he
  exact (Evaluation.safe_within hclosed hown hlimit _).choose scope t rfl rfl ht depth e he

theorem raises_translate {t : Translation} (ht : t.Everywhere P) :
    (scope.translate t).Raises Q := by
  have hchosen : (scope.choose t).Yields fun chosen =>
      ∀ template ∈ chosen, template.Everywhere P := by
    intro depth chosen h
    exact (Evaluation.safe_within hclosed hown hlimit _).chosen scope t ht depth chosen h
  refine (scope.raises_choose hclosed hown hlimit ht).bind hchosen fun chosen hmem => ?_
  cases chosen with
  | none => exact .pure _
  | some template =>
      have heval : (scope.eval template).Raises Q :=
        scope.raises_evalNode hclosed hown hlimit (n := .template template) (hmem template rfl)
      exact heval.andThen fun v => .pure _

end Scope

end Phrasebook
