import Mathlib
import Phrasebook.Proofs.Catalog.Nested
import Phrasebook.Proofs.Evaluation.Termination

/-!
# Translations that ask for themselves

A translation whose template asks for its own key never has a value: each round of it starts with
other variables, two levels deeper than the one before it, until the limit is reached. So the
catalog fails the message, with the error that names the limit, unless something else fails before
that: a fragment in front of the call, or one of its arguments (`Scope.FailsEarlier`).
-/

namespace Phrasebook

open Evaluation

/-- A translation without a condition, whose template asks for the translation of a key, behind the
fragments in front and with further arguments. -/
structure Translation.Asks (key : String) (front : Template) (args : List Expr) (t : Translation) :
    Prop where
  unconditional : t.condition = none
  value : ∃ back, t.value =
    some (front ++ .expr (.call (.func .translate) (.literal .string key :: args)) :: back)

namespace Scope

variable {scope : Scope} {depth : Nat} {e : EvalError}

/-- A template is evaluated fragment by fragment, one level down. -/
theorem outcome_eval_append (hdepth : depth < scope.limit) (front rest : Template) :
    ((scope.eval (front ++ rest)).runAt depth).1 = (do
      let values ← ((front.mapM (fragment evaluators scope)).runAt (depth + 1)).1
      let more ← ((rest.mapM (fragment evaluators scope)).runAt (depth + 1)).1
      return .list (values ++ more)) := by
  have hnode : node evaluators scope (.template (front ++ rest)) = (do
      let values ← front.mapM (fragment evaluators scope)
      let more ← rest.mapM (fragment evaluators scope)
      return .list (values ++ more)) := by
    simp [node, List.mapM_append]
  rw [eval, evalNode_eq, Eval.outcome_deeper, if_neg (by omega), hnode,
    (scope.steady_fragments front).outcome_bind]
  simp only [(scope.steady_fragments rest).outcome_bind]
  rfl

/-- The first argument of a call is the key that it asks for, if it is a literal. -/
theorem key_ofArguments {key : String} {args : List Expr} {values : List Value}
    (h : (((.literal .string key :: args).mapM scope.evalExpr).runAt depth).1 = .ok values) :
    (Message.ofArguments values).key = key := by
  have hkey : ((scope.evalExpr (.literal .string key)).runAt depth).1 =
      if scope.limit ≤ depth then .error (.tooDeep scope.limit) else .ok (.text key) := by
    rw [evalExpr_eq, Eval.outcome_deeper]
    rfl
  rw [List.mapM_cons, (scope.steady_evalExpr _).outcome_bind, hkey] at h
  split at h
  · cases h
  · change ((args.mapM scope.evalExpr >>= _ : Eval (List Value)).runAt depth).1 = _ at h
    rw [(scope.steady_evalArgs args).outcome_bind] at h
    cases hargs : ((args.mapM scope.evalExpr).runAt depth).1 with
    | error e =>
        rw [hargs] at h
        cases h
    | ok others =>
        rw [hargs] at h
        cases h
        rfl

/-- A call fails if one of its arguments fails, or else if the translation does that it asks for,
one level below the call. -/
theorem evalExpr_error_of_args {args : List Expr} (hdepth : depth < scope.limit)
    (hargs : ((args.mapM scope.evalExpr).runAt (depth + 1)).1 = .error e) :
    ((scope.evalExpr (.call (.func .translate) args)).runAt depth).1 = .error e := by
  rw [evalExpr_eq, Eval.outcome_deeper, if_neg (by omega)]
  show ((args.mapM scope.evalExpr >>= _ : Eval Value).runAt (depth + 1)).1 = _
  rw [(scope.steady_evalArgs args).outcome_bind, hargs]
  rfl

theorem evalExpr_error_of_round {args : List Expr} {values : List Value} {t : Translation}
    (hdepth : depth < scope.limit)
    (hargs : ((args.mapM scope.evalExpr).runAt (depth + 1)).1 = .ok values)
    (hfound : scope.table.find? (Message.ofArguments values).key = some t)
    (hround : ((translate { scope with vars := (Message.ofArguments values).vars } t).runAt
      (depth + 1)).1 = .error e) :
    ((scope.evalExpr (.call (.func .translate) args)).runAt depth).1 = .error e := by
  let inner : Scope := { scope with vars := (Message.ofArguments values).vars }
  rw [(Calls.direct .translate).outcome_evalExpr hargs, Eval.outcome_deeper, if_neg (by omega)]
  show ((translation evaluators scope _ _ _).runAt (depth + 1)).1 = _
  rw [translation_eq hfound]
  show ((inner.translate t >>= _ : Eval Value).runAt (depth + 1)).1 = _
  rw [(inner.steady_translate t).outcome_bind, hround]
  rfl

section Round

variable {key : String} {front : Template} {args : List Expr} {t : Translation}
  (hasks : t.Asks key front args)

include hasks

theorem translate_error_of_front (hdepth : depth < scope.limit)
    (hfront : ((front.mapM (fragment evaluators scope)).runAt (depth + 1)).1 = .error e) :
    ((scope.translate t).runAt depth).1 = .error e := by
  obtain ⟨hcondition, back, hvalue⟩ := hasks
  rw [outcome_translate_of_unconditional hcondition hvalue, outcome_eval_append hdepth, hfront]
  rfl

theorem translate_error_of_call {before : List Value} (hdepth : depth < scope.limit)
    (hfront : ((front.mapM (fragment evaluators scope)).runAt (depth + 1)).1 = .ok before)
    (hcall : ((scope.evalExpr (.call (.func .translate) (.literal .string key :: args))).runAt
      (depth + 1)).1 = .error e) : ((scope.translate t).runAt depth).1 = .error e := by
  obtain ⟨hcondition, back, hvalue⟩ := hasks
  rw [outcome_translate_of_unconditional hcondition hvalue, outcome_eval_append hdepth, hfront,
    List.mapM_cons, (scope.steady_fragment _).outcome_bind]
  have hfragment : ((fragment evaluators scope (.expr (.call (.func .translate)
      (.literal .string key :: args)))).runAt (depth + 1)).1 = .error e := hcall
  rw [hfragment]
  rfl

end Round

/-- Something fails before the limit puts an end to the rounds: in the round at hand the fragments
in front of the call, or else the arguments of the call, or else something in the round that these
ask for. -/
inductive FailsEarlier (front : Template) (args : List Expr) : Scope → Nat → EvalError → Prop where
  | front {scope : Scope} {depth : Nat} {e : EvalError} (hdepth : depth < scope.limit)
      (hfront : ((front.mapM (fragment evaluators scope)).runAt (depth + 1)).1 = .error e) :
      FailsEarlier front args scope depth e
  | args {scope : Scope} {depth : Nat} {e : EvalError} {before : List Value}
      (hdepth : depth + 1 < scope.limit)
      (hfront : ((front.mapM (fragment evaluators scope)).runAt (depth + 1)).1 = .ok before)
      (hargs : ((args.mapM scope.evalExpr).runAt (depth + 2)).1 = .error e) :
      FailsEarlier front args scope depth e
  | again {scope : Scope} {depth : Nat} {e : EvalError} {before values : List Value}
      (hdepth : depth + 1 < scope.limit)
      (hfront : ((front.mapM (fragment evaluators scope)).runAt (depth + 1)).1 = .ok before)
      (hargs : ((args.mapM scope.evalExpr).runAt (depth + 2)).1 = .ok values)
      (hround : FailsEarlier front args { scope with vars := (Message.ofArguments values).vars }
        (depth + 2) e) :
      FailsEarlier front args scope depth e

section Run

variable {key : String} {front : Template} {args : List Expr} {t : Translation}
  (hasks : t.Asks key front args)

include hasks

/-- What fails earlier fails the translation. -/
theorem FailsEarlier.translate_error (hfound : scope.table.find? key = some t)
    (h : FailsEarlier front (.literal .string key :: args) scope depth e) :
    ((scope.translate t).runAt depth).1 = .error e := by
  induction h with
  | front hdepth hfront => exact translate_error_of_front hasks hdepth hfront
  | args hdepth hfront hargs =>
      apply translate_error_of_call hasks (by omega) hfront
      exact evalExpr_error_of_args hdepth hargs
  | again hdepth hfront hargs _ ih =>
      apply translate_error_of_call hasks (by omega) hfront
      apply evalExpr_error_of_round hdepth hargs _ (ih hfound)
      rwa [key_ofArguments hargs]

/-- A translation that asks for itself comes to the limit if nothing fails earlier. -/
theorem translate_tooDeep_or_failsEarlier (hfound : scope.table.find? key = some t) (depth : Nat) :
    ((scope.translate t).runAt depth).1 = .error (.tooDeep scope.limit) ∨
      ∃ e, FailsEarlier front (.literal .string key :: args) scope depth e := by
  -- A round takes two levels, and the induction is on those that are left.
  induction hlevels : scope.limit - depth using Nat.strongRecOn generalizing scope depth with
  | ind levels ih =>
      by_cases hdepth : scope.limit ≤ depth
      · left
        rw [translate, (scope.steady_choose t).outcome_bind, choose_eq, Eval.outcome_deeper,
          if_pos hdepth]
        rfl
      cases hfront : ((front.mapM (fragment evaluators scope)).runAt (depth + 1)).1 with
      | error e => exact .inr ⟨e, .front (by omega) hfront⟩
      | ok before =>
          have hcall := translate_error_of_call hasks (by omega) hfront (e := .tooDeep scope.limit)
          by_cases hnext : scope.limit ≤ depth + 1
          · left
            apply hcall
            rw [evalExpr_eq, Eval.outcome_deeper, if_pos hnext]
          cases hargs : (((.literal .string key :: args).mapM scope.evalExpr).runAt
              (depth + 2)).1 with
          | error e => exact .inr ⟨e, .args (by omega) hfront hargs⟩
          | ok values =>
              let inner : Scope := { scope with vars := (Message.ofArguments values).vars }
              have hinner : inner.table.find? key = some t := hfound
              obtain hround | ⟨e, hround⟩ :=
                ih (scope.limit - (depth + 2)) (by omega) hinner (depth + 2) rfl
              · left
                apply hcall
                apply evalExpr_error_of_round (by omega) hargs _ hround
                rwa [key_ofArguments hargs]
              · exact .inr ⟨e, .again (by omega) hfront hargs hround⟩

/-- A translation that asks for itself fails, either for its depth or with the error of what fails
earlier. -/
theorem exists_error_of_asks (scope : Scope) (hfound : scope.table.find? key = some t)
    (depth : Nat) :
    ∃ e, ((scope.translate t).runAt depth).1 = .error e ∧ (e = .tooDeep scope.limit ∨
      (∀ n, e ≠ .tooDeep n) ∧ FailsEarlier front (.literal .string key :: args) scope depth e) := by
  obtain hdeep | ⟨e, hearlier⟩ := translate_tooDeep_or_failsEarlier hasks hfound depth
  · exact ⟨_, hdeep, .inl rfl⟩
  · have he := hearlier.translate_error hasks hfound
    refine ⟨e, he, ?_⟩
    by_cases hnames : ∃ n, e = .tooDeep n
    · obtain ⟨n, rfl⟩ := hnames
      rw [scope.names_translate t depth n he]
      exact .inl rfl
    · exact .inr ⟨not_exists.mp hnames, hearlier⟩

end Run

end Scope

/-- Evaluation ends, whatever the translations are that ask for each other: the recursion that it is
takes as many calls inside of each other as there are levels left, and one more, with all steps
below the limit. It raises no alarm.

And a message whose translation asks for itself without a condition has no translation. It fails
with the error that names the limit, unless something else fails earlier, and then with that
error. -/
theorem Catalog.runaway_ends :
    (∀ (alarm : EvalError) (scope : Scope) (depth fuel : Nat), scope.limit - depth < fuel →
      (∀ n, (nodeFueled alarm fuel scope n).runAt depth = (scope.evalNode n).runAt depth) ∧
      ∀ t, (chooseFueled alarm fuel scope t).runAt depth = (scope.choose t).runAt depth) ∧
    ∀ (c : Catalog) (format : Format) (locale : String) (table : Table) (m : Message)
      (t : Translation) (front : Template) (args : List Expr),
      c.snapshot.tables.find? locale = some table → m.key ≠ "" → table.find? m.key = some t →
      t.Asks m.key front args →
      let earlier := (c.scope format locale m.vars table).FailsEarlier front
        (.literal .string m.key :: args) 0
      let failed (e : EvalError) : Prop :=
        c.translate format locale m = .error ⟨m.key, locale, m.debugText, .failed e⟩
      (∃ e, failed e ∧
        (e = .tooDeep c.settings.maxDepth ∨ (∀ n, e ≠ .tooDeep n) ∧ earlier e)) ∧
      ∀ e, earlier e → failed e := by
  constructor
  · intro alarm scope depth fuel hfuel
    have hrelated := related_fueled alarm hfuel
    constructor
    · intro n
      exact (hrelated.node scope n rfl).2.symm
    · intro t
      exact (hrelated.choose scope t rfl).2.symm
  · intro c format locale table m t front args hloaded hkey hfound hasks
    have hfailed : ∀ e, (((c.scope format locale m.vars table).translate t).runAt 0).1 = .error e →
        c.translate format locale m = .error ⟨m.key, locale, m.debugText, .failed e⟩ :=
      fun e => translate_of_error hloaded hkey hfound
    constructor
    · obtain ⟨e, he, hcause⟩ :=
        (c.scope format locale m.vars table).exists_error_of_asks hasks hfound 0
      exact ⟨e, hfailed e he, hcause⟩
    · intro e he
      exact hfailed e (he.translate_error hasks hfound)

/-- A translation that asks for itself, behind a slice of its value. What it asks with is the option
that it was asked with. -/
def chorus : Translation :=
  .ofTemplate [.text "again ", .expr (.slice (.ident "value") (.literal .int "0") none),
    .expr (.call (.func .translate) [.literal .string "chorus", .ident "opt"]), .text "!"]

theorem asks_chorus : chorus.Asks "chorus"
    [.text "again ", .expr (.slice (.ident "value") (.literal .int "0") none)] [.ident "opt"] :=
  ⟨rfl, [.text "!"], rfl⟩

/-- A catalog with that translation, with a small limit for the depth. -/
def choruses : Catalog :=
  ⟨{ maxDepth := 9 }, Snapshot.empty.publish "en" (.ofList [("chorus", chorus)]) none⟩

/-- A message whose second round has a number for its value, which has no slices. -/
def numberedChorus : Message := ⟨"chorus", .ofList [("opt", .int 1)]⟩

theorem Catalog.runaway_ends_of_chorus :
    (nodeFueled .unexpectedRange 10 (choruses.scope .html "en" ∅ (.ofList [("chorus", chorus)]))
        (.fragment (.expr (.call (.func .translate) [.literal .string "chorus"])))).runAt 0 =
      (.error (.tooDeep 9), 0) ∧
    choruses.translate .html "en" (.ofKey "chorus") =
      .error ⟨"chorus", "en", "chorus", .failed (.tooDeep 9)⟩ ∧
    choruses.translate .html "en" numberedChorus =
      .error ⟨"chorus", "en", numberedChorus.debugText, .failed (.cannotSlice .int)⟩ := by
  obtain ⟨hends, hrunaway⟩ := runaway_ends
  refine ⟨?_, rfl, ?_⟩
  · exact ((hends .unexpectedRange _ 0 10 (by decide)).1 _).trans rfl
  · obtain ⟨-, hearlier⟩ := hrunaway choruses .html "en" (.ofList [("chorus", chorus)])
      numberedChorus chorus _ _ rfl (by decide) rfl asks_chorus
    apply hearlier
    exact .again (by decide) rfl rfl (.front (by decide) rfl)

end Phrasebook
