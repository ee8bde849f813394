import Mathlib
import Phrasebook.Catalog.Translate
import Phrasebook.Proofs.Evaluation.Calls

/-!
# Messages inside of other messages

A template that asks for a message gets the text that the catalog has for the message: the empty
text if the catalog finds none, and the error if evaluation of it fails. The catalog starts at the
top, with a depth of zero, where the template has come down to some depth already. So the template
may fail for the depth where the catalog does not, and that is the only difference.
-/

namespace Phrasebook

open Evaluation

namespace Scope

theorem steady_translate (scope : Scope) (t : Translation) : (scope.translate t).Steady := by
  apply (scope.steady_choose t).bind
  intro chosen
  cases chosen with
  | none => exact fun _ => rfl
  | some template => exact (scope.steady_evalNode _).bind fun _ _ => rfl

theorem steady_fragment (scope : Scope) (f : Fragment) : (fragment evaluators scope f).Steady := by
  rw [fragment.eq_def]
  split
  · exact fun _ => rfl
  · exact scope.steady_evalNode _

theorem steady_fragments (scope : Scope) (t : Template) :
    (t.mapM (fragment evaluators scope)).Steady :=
  Eval.congruence_steady.mapM (g := fragment evaluators scope) fun f _ => scope.steady_fragment f

theorem outcome_translate_of_unconditional {t : Translation} {template : Template}
    (hcondition : t.condition = none) (hvalue : t.value = some template) (scope : Scope)
    (depth : Nat) :
    ((scope.translate t).runAt depth).1 = ((scope.eval template).runAt depth).1.map some := by
  have hchoice : choice evaluators scope t = pure (some template) := by
    rw [choice, hcondition, hvalue]
    rfl
  rw [translate, (scope.steady_choose t).outcome_bind, choose_eq, Eval.outcome_deeper, hchoice]
  by_cases hdepth : scope.limit ≤ depth
  · rw [if_pos hdepth, eval, evalNode_eq, Eval.outcome_deeper, if_pos hdepth]
    rfl
  · rw [if_neg hdepth]
    show ((scope.eval template >>= _ : Eval (Option Value)).runAt depth).1 = _
    have hsteady : (scope.eval template).Steady := scope.steady_evalNode _
    rw [hsteady.outcome_bind]
    cases ((scope.eval template).runAt depth).1 <;> rfl

/-- From a greater depth a translation has the value that it has from a smaller one, unless it fails
for its depth. -/
theorem approximates_translate (scope : Scope) (t : Translation) {deep shallow : Nat}
    (hle : shallow ≤ deep) :
    Eval.Approximates scope.limit ((scope.translate t).runAt deep).1
      ((scope.translate t).runAt shallow).1 := by
  unfold translate
  rw [(scope.steady_choose t).outcome_bind, (scope.steady_choose t).outcome_bind]
  apply (scope.approximates_choose t hle).bind
  intro chosen
  cases chosen with
  | none => exact .refl _
  | some template =>
      have hsteady : (scope.eval template).Steady := scope.steady_evalNode _
      simp only [hsteady.outcome_bind]
      apply (scope.approximates_evalNode _ hle).bind
      intro v
      exact .refl _

/-- What a template gets for the value of a translation. -/
def inserted (format : Format) (value : Option Value) : Value :=
  value.elim .empty fun v => .raw (format.render v)

/-- A template that asks for a translation inserts the value that it has in its own scope. -/
theorem translation_eq {key value option : Value} {t : Translation}
    (h : scope.table.find? (Message.nested key value option).key = some t) :
    translation evaluators scope key value option =
      Eval.isolated do
        let value ← translate { scope with vars := (Message.nested key value option).vars } t
        return inserted scope.format value := by
  simp only [translation, h, translate, bind_assoc]
  congr 1
  apply congrArg
  funext chosen
  cases chosen <;> simp [inserted, eval]

end Scope

namespace Catalog

variable (c : Catalog) (format : Format) (locale : String)

/-- What a template gets that asks for a message, by the translation of the message. -/
def asked : Except TranslateError String → Except EvalError Value
  | .ok text => .ok (.raw text)
  | .error ⟨_, _, _, .notFound _⟩ => .ok .empty
  | .error ⟨_, _, _, .failed e⟩ => .error e

/-- Every error names the message and the locale, and carries the text in place of a translation. -/
theorem translate_error {m : Message} {e : TranslateError}
    (h : c.translate format locale m = .error e) :
    e = ⟨m.key, locale, m.debugText, e.cause⟩ := by
  unfold translate at h
  simp only at h
  split at h
  · cases h
  · split at h
    · cases h
      rfl
    · split at h
      · cases h
        rfl
      · split at h
        · cases h
        · cases h
          rfl
        · cases h
          rfl

variable {c format locale} {table : Table} (hloaded : c.snapshot.tables.find? locale = some table)

include hloaded

theorem asked_translate_of_missing {m : Message} (hkey : m.key ≠ "")
    (hmissing : table.find? m.key = none) :
    asked (c.translate format locale m) = .ok .empty := by
  simp only [translate, if_neg hkey, hloaded, hmissing, asked]

theorem asked_translate_of_found {m : Message} {t : Translation} (hkey : m.key ≠ "")
    (hfound : table.find? m.key = some t) :
    asked (c.translate format locale m) =
      (((c.scope format locale m.vars table).translate t).runAt 0).1.map
        (Scope.inserted format) := by
  simp only [translate, if_neg hkey, hloaded, hfound]
  rcases (((c.scope format locale m.vars table).translate t).runAt 0).1 with e | _ | v <;> rfl

/-- A message fails if evaluation of its translation does. -/
theorem translate_of_error {m : Message} {t : Translation} {e : EvalError} (hkey : m.key ≠ "")
    (hfound : table.find? m.key = some t)
    (he : (((c.scope format locale m.vars table).translate t).runAt 0).1 = .error e) :
    c.translate format locale m = .error ⟨m.key, locale, m.debugText, .failed e⟩ := by
  simp only [translate, if_neg hkey, hloaded, hfound, he]

/-- Asking for a message at a depth comes to the translation of the message by the catalog, unless
it fails for the depth. -/
theorem approximates_asked (vars : Vars) {key value option : Value} (depth : Nat)
    (hkey : (Message.nested key value option).key ≠ "") :
    Eval.Approximates c.settings.maxDepth
      ((translation evaluators (c.scope format locale vars table) key value option).runAt depth).1
      (asked (c.translate format locale (Message.nested key value option))) := by
  cases hfind : table.find? (Message.nested key value option).key with
  | none =>
      have hnone : translation evaluators (c.scope format locale vars table) key value option =
          pure .empty := by
        simp only [translation, scope, hfind]
      rw [asked_translate_of_missing hloaded hkey hfind, hnone]
      exact .refl _
  | some t =>
      let inner := c.scope format locale (Message.nested key value option).vars table
      rw [asked_translate_of_found hloaded hkey hfind, Scope.translation_eq hfind]
      show Eval.Approximates _ (Eval.runAt (inner.translate t >>= _) depth).1 _
      rw [(inner.steady_translate t).outcome_bind]
      exact (inner.approximates_translate t (Nat.zero_le depth)).map (Scope.inserted format)

/-- A call that asks for a translation, at any depth, comes to the translation of its message by the
catalog, unless it fails for the depth. -/
theorem approximates_call (vars : Vars) {depth : Nat} {callee : Expr} {args : List Expr}
    {values : List Value}
    (hcalls : (c.scope format locale vars table).Calls (depth + 1) callee .translate)
    (hargs : ((args.mapM (c.scope format locale vars table).evalExpr).runAt (depth + 1)).1 =
      .ok values)
    (hkey : (Message.ofArguments values).key ≠ "") :
    Eval.Approximates c.settings.maxDepth
      (((c.scope format locale vars table).evalExpr (.call callee args)).runAt depth).1
      (asked (c.translate format locale (.ofArguments values))) := by
  rw [hcalls.outcome_evalExpr hargs, Eval.outcome_deeper]
  split
  · exact .tooDeep
  · exact approximates_asked hloaded vars (depth + 1) hkey

end Catalog

/-- A call that asks for a translation agrees with the catalog on the message: a raw text is the
text that the catalog has for the message; the empty text, which is all it can be otherwise, stands
for a message that the catalog does not find; and an error, unless it is that of the depth, is one
that fails the message. -/
theorem Catalog.nested_translate (c : Catalog) (format : Format) (locale : String) {table : Table}
    (hloaded : c.snapshot.tables.find? locale = some table) (vars : Vars) (depth : Nat)
    {callee : Expr} {args : List Expr} {values : List Value}
    (hcalls : (c.scope format locale vars table).Calls (depth + 1) callee .translate)
    (hargs : ((args.mapM (c.scope format locale vars table).evalExpr).runAt (depth + 1)).1 =
      .ok values)
    (hkey : (Message.ofArguments values).key ≠ "") :
    let m := Message.ofArguments values
    match (((c.scope format locale vars table).evalExpr (.call callee args)).runAt depth).1 with
    | .ok (.raw text) => c.translate format locale m = .ok text
    | .ok v => v = .empty ∧ ∃ suggestions,
        c.translate format locale m = .error ⟨m.key, locale, m.debugText, .notFound suggestions⟩
    | .error e => e = .tooDeep c.settings.maxDepth ∨
        c.translate format locale m = .error ⟨m.key, locale, m.debugText, .failed e⟩ := by
  obtain h | h := approximates_call hloaded vars hcalls hargs hkey
  · rw [h]
    exact .inl rfl
  · rw [h]
    cases htranslate : c.translate format locale (.ofArguments values) with
    | ok text => exact htranslate
    | error e =>
        have he := translate_error c format locale htranslate
        obtain ⟨key, locale', rendered, cause⟩ := e
        cases cause with
        | notFound suggestions => exact ⟨rfl, suggestions, htranslate.trans (congrArg _ he)⟩
        | failed e => exact .inr (htranslate.trans (congrArg _ he))

/-- A table with the colour of apples. -/
def orchard : Table := .ofList
  [("apples", .ofTemplate [.expr (.ident "value"), .text " apples"])]

/-- A catalog with that table, with a small limit for the depth. -/
def orchards : Catalog := ⟨{ maxDepth := 16 }, Snapshot.empty.publish "en" orchard none⟩

/-- What the messages of the catalog are evaluated in. -/
def orchardScope : Scope := orchards.scope .html "en" ∅ orchard

/-- The function for translations, which is called by its name three levels down. -/
theorem Catalog.nested_translate_of_orchard :
    orchards.snapshot.tables.find? "en" = some orchard ∧
      orchardScope.Calls 4 (.literal .string "t") .translate ∧
      (([.literal .string "apples", .literal .string "red"].mapM orchardScope.evalExpr).runAt 4).1 =
        .ok [.text "apples", .text "red"] ∧
      ((orchardScope.evalExpr (.call (.literal .string "t")
        [.literal .string "apples", .literal .string "red"])).runAt 3).1 = .ok (.raw "red apples") ∧
      orchards.translate .html "en" (.ofArguments [.text "apples", .text "red"]) =
        .ok "red apples" := by
  have hcalls : orchardScope.Calls 4 (.literal .string "t") .translate :=
    .named (by simp) rfl rfl
  have hargs : (([.literal .string "apples", .literal .string "red"].mapM
      orchardScope.evalExpr).runAt 4).1 = .ok [.text "apples", .text "red"] := rfl
  have hcall : ((orchardScope.evalExpr (.call (.literal .string "t")
      [.literal .string "apples", .literal .string "red"])).runAt 3).1 =
        .ok (.raw "red apples") := rfl
  have htranslate := nested_translate orchards .html "en" rfl ∅ 3 hcalls hargs
    (by decide)
  rw [← orchardScope, hcall] at htranslate
  exact ⟨rfl, hcalls, hargs, hcall, htranslate⟩

end Phrasebook
