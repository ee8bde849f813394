import Mathlib
import Phrasebook.Proofs.Translation.Compilation

/-!
# Strict and lenient compilation

A document is compiled in the same way whether templates with syntax errors are accepted or not,
up to the first such template: there the strict compilation stops, with the issue that the lenient
one goes on with. `Stricter` relates two compilations in this way, and the rules below follow the
ways in which compilations are put together.
-/

namespace Phrasebook.Translation

/-- What comes of a lenient compilation, by the issues before it, and what comes of the strict
one. -/
inductive Outcomes {α : Type} (locale : String) (issues : List TemplateIssue) :
    Except LoadError (α × List TemplateIssue) →
      Except LoadError (α × List TemplateIssue) → Prop where
  /-- Without an issue they are the same. -/
  | clean (a : α) : Outcomes locale issues (.ok (a, issues)) (.ok (a, issues))
  /-- The first issue is that which fails the strict one. All of them have syntax errors. -/
  | rejected (a : α) {i : TemplateIssue} {others : List TemplateIssue}
      (herrors : ∀ j ∈ i :: others, j.errors ≠ []) :
      Outcomes locale issues (.ok (a, issues ++ i :: others)) (.error (.rejected locale i))
  | failed (e : LoadError) : Outcomes locale issues (.error e) (.error e)
  /-- Both fail, but the strict one at an issue that comes before the failure of the other one. -/
  | rejectedBefore (e : LoadError) (i : TemplateIssue) :
      Outcomes locale issues (.error e) (.error (.rejected locale i))

namespace Outcomes

variable {α : Type} {locale : String} {issues : List TemplateIssue}
  {x y : Except LoadError (α × List TemplateIssue)}

/-- Where the strict compilation has stopped, it does not matter how the other one goes on. -/
theorem of_rejected {i : TemplateIssue} {others : List TemplateIssue}
    (h : Outcomes locale (issues ++ i :: others) x y) (herrors : ∀ j ∈ i :: others, j.errors ≠ []) :
    Outcomes locale issues x (.error (.rejected locale i)) := by
  cases h with
  | clean a => exact .rejected a herrors
  | failed e => exact .rejectedBefore e i
  | rejectedBefore e j => exact .rejectedBefore e i
  | @rejected a j more hmore =>
      rw [List.append_assoc, List.cons_append]
      apply rejected a
      intro k hk
      rw [← List.cons_append, List.mem_append] at hk
      exact hk.elim (herrors k) (hmore k)

/-- What follows on two compilations is related if it is so for all results and issues. -/
theorem andThen {β : Type} {f g : α → Compile β}
    (hfg : ∀ a issues, Outcomes locale issues ((f a).run issues) ((g a).run issues)) :
    Outcomes locale issues x y → Outcomes locale issues
      (match x with
        | .ok (a, issues) => (f a).run issues
        | .error e => .error e)
      (match y with
        | .ok (a, issues) => (g a).run issues
        | .error e => .error e) := by
  intro h
  cases h with
  | clean a => exact hfg a issues
  | rejected a herrors => exact (hfg a _).of_rejected herrors
  | failed e => exact .failed e
  | rejectedBefore e i => exact .rejectedBefore e i

theorem strict_eq {x y : Except LoadError (Table × List TemplateIssue)} :
    Outcomes locale [] x y →
    match x with
    | .ok (table, []) => y = .ok (table, [])
    | .ok (_, i :: _) => y = .error (.rejected locale i)
    | .error e => y = .error e ∨ ∃ i, y = .error (.rejected locale i) := by
  intro h
  cases h with
  | clean a => rfl
  | rejected a herrors => rfl
  | failed e => exact .inl rfl
  | rejectedBefore e i => exact .inr ⟨i, rfl⟩

theorem strict_ok_iff (h : Outcomes locale [] x y) {a : α} :
    y = .ok (a, issues) ↔ issues = [] ∧ x = .ok (a, []) := by
  cases h with
  | clean a' => simp [and_comm, eq_comm]
  | rejected | failed | rejectedBefore => simp

theorem errors_ne_nil (h : Outcomes locale [] x y) {a : α} (hx : x = .ok (a, issues)) :
    ∀ i ∈ issues, i.errors ≠ [] := by
  cases h with
  | clean a' =>
      cases hx
      simp
  | rejected a' herrors =>
      cases hx
      exact herrors
  | failed | rejectedBefore => cases hx

end Outcomes

/-- The second compilation is the strict form of the first one. -/
def Compile.Stricter {α : Type} (locale : String) (lenient strict : Compile α) : Prop :=
  ∀ issues, Outcomes locale issues (lenient.run issues) (strict.run issues)

namespace Compile.Stricter

variable {α β : Type} {locale : String}

theorem pure (a : α) : Stricter locale (pure a) (pure a) := fun _ => .clean a

theorem throw (e : LoadError) : Stricter (α := α) locale (throw e) (throw e) := fun _ => .failed e

theorem bind {lenient strict : Compile α} {f g : α → Compile β}
    (first : Stricter locale lenient strict) (rest : ∀ a, Stricter locale (f a) (g a)) :
    Stricter locale (lenient >>= f) (strict >>= g) := by
  intro issues
  rw [run_bind, run_bind]
  exact Outcomes.andThen rest (first issues)

theorem congruence (locale : String) : Compile.Congruence fun _ => Stricter locale where
  pure := .pure
  throw := .throw
  bind := .bind

end Compile.Stricter

namespace Compiler

open Compile (Stricter)

variable (locale : String)

theorem stricter_template (key source : String) :
    Stricter locale (template ⟨locale, false⟩ key source) (template ⟨locale, true⟩ key source) := by
  unfold template
  split
  · exact .pure _
  · next t errors hread _ =>
      intro issues
      apply Outcomes.rejected t
      intro j hj
      rw [List.mem_singleton.mp hj]
      exact hread

theorem stricter_table (document : Json) :
    Stricter locale (table ⟨locale, false⟩ document) (table ⟨locale, true⟩ document) := by
  have hlocale : (⟨locale, true⟩ : Compiler).locale = (⟨locale, false⟩ : Compiler).locale := rfl
  exact related_table (Stricter.congruence locale) hlocale (stricter_template locale) document

end Compiler

end Phrasebook.Translation

namespace Phrasebook.Table

open Translation

theorem outcomes_read (locale document : String) :
    Outcomes locale [] (read locale document false) (read locale document true) := by
  unfold read
  split
  · exact Compiler.stricter_table locale _ []
  · exact .failed _

/-- A document is read strictly where it is read leniently without issues, and then the tables are
the same. Otherwise the first issue fails it, unless something else fails it before or in any
case. -/
theorem read_strict (locale document : String) :
    match read locale document false with
    | .ok (table, []) => read locale document true = .ok (table, [])
    | .ok (_, i :: _) => read locale document true = .error (.rejected locale i)
    | .error e => read locale document true = .error e ∨
        ∃ i, read locale document true = .error (.rejected locale i) :=
  (outcomes_read locale document).strict_eq

/-- Only documents without issues are read strictly. -/
theorem read_strict_ok_iff {locale document : String} {table : Table}
    {issues : List TemplateIssue} :
    read locale document true = .ok (table, issues) ↔
      issues = [] ∧ read locale document false = .ok (table, []) :=
  (outcomes_read locale document).strict_ok_iff

/-- Every issue of a document has a syntax error. -/
theorem errors_ne_nil_of_read {locale document : String} {table : Table}
    {issues : List TemplateIssue} (h : read locale document false = .ok (table, issues)) :
    ∀ i ∈ issues, i.errors ≠ [] :=
  (outcomes_read locale document).errors_ne_nil h

end Phrasebook.Table
