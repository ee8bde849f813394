import Mathlib
import Phrasebook.Translation.Compile

/-!
# What compilation yields

`Compile.Yields act Q` is partial correctness of a compilation: whenever it is accepted, with
whatever issues before it, what it yields satisfies `Q`. The rules follow the ways in which
compilations are put together.

A relation between compilations that respects these ways (`Compile.Congruence`) holds between two
compilations of a document as soon as it holds between those of its templates.
-/

namespace Phrasebook.Translation.Compile

variable {α β : Type} {Q : α → Prop} {R : β → Prop}

/-- A sequence goes on with the issues of its first part, unless that fails. -/
theorem run_bind (act : Compile α) (f : α → Compile β) (issues : List TemplateIssue) :
    (act >>= f).run issues =
      match act.run issues with
      | .ok (a, issues) => (f a).run issues
      | .error e => .error e := by
  have hbind : (act >>= f).run issues = (act.run issues >>= fun p => (f p.1).run p.2) := rfl
  rw [hbind]
  rcases act.run issues with e | ⟨a, issues⟩ <;> rfl

/-- Everything that a compilation yields has a property. Nothing is said about failing ones. -/
def Yields (act : Compile α) (Q : α → Prop) : Prop :=
  ∀ issues a issues', act.run issues = .ok (a, issues') → Q a

namespace Yields

theorem pure {a : α} (h : Q a) : Yields (pure a) Q := by
  intro issues b issues' hb
  cases hb
  exact h

theorem throw (e : LoadError) : Yields (throw e) Q := by
  intro issues a issues' ha
  cases ha

theorem bind {act : Compile α} {f : α → Compile β} (first : Yields act Q)
    (rest : ∀ a, Q a → Yields (f a) R) : Yields (act >>= f) R := by
  intro issues b issues' hb
  rw [run_bind] at hb
  cases h : act.run issues with
  | error e =>
      rw [h] at hb
      cases hb
  | ok p =>
      obtain ⟨a, inner⟩ := p
      rw [h] at hb
      exact rest a (first issues a inner h) inner b issues' hb

/-- What compilations yield one after the other, each with something that it belongs to. -/
theorem mapM_id {P : α → β → Prop} {acts : List (Compile α)} {xs : List β}
    (h : List.Forall₂ (fun act x => Yields act (P · x)) acts xs) :
    Yields (acts.mapM id) fun as => List.Forall₂ P as xs := by
  induction h with
  | nil => exact .pure .nil
  | cons hfirst _ ih =>
      rw [List.mapM_cons]
      refine hfirst.bind ?_
      intro a ha
      refine ih.bind ?_
      intro as has
      exact .pure (.cons ha has)

theorem forall_mapM_id {acts : List (Compile α)} (h : ∀ act ∈ acts, Yields act Q) :
    Yields (acts.mapM id) fun as => ∀ a ∈ as, Q a := by
  induction acts with
  | nil => exact .pure (by simp)
  | cons act acts ih =>
      obtain ⟨hact, hacts⟩ := List.forall_mem_cons.mp h
      rw [List.mapM_cons]
      refine hact.bind ?_
      intro a ha
      refine (ih hacts).bind ?_
      intro as has
      exact .pure (List.forall_mem_cons.mpr ⟨ha, has⟩)

theorem mono {Q' : α → Prop} {act : Compile α} (h : Yields act Q) (hQ : ∀ a, Q a → Q' a) :
    Yields act Q' :=
  fun issues a issues' ha => hQ a (h issues a issues' ha)

theorem trivial (act : Compile α) : Yields act fun _ => True := fun _ _ _ _ => True.intro

end Yields

/-- A relation between compilations that respects the ways in which they are put together. -/
structure Congruence (R : ∀ α : Type, Compile α → Compile α → Prop) : Prop where
  pure : ∀ {α : Type} (a : α), R α (pure a) (pure a)
  throw : ∀ {α : Type} (e : LoadError), R α (throw e) (throw e)
  bind : ∀ {α β : Type} {x y : Compile α} {f g : α → Compile β}, R α x y → (∀ a, R β (f a) (g a)) →
    R β (x >>= f) (y >>= g)

variable {S : ∀ α : Type, Compile α → Compile α → Prop}

theorem Congruence.mapM_id (h : Congruence S) {acts acts' : List (Compile α)}
    (hacts : List.Forall₂ (S α) acts acts') : S (List α) (acts.mapM id) (acts'.mapM id) := by
  induction hacts with
  | nil => exact h.pure _
  | cons hfirst _ ih =>
      rw [List.mapM_cons, List.mapM_cons]
      refine h.bind hfirst ?_
      intro a
      refine h.bind ih ?_
      intro as
      exact h.pure _

end Phrasebook.Translation.Compile

namespace Phrasebook.Translation.Compiler

theorem leaves_eq_map (c : Compiler) (key : String) (items : List Json) :
    leaf.leaves c key items = items.map (c.leaf key) := by
  induction items with
  | nil => rfl
  | cons j items ih => rw [leaf.leaves, ih, List.map_cons]

section Congruence

variable {R : ∀ α : Type, Compile α → Compile α → Prop} (congruence : Compile.Congruence R)
  {c c' : Compiler} (hlocale : c'.locale = c.locale)
  (htemplate : ∀ key source, R Template (c.template key source) (c'.template key source))

include congruence htemplate

theorem related_condition (key source : String) :
    R Node (c.condition key source) (c'.condition key source) := by
  refine congruence.bind (htemplate key (braced source)) ?_
  intro t
  cases t with
  | nil => exact congruence.pure _
  | cons f fs => exact congruence.pure _

theorem related_array (key : String) (items : List Json)
    {compiled compiled' : List (Compile Translation)}
    (h : List.Forall₂ (R Translation) compiled compiled') :
    R Translation (c.array key items compiled) (c'.array key items compiled') := by
  rw [array.eq_def, array.eq_def]
  split
  · refine congruence.bind (related_condition congruence htemplate key _) ?_
    intro condition
    cases h with
    | nil => exact congruence.pure _
    | cons _ hrest =>
        cases hrest with
        | nil => exact congruence.pure _
        | cons hguarded hothers =>
            refine congruence.bind hguarded ?_
            intro guarded
            cases hothers with
            | nil => exact congruence.pure _
            | cons hother hothers =>
                refine congruence.bind (congruence.mapM_id (.cons hother hothers)) ?_
                intro others
                exact congruence.pure _
  · cases h with
    | nil => exact congruence.pure _
    | cons hfirst hothers =>
        cases hothers with
        | nil => exact hfirst
        | cons hsecond hothers =>
            simp only
            split
            · refine congruence.bind (htemplate key _) ?_
              intro t
              exact congruence.pure _
            · refine congruence.bind (congruence.mapM_id (.cons hfirst (.cons hsecond hothers))) ?_
              intro group
              exact congruence.pure _

include hlocale

theorem related_leaf (key : String) (j : Json) : R Translation (c.leaf key j) (c'.leaf key j) := by
  induction j with
  | string source =>
      rw [leaf, leaf]
      refine congruence.bind (htemplate key source) ?_
      intro t
      exact congruence.pure _
  | array items ih =>
      rw [leaf, leaf, leaves_eq_map, leaves_eq_map]
      apply related_array congruence htemplate
      rw [List.forall₂_map_left_iff, List.forall₂_map_right_iff, List.forall₂_same]
      exact ih
  | null | bool | number | object =>
      rw [leaf.eq_def, leaf.eq_def, hlocale]
      exact congruence.throw _

theorem related_entries (key : String) (j : Json) :
    R (List (String × Translation)) (c.entries key j) (c'.entries key j) := by
  induction j generalizing key with
  | object members ih =>
      rw [entries, entries]
      induction members with
      | nil => exact congruence.pure _
      | cons member members ihMembers =>
          obtain ⟨name, value⟩ := member
          obtain ⟨hvalue, hmembers⟩ := List.forall_mem_cons.mp ih
          rw [entries.entriesOf, entries.entriesOf]
          refine congruence.bind (hvalue (joinKey key name)) ?_
          intro first
          refine congruence.bind (ihMembers hmembers) ?_
          intro others
          exact congruence.pure _
  | null | bool | number | string | array =>
      refine congruence.bind (related_leaf congruence hlocale htemplate key _) ?_
      intro t
      exact congruence.pure _

theorem related_table (document : Json) : R Table (c.table document) (c'.table document) := by
  cases document with
  | object members =>
      refine congruence.bind (related_entries congruence hlocale htemplate "" (.object members)) ?_
      intro entries
      exact congruence.pure _
  | null | bool | number | string | array =>
      rw [table.eq_def, table.eq_def, hlocale]
      exact congruence.throw _

end Congruence

end Phrasebook.Translation.Compiler
