import Mathlib
import Phrasebook.Proofs.Evaluation.Failures
import Phrasebook.Proofs.Translation.Condition

/-!
# The sources of a translation

A leaf of a document is compiled from the sources of its templates and conditions (`Json.sources`).
If syntax errors are not accepted, each of them is accepted as a template, and what the translation
consists of are these templates and the fragments of them that are conditions. So what holds of all
expressions in the accepted sources holds of all expressions in the translation
(`Compiler.yields_everywhere`).
-/

namespace Phrasebook

open Translation (Compiler)

/-- The sources of the templates and conditions that an array is compiled from, by those of its
items. -/
def Json.arraySources (items : List Json) (sources : List (List String)) : List String :=
  match items.head?.bind Compiler.leadingCondition? with
  | some source => Compiler.braced source :: sources.tail.flatten
  | none =>
    match items, Compiler.strings? items with
    | _ :: _ :: _, some lines => ["\n".intercalate lines]
    | _, _ => sources.flatten

/-- The sources of the templates and conditions that a leaf of a document is compiled from. -/
def Json.sources : Json → List String
  | .string source => [source]
  | .array items => arraySources items (ofItems items)
  | _ => []
where
  /-- The sources of items, item by item. -/
  ofItems : List Json → List (List String)
    | [] => []
    | j :: items => j.sources :: ofItems items

theorem Json.sources.ofItems_eq_map (items : List Json) :
    ofItems items = items.map Json.sources := by
  induction items with
  | nil => rfl
  | cons j items ih => rw [ofItems, ih, List.map_cons]

/-- A property holds of all expressions in what a source is read as, if it is accepted. -/
def Template.ReadsTo (P : Expr → Prop) (source : String) : Prop :=
  ∀ t, Template.parse source = .ok t → t.Everywhere P

namespace Translation

variable {P : Expr → Prop}

theorem Everywhere.ofTemplate {t : Template} (h : t.Everywhere P) :
    (ofTemplate t).Everywhere P := by
  have hvalue : ∀ template ∈ (Translation.ofTemplate t).value, template.Everywhere P := by
    intro template htemplate
    cases htemplate
    exact h
  exact forall_mem_nodes.mpr
    ⟨by simp [Translation.ofTemplate], hvalue, by simp [Translation.ofTemplate]⟩

theorem Everywhere.ofGroup {group : List Translation} (h : ∀ t ∈ group, t.Everywhere P) :
    (ofGroup group).Everywhere P :=
  forall_mem_nodes.mpr ⟨by simp [Translation.ofGroup], by simp [Translation.ofGroup], h⟩

theorem Everywhere.never : never.Everywhere P := .ofGroup (by simp)

theorem Everywhere.guardedBy {t : Translation} (h : t.Everywhere P) {n : Node}
    (hn : n.Everywhere P) : (t.guardedBy n).Everywhere P := by
  rw [Translation.guardedBy]
  split
  · exact forall_mem_nodes.mpr ⟨by simpa using hn, by simp, List.forall_mem_singleton.mpr h⟩
  · obtain ⟨-, hrest⟩ := forall_mem_nodes.mp h
    exact forall_mem_nodes.mpr ⟨by simpa using hn, hrest⟩

namespace Compiler

open Compile (Yields)

variable (c : Compiler) (hstrict : c.strict = true) (key : String)

include hstrict

theorem yields_parse (source : String) :
    Yields (c.template key source) fun t => Template.parse source = .ok t := by
  cases hread : Template.read source with
  | mk t errors =>
      rw [template, Template.parse, hread]
      cases errors with
      | nil => exact .pure rfl
      | cons e errors =>
          simp only [hstrict, if_true]
          exact .throw _

theorem yields_condition_everywhere {source : String} (h : Template.ReadsTo P (braced source)) :
    Yields (c.condition key source) (·.Everywhere P) := by
  refine (yields_parse c hstrict key (braced source)).bind ?_
  intro t ht
  cases t with
  | nil => exact .pure (h [] ht)
  | cons f fs => exact .pure ((h _ ht).fragment (by simp))

theorem yields_template_everywhere {source : String} (h : Template.ReadsTo P source) :
    Yields (return ofTemplate (← c.template key source)) (·.Everywhere P) := by
  refine (yields_parse c hstrict key source).bind ?_
  intro t ht
  exact .pure (.ofTemplate (h t ht))

omit hstrict in
theorem yields_guarded {n : Node} (hn : n.Everywhere P) {compiled : List (Compile Translation)}
    (h : ∀ act ∈ compiled, Yields act (·.Everywhere P)) :
    Yields (guarded n compiled) (·.Everywhere P) := by
  cases compiled with
  | nil => exact .pure .never
  | cons first others =>
      obtain ⟨hfirst, hothers⟩ := List.forall_mem_cons.mp h
      cases others with
      | nil =>
          refine hfirst.bind ?_
          intro t ht
          exact .pure (ht.guardedBy hn)
      | cons second others =>
          refine hfirst.bind ?_
          intro t ht
          refine (Yields.forall_mapM_id hothers).bind ?_
          intro group hgroup
          exact .pure (.ofGroup (List.forall_mem_cons.mpr ⟨ht.guardedBy hn, hgroup⟩))

theorem yields_array_everywhere {items : List Json}
    (hitems : ∀ j ∈ items, (∀ s ∈ j.sources, Template.ReadsTo P s) →
      Yields (c.leaf key j) (·.Everywhere P))
    (h : ∀ s ∈ (Json.array items).sources, Template.ReadsTo P s) :
    Yields (c.leaf key (.array items)) (·.Everywhere P) := by
  have hall : ∀ {js : List Json}, js ⊆ items →
      (∀ s ∈ (js.map Json.sources).flatten, Template.ReadsTo P s) →
      ∀ act ∈ js.map (c.leaf key), Yields act (·.Everywhere P) := by
    intro js hsub hjs
    refine List.forall_mem_map.mpr fun j hj => hitems j (hsub hj) fun s hs => ?_
    exact hjs s (List.mem_flatten.mpr ⟨_, List.mem_map_of_mem hj, hs⟩)
  rw [Json.sources, Json.sources.ofItems_eq_map, Json.arraySources.eq_def] at h
  cases items with
  | nil => exact .pure .never
  | cons first others =>
      cases hsource : leadingCondition? first with
      | some source =>
          simp only [List.head?_cons, Option.bind_some, hsource, List.map_cons, List.tail_cons] at h
          obtain ⟨hcondition, hothers⟩ := List.forall_mem_cons.mp h
          rw [leaf_conditional c key hsource]
          refine (yields_condition_everywhere c hstrict key hcondition).bind ?_
          intro n hn
          exact yields_guarded hn (hall (List.subset_cons_self _ _) hothers)
      | none =>
          simp only [List.head?_cons, Option.bind_some, hsource] at h
          rw [leaf, leaves_eq_map, array.eq_def]
          simp only [List.head?_cons, Option.bind_some, hsource]
          cases others with
          | nil =>
              have hfirst : c.leaf key first ∈ [first].map (c.leaf key) := List.mem_singleton_self _
              exact hall (List.Subset.refl _) h _ hfirst
          | cons second others =>
              cases hstrings : strings? (first :: second :: others) with
              | some lines =>
                  rw [hstrings] at h
                  exact yields_template_everywhere c hstrict key (List.forall_mem_singleton.mp h)
              | none =>
                  rw [hstrings] at h
                  refine (Yields.forall_mapM_id (hall (List.Subset.refl _) h)).bind ?_
                  intro group hgroup
                  exact .pure (.ofGroup hgroup)

/-- What holds of all expressions in the accepted sources of a leaf holds of all expressions in what
the leaf is compiled to. -/
theorem yields_everywhere {j : Json} (h : ∀ s ∈ j.sources, Template.ReadsTo P s) :
    Yields (c.leaf key j) (·.Everywhere P) := by
  induction j with
  | string source =>
      rw [leaf]
      exact yields_template_everywhere c hstrict key (h source (by simp [Json.sources]))
  | array items ih => exact yields_array_everywhere c hstrict key ih h
  | null | bool | number | object => exact .throw _

end Compiler

end Translation

end Phrasebook
