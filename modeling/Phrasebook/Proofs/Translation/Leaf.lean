import Mathlib
import Phrasebook.Proofs.Translation.Choice
import Phrasebook.Proofs.Translation.Compilation

/-!
# What the values of a document mean

A value of a document is interpreted directly (`Leaf.meaning`), without a translation in between: a
string is its template, and what an array means depends on what its items mean and on whether the
first of them is a condition. The translation that the value is compiled to means the same, so
choosing from it gives what the value means.
-/

namespace Phrasebook.Translation

namespace Leaf

/-- The source of a condition: what stands behind its mark. -/
def conditionSource? : Json → Option String
  | .string s =>
    match s.toList with
    | 'i' :: 'f' :: ':' :: source => some (String.ofList source)
    | _ => none
  | _ => none

/-- The condition of a source, with whatever errors it has: the first fragment of its template. -/
def condition (source : String) : Node :=
  match (Template.read (Compiler.braced source)).1 with
  | f :: _ => .fragment f
  | [] => .template []

/-- The text of a string. -/
def text? : Json → Option String
  | .string s => some s
  | _ => none

/-- Whether a value is a string. -/
def isString (j : Json) : Bool := (text? j).isSome

/-- What an array means, by what its items mean. -/
def arrayMeaning (truth : Node → Except EvalError Bool) (items : List Json)
    (meanings : List Chosen) : Chosen :=
  match items.head?.bind conditionSource?, meanings with
  | some source, _ :: guarded :: others =>
    firstResult (gated (truth (condition source)) guarded :: others)
  | some _, _ => .ok none
  | none, [] => .ok none
  | none, [single] => single
  | none, _ =>
    if items.all isString then
      .ok (some (Template.read ("\n".intercalate (items.filterMap text?))).1)
    else firstResult meanings

/-- What a value of a document means, for given truths of conditions. -/
def meaning (truth : Node → Except EvalError Bool) : Json → Chosen
  | .string source => .ok (some (Template.read source).1)
  | .array items => arrayMeaning truth items (meanings truth items)
  | _ => .ok none
where
  /-- What the items of an array mean. -/
  meanings (truth : Node → Except EvalError Bool) : List Json → List Chosen
    | [] => []
    | j :: items => meaning truth j :: meanings truth items

theorem meanings_eq_map (truth : Node → Except EvalError Bool) (items : List Json) :
    meaning.meanings truth items = items.map (meaning truth) := by
  induction items with
  | nil => rfl
  | cons j items ih => rw [meaning.meanings, ih, List.map_cons]

section

variable (truth : Node → Except EvalError Bool) {first : Json}

theorem meaning_array (items : List Json) :
    meaning truth (.array items) = arrayMeaning truth items (items.map (meaning truth)) := by
  rw [meaning, meanings_eq_map]

theorem meaning_lone {source : String} (h : conditionSource? first = some source) :
    meaning truth (.array [first]) = .ok none := by
  simp [meaning_array, arrayMeaning, h]

theorem meaning_conditional {source : String} (h : conditionSource? first = some source)
    (guarded : Json) (others : List Json) :
    meaning truth (.array (first :: guarded :: others)) =
      firstResult (gated (truth (condition source)) (meaning truth guarded) ::
        others.map (meaning truth)) := by
  simp [meaning_array, arrayMeaning, h]

theorem meaning_single (h : conditionSource? first = none) :
    meaning truth (.array [first]) = meaning truth first := by
  simp [meaning_array, arrayMeaning, h]

/-- An array of several items without a condition is one template of several lines, or a group. -/
theorem meaning_several (h : conditionSource? first = none) (second : Json) (others : List Json) :
    meaning truth (.array (first :: second :: others)) =
      if (first :: second :: others).all isString then
        .ok (some (Template.read ("\n".intercalate ((first :: second :: others).filterMap text?))).1)
      else firstResult ((first :: second :: others).map (meaning truth)) := by
  simp only [meaning_array, arrayMeaning, List.head?_cons, Option.bind_some, h, List.map_cons]

end

theorem leadingCondition?_eq (j : Json) : Compiler.leadingCondition? j = conditionSource? j := by
  cases j with
  | string s =>
      simp only [Compiler.leadingCondition?, Compiler.conditionSource?, conditionSource?]
      split
      · next h =>
          obtain ⟨source, hsource⟩ := List.isPrefixOf_iff_prefix.mp h
          rw [← hsource]
          rfl
      · next h =>
          split
          · next source hsource =>
              rw [hsource] at h
              exact absurd rfl h
          · rfl
  | _ => rfl

theorem strings?_eq (items : List Json) :
    Compiler.strings? items = if items.all isString then some (items.filterMap text?) else none := by
  induction items with
  | nil => rfl
  | cons j items ih =>
      cases j with
      | string s =>
          rw [Compiler.strings?, ih]
          change _ = if items.all isString then some (s :: items.filterMap text?) else none
          cases items.all isString <;> rfl
      | _ => rfl

end Leaf

namespace Compiler

open Compile (Yields)

variable (c : Compiler) (key : String)

theorem yields_template (source : String) :
    Yields (c.template key source) fun t => t = (Template.read source).1 := by
  unfold template
  split
  · next t h => exact .pure (by rw [h])
  · next t errors _ h =>
      dsimp only
      split
      · exact .throw _
      · refine (Yields.trivial _).bind ?_
        intro _ _
        exact .pure (by rw [h])

theorem yields_condition (source : String) :
    Yields (c.condition key source) fun n => n = Leaf.condition source := by
  unfold Compiler.condition
  refine (yields_template c key (braced source)).bind ?_
  intro t ht
  rw [Leaf.condition, ← ht]
  cases t with
  | nil => exact .pure rfl
  | cons f fs => exact .pure rfl

/-- A translation is what a value of a document stands for. -/
structure Denotes (t : Translation) (j : Json) : Prop where
  exclusive : t.Exclusive
  meaning : ∀ truth, t.meaning truth = Leaf.meaning truth j

theorem exclusive_of_denotes {group : List Translation} {items : List Json}
    (h : List.Forall₂ Denotes group items) : ∀ t ∈ group, t.Exclusive := by
  induction h with
  | nil => simp
  | cons hfirst _ ih => exact List.forall_mem_cons.mpr ⟨hfirst.exclusive, ih⟩

theorem meanings_of_denotes {group : List Translation} {items : List Json}
    (h : List.Forall₂ Denotes group items) (truth : Node → Except EvalError Bool) :
    group.map (meaning truth) = items.map (Leaf.meaning truth) := by
  induction h with
  | nil => rfl
  | cons hfirst _ ih => rw [List.map_cons, List.map_cons, hfirst.meaning, ih]

/-- An array that starts with a condition is compiled to what denotes it if its items are. -/
theorem yields_conditional {first : Json} {source : String}
    (hsource : Leaf.conditionSource? first = some source) {act : Compile Translation}
    {items : List Json} {compiled : List (Compile Translation)}
    (h : List.Forall₂ (fun act j => Yields act (Denotes · j)) compiled items) :
    Yields (c.array key (first :: items) (act :: compiled)) (Denotes · (.array (first :: items))) := by
  unfold Compiler.array
  rw [List.head?_cons, Option.bind_some, Leaf.leadingCondition?_eq, hsource]
  refine (yields_condition c key source).bind ?_
  intro condition hcondition
  rw [hcondition]
  cases h with
  | nil => exact .pure ⟨.never, fun truth => (Leaf.meaning_lone truth hsource).symm⟩
  | @cons _ guarded _ others hguarded hothers =>
      refine hguarded.bind ?_
      intro t ht
      have hmeaning : ∀ truth, (t.guardedBy (Leaf.condition source)).meaning truth =
          gated (truth (Leaf.condition source)) (Leaf.meaning truth guarded) := by
        intro truth
        rw [meaning_guardedBy, ht.meaning]
      cases hothers with
      | nil =>
          refine .pure ⟨ht.exclusive.guardedBy _, fun truth => ?_⟩
          rw [hmeaning, Leaf.meaning_conditional truth hsource, List.map_nil,
            firstResult_singleton]
      | cons hother hothers =>
          refine (Yields.mapM_id (.cons hother hothers)).bind ?_
          intro group hgroup
          refine .pure ⟨.ofGroup ?_, fun truth => ?_⟩
          · exact List.forall_mem_cons.mpr
              ⟨ht.exclusive.guardedBy _, exclusive_of_denotes hgroup⟩
          · rw [meaning_ofGroup, List.map_cons, hmeaning, meanings_of_denotes hgroup,
              Leaf.meaning_conditional truth hsource]

/-- An array without a condition is compiled to what denotes it if its items are. -/
theorem yields_plain {first : Json} (hnone : Leaf.conditionSource? first = none)
    {act : Compile Translation} {items : List Json} {compiled : List (Compile Translation)}
    (hfirst : Yields act (Denotes · first))
    (h : List.Forall₂ (fun act j => Yields act (Denotes · j)) compiled items) :
    Yields (c.array key (first :: items) (act :: compiled)) (Denotes · (.array (first :: items))) := by
  unfold Compiler.array
  rw [List.head?_cons, Option.bind_some, Leaf.leadingCondition?_eq, hnone]
  cases h with
  | nil =>
      refine hfirst.mono ?_
      intro t ht
      exact ⟨ht.exclusive, fun truth => by rw [ht.meaning, Leaf.meaning_single truth hnone]⟩
  | @cons _ second _ others hsecond hothers =>
      simp only [Leaf.strings?_eq]
      by_cases hstrings : (first :: second :: others).all Leaf.isString
      · rw [if_pos hstrings]
        refine (yields_template c key _).bind ?_
        intro t ht
        refine .pure ⟨.ofTemplate t, fun truth => ?_⟩
        rw [meaning_ofTemplate, ht, Leaf.meaning_several truth hnone, if_pos hstrings]
      · rw [if_neg hstrings]
        refine (Yields.mapM_id (.cons hfirst (.cons hsecond hothers))).bind ?_
        intro group hgroup
        refine .pure ⟨.ofGroup (exclusive_of_denotes hgroup), fun truth => ?_⟩
        rw [meaning_ofGroup, meanings_of_denotes hgroup, Leaf.meaning_several truth hnone,
          if_neg hstrings]

/-- An array is compiled to what denotes it if its items are. -/
theorem yields_array {items : List Json} {compiled : List (Compile Translation)}
    (h : List.Forall₂ (fun act j => Yields act (Denotes · j)) compiled items) :
    Yields (c.array key items compiled) (Denotes · (.array items)) := by
  cases h with
  | nil => exact .pure ⟨.never, fun truth => rfl⟩
  | @cons act first compiled rest hfirst hrest =>
      cases hsource : Leaf.conditionSource? first with
      | some source => exact yields_conditional c key hsource hrest
      | none => exact yields_plain c key hsource hfirst hrest

/-- What a value of a document is compiled to denotes it. -/
theorem yields_leaf (j : Json) : Yields (c.leaf key j) (Denotes · j) := by
  induction j with
  | string source =>
      rw [leaf]
      refine (yields_template c key source).bind ?_
      intro t ht
      exact .pure ⟨.ofTemplate t, fun truth => by rw [meaning_ofTemplate, ht, Leaf.meaning]⟩
  | array items ih =>
      rw [leaf, leaves_eq_map]
      apply yields_array
      rw [List.forall₂_map_left_iff, List.forall₂_same]
      exact ih
  | null | bool | number | object => exact .throw _

end Compiler

/-- Choosing from what a value of a document is compiled to gives what the value means, unless the
limit is reached. It is not reached if there is room for all levels of the translation, and for the
conditions below them. No level of the translation has both a template and alternatives, and an
empty translation never gives a template. -/
theorem choose_leaf :
    (∀ (c : Compiler) (key : String) (j : Json) (issues issues' : List TemplateIssue)
        (t : Translation), (c.leaf key j).run issues = .ok (t, issues') →
      t.Exclusive ∧ ∀ (scope : Scope) (depth : Nat),
        (((scope.choose t).runAt depth).1 ≠ .error (.tooDeep scope.limit) →
          ((scope.choose t).runAt depth).1 = Leaf.meaning (scope.truth depth) j) ∧
        (depth + t.levels ≤ scope.limit →
          Leaf.meaning (scope.truth (depth + t.levels)) j ≠ .error (.tooDeep scope.limit) →
          ((scope.choose t).runAt depth).1 ≠ .error (.tooDeep scope.limit))) ∧
    ∀ t : Translation, t.isEmpty → ∀ (scope : Scope) (depth : Nat) (template : Template),
      ((scope.choose t).runAt depth).1 ≠ .ok (some template) := by
  constructor
  · intro c key j issues issues' t ht
    obtain ⟨hexclusive, hmeaning⟩ := Compiler.yields_leaf c key j issues t issues' ht
    refine ⟨hexclusive, fun scope depth => ⟨?_, ?_⟩⟩
    · intro hne
      rw [← hmeaning]
      exact (scope.approximates_meaning t (Nat.le_refl depth)).eq_of_ne hne
    · intro hroom hne
      rw [← hmeaning] at hne
      rw [← (scope.meaning_approximates t (Nat.le_refl _) hroom).eq_of_ne hne]
      exact hne
  · intro t hempty scope depth template h
    have hmeaning := scope.approximates_meaning t (Nat.le_refl depth)
    rw [h] at hmeaning
    exact meaning_ne_some_of_isEmpty hempty _ template (hmeaning.eq_of_ne (by simp)).symm

/-- Items in the singular, in the plural, and a text for none of them. -/
def items : Json :=
  .array [.string "if:n == 1", .string "one item",
    .array [.string "if:{ n }", .array [.string "if: n > 9", .string "many items"]],
    .array [.string "{n}", .string "items"]]

/-- Where there are twelve items. -/
def dozen : Scope := ⟨.html, "en", .ofList [("n", .int 12)], ∅, 20⟩

theorem choose_leaf_of_items :
    (∃ t, (Compiler.leaf ⟨"en", true⟩ "items" items).run [] = .ok (t, []) ∧ t.Exclusive ∧
      3 + t.levels ≤ dozen.limit ∧
      Leaf.meaning (dozen.truth (3 + t.levels)) items = .ok (some [.text "many items"]) ∧
      ((dozen.choose t).runAt 3).1 = Leaf.meaning (dozen.truth 3) items) ∧
    never.isEmpty ∧ ∀ template, ((dozen.choose never).runAt 3).1 ≠ .ok (some template) := by
  constructor
  · obtain ⟨t, ht, hlevels, hchosen⟩ :
        ∃ t, (Compiler.leaf ⟨"en", true⟩ "items" items).run [] = .ok (t, []) ∧ t.levels = 3 ∧
          ((dozen.choose t).runAt 6).1 = .ok (some [.text "many items"]) := ⟨_, rfl, rfl, rfl⟩
    obtain ⟨hexclusive, hchoose⟩ := choose_leaf.1 ⟨"en", true⟩ "items" items [] [] t ht
    have hroom : 3 + t.levels ≤ dozen.limit := by
      rw [hlevels]
      decide
    have hmeaning : Leaf.meaning (dozen.truth (3 + t.levels)) items =
        .ok (some [.text "many items"]) := by
      rw [hlevels, ← (hchoose dozen 6).1 (by simp [hchosen]), hchosen]
    refine ⟨t, ht, hexclusive, hroom, hmeaning, (hchoose dozen 3).1 ?_⟩
    exact (hchoose dozen 3).2 hroom (by simp [hmeaning])
  · exact ⟨rfl, choose_leaf.2 never rfl dozen 3⟩

end Phrasebook.Translation
