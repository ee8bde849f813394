import Mathlib
import Phrasebook.Proofs.Text.Quotation
import Phrasebook.Template.Print

/-!
# Symbolic expressions are read in one way

A symbolic expression is legible if each of its words is quoted, or is not empty and has neither
blanks nor parentheses nor quotes in it. Then the characters of the expression tell where it ends: a
bare word goes on up to a blank or a parenthesis, a quoted word up to its closing quote, and a list
up to its closing parenthesis. So no two legible expressions, and no two lists of them, are written
alike (`Symbolic.charsOfItems_inj`).
-/

namespace Phrasebook.Symbolic

open Text (quoteChars)

/-- The characters of words that are not quoted. -/
def isBare (c : Char) : Bool := c != ' ' && c != '(' && c != ')' && c != '"'

/-- All words of an expression are quoted, or not empty and bare. -/
inductive Legible : Symbolic → Prop where
  | bare {cs : List Char} : cs ≠ [] → (∀ c ∈ cs, isBare c) → Legible (.word cs)
  | quoted (cs : List Char) : Legible (.word (quoteChars cs))
  | list {items : List Symbolic} : (∀ item ∈ items, Legible item) → Legible (.list items)

/-- What a bare word does not go on with. -/
def Stops (xs : List Char) : Prop := ∀ c ∈ xs.head?, isBare c = false

/-- What a list does not go on with. -/
def Closes (xs : List Char) : Prop := ∀ c ∈ xs.head?, c = ')'

theorem Closes.stops {xs : List Char} (h : Closes xs) : Stops xs := by
  intro c hc
  rw [h c hc]
  rfl

/-- A legible expression starts with a character that closes no list. -/
theorem Legible.exists_cons {s : Symbolic} (h : s.Legible) :
    ∃ c rest, s.chars = c :: rest ∧ c ≠ ')' := by
  cases h with
  | @bare cs hne hbare =>
      obtain ⟨c, rest, rfl⟩ := List.exists_cons_of_ne_nil hne
      refine ⟨c, rest, by rw [chars], ?_⟩
      rintro rfl
      cases hbare ')' List.mem_cons_self
  | quoted cs => exact ⟨'"', _, by rw [chars, quoteChars], by decide⟩
  | list => exact ⟨'(', _, by rw [chars], by decide⟩

/-- The other items of a list stand behind blanks. -/
theorem charsOfItems_cons (item : Symbolic) (items : List Symbolic) :
    chars.charsOfItems (item :: items) = item.chars ++ items.flatMap fun i => ' ' :: i.chars := by
  induction items generalizing item with
  | nil => rw [chars.charsOfItems, List.flatMap_nil, List.append_nil]
  | cons next items ih => rw [chars.charsOfItems, ih, List.flatMap_cons, List.cons_append]; simp

/-- An expression is determined by any characters that start with it, and so is what stands behind
it. -/
def Determined (s : Symbolic) : Prop :=
  ∀ {t : Symbolic}, t.Legible → ∀ {xs ys : List Char}, Stops xs → Stops ys →
    s.chars ++ xs = t.chars ++ ys → s = t ∧ xs = ys

section Items

variable {items items' : List Symbolic} {xs ys : List Char}

theorem stops_flatMap (hxs : Closes xs) :
    Stops ((items.flatMap fun i => ' ' :: i.chars) ++ xs) := by
  cases items with
  | nil => exact hxs.stops
  | cons item items =>
      rintro c ⟨⟩
      rfl

/-- If each of several items is determined, so are all of them behind blanks. -/
theorem flatMap_append_inj (hitems : ∀ i ∈ items, Determined i) (hitems' : ∀ i ∈ items', Legible i)
    (hxs : Closes xs) (hys : Closes ys)
    (h : (items.flatMap fun i => ' ' :: i.chars) ++ xs =
      (items'.flatMap fun i => ' ' :: i.chars) ++ ys) : items = items' ∧ xs = ys := by
  induction items generalizing items' with
  | nil =>
      cases items' with
      | nil => exact ⟨rfl, h⟩
      | cons item' items' =>
          subst h
          cases hxs ' ' rfl
  | cons item items ih =>
      cases items' with
      | nil =>
          subst h
          cases hys ' ' rfl
      | cons item' items' =>
          obtain ⟨hitem, hothers⟩ := List.forall_mem_cons.mp hitems
          obtain ⟨hitem', hothers'⟩ := List.forall_mem_cons.mp hitems'
          simp only [List.flatMap_cons, List.cons_append, List.append_assoc, List.cons.injEq,
            true_and] at h
          obtain ⟨rfl, hbehind⟩ := hitem hitem' (stops_flatMap hxs) (stops_flatMap hys) h
          obtain ⟨rfl, hrest⟩ := ih hothers hothers' hbehind
          exact ⟨rfl, hrest⟩

/-- If each of several items is determined, so is a list of them. -/
theorem charsOfItems_append_inj (hitems : ∀ i ∈ items, i.Legible ∧ Determined i)
    (hitems' : ∀ i ∈ items', Legible i) (hxs : Closes xs) (hys : Closes ys)
    (h : chars.charsOfItems items ++ xs = chars.charsOfItems items' ++ ys) :
    items = items' ∧ xs = ys := by
  cases items with
  | nil =>
      cases items' with
      | nil => exact ⟨rfl, h⟩
      | cons item' items' =>
          obtain ⟨c, rest, hcs, hc⟩ := (hitems' item' List.mem_cons_self).exists_cons
          rw [charsOfItems_cons, hcs] at h
          subst h
          exact absurd (hxs c rfl) hc
  | cons item items =>
      obtain ⟨⟨hlegible, hitem⟩, hothers⟩ := List.forall_mem_cons.mp hitems
      cases items' with
      | nil =>
          obtain ⟨c, rest, hcs, hc⟩ := hlegible.exists_cons
          rw [charsOfItems_cons, hcs] at h
          subst h
          exact absurd (hys c rfl) hc
      | cons item' items' =>
          obtain ⟨hitem', hothers'⟩ := List.forall_mem_cons.mp hitems'
          rw [charsOfItems_cons, charsOfItems_cons, List.append_assoc, List.append_assoc] at h
          obtain ⟨rfl, hbehind⟩ := hitem hitem' (stops_flatMap hxs) (stops_flatMap hys) h
          obtain ⟨rfl, hrest⟩ :=
            flatMap_append_inj (fun i hi => (hothers i hi).2) hothers' hxs hys hbehind
          exact ⟨rfl, hrest⟩

end Items

/-- The first character tells bare words, quoted words and lists from each other. -/
theorem Legible.determined {s : Symbolic} (h : s.Legible) : Determined s := by
  induction h with
  | @bare cs hne hbare =>
      intro t ht xs ys hxs hys heq
      obtain ⟨c, rest, rfl⟩ := List.exists_cons_of_ne_nil hne
      have hc := hbare c List.mem_cons_self
      cases ht with
      | bare _ hbare' =>
          obtain ⟨rfl, hrest⟩ := Text.span_append_inj hbare hbare' hxs hys heq
          exact ⟨rfl, hrest⟩
      | quoted =>
          obtain ⟨rfl, -⟩ := List.cons_eq_cons.mp heq
          cases hc
      | list =>
          obtain ⟨rfl, -⟩ := List.cons_eq_cons.mp heq
          cases hc
  | quoted cs =>
      intro t ht xs ys hxs hys heq
      cases ht with
      | @bare ds hne hbare =>
          obtain ⟨d, rest, rfl⟩ := List.exists_cons_of_ne_nil hne
          obtain ⟨rfl, -⟩ := List.cons_eq_cons.mp heq
          cases hbare '"' List.mem_cons_self
      | quoted ds =>
          obtain ⟨rfl, hrest⟩ := Text.quoteChars_append_inj heq
          exact ⟨rfl, hrest⟩
      | list => cases heq
  | @list items hitems ih =>
      intro t ht xs ys hxs hys heq
      cases ht with
      | @bare ds hne hbare =>
          obtain ⟨d, rest, rfl⟩ := List.exists_cons_of_ne_nil hne
          obtain ⟨rfl, -⟩ := List.cons_eq_cons.mp heq
          cases hbare '(' List.mem_cons_self
      | quoted => cases heq
      | @list items' hitems' =>
          have hinner : chars.charsOfItems items ++ (')' :: xs) =
              chars.charsOfItems items' ++ (')' :: ys) := by
            simpa [chars] using heq
          have hclose : ∀ zs, Closes (')' :: zs) := by
            rintro zs c ⟨⟩
            rfl
          obtain ⟨rfl, hrest⟩ := charsOfItems_append_inj
            (fun i hi => ⟨hitems i hi, ih i hi⟩) hitems' (hclose xs) (hclose ys) hinner
          exact ⟨rfl, (List.cons_eq_cons.mp hrest).2⟩

/-- No two lists of legible expressions are written alike. -/
theorem charsOfItems_inj {items items' : List Symbolic} (hitems : ∀ i ∈ items, i.Legible)
    (hitems' : ∀ i ∈ items', i.Legible)
    (h : chars.charsOfItems items = chars.charsOfItems items') : items = items' := by
  have hnil : Closes [] := by
    rintro c ⟨⟩
  exact (charsOfItems_append_inj (fun i hi => ⟨hitems i hi, (hitems i hi).determined⟩) hitems' hnil
    hnil (by rw [h])).1

end Phrasebook.Symbolic
