import Mathlib
import Phrasebook.Text.Basic

/-!
# Splitting texts

A text is split in one pass, which carries the part that is being read and the parts before it. At a
separator of one character this comes to the usual splitting of a list.

Joining the parts gives back the text for every separator, also for one that overlaps itself
(`Text.intercalate_splitChars`). What carries the proofs is what the parts so far and the rest of
the text come to when they are joined, and that no occurrence of the separator starts in the part
that is being read.
-/

namespace Phrasebook.Text

theorem splitFrom_singleton (c : Char) (part : List Char) (done : List (List Char))
    (cs : List Char) :
    splitFrom [c] 0 part done cs =
      done.reverse ++ (cs.splitOn c).modifyHead (part.reverse ++ ·) := by
  induction cs generalizing part done with
  | nil => simp [splitFrom]
  | cons d cs ih =>
      have hprefix : [c].isPrefixOf (d :: cs) = (d == c) := by
        simp [List.isPrefixOf, Bool.beq_comm]
      rw [splitFrom, hprefix, List.splitOn_cons_eq_if_modifyHead]
      split
      · rw [List.length_singleton, Nat.sub_self, ih]
        have hwhole : (cs.splitOn c).modifyHead ([].reverse ++ ·) = cs.splitOn c :=
          congrFun List.modifyHead_id _
        rw [hwhole]
        simp
      · rw [ih, List.modifyHead_modifyHead]
        congr 2
        funext rest
        simp

theorem splitChars_singleton (c : Char) (cs : List Char) : splitChars [c] cs = cs.splitOn c := by
  rw [splitChars, if_neg (List.cons_ne_nil c []), splitFrom_singleton]
  exact congrFun List.modifyHead_id _

/-- With nothing between them, parts are put together. -/
theorem intercalate_nil_left (parts : List (List Char)) :
    [].intercalate parts = parts.flatten := by
  induction parts with
  | nil => rfl
  | cons first parts ih =>
      cases parts with
      | nil => simp
      | cons next parts =>
          rw [List.intercalate_cons_cons, ih, List.append_nil]
          rfl

/-- A part and the next one are joined like one part with the separator in it. -/
theorem intercalate_append_pair (separator : List Char) (parts : List (List Char))
    (part next : List Char) :
    separator.intercalate (parts ++ [part, next]) =
      separator.intercalate (parts ++ [part ++ separator ++ next]) := by
  induction parts with
  | nil => simp
  | cons first parts ih =>
      rw [List.cons_append, List.cons_append, List.intercalate_cons_of_ne_nil (by simp), ih,
        List.intercalate_cons_of_ne_nil (by simp)]

/-- Behind a separator at the front is what is left when one character less is passed over. -/
theorem drop_of_prefix {separator rest cs : List Char} {c : Char} (hne : separator ≠ [])
    (hrest : separator ++ rest = c :: cs) : cs.drop (separator.length - 1) = rest := by
  obtain ⟨d, more, rfl⟩ := List.exists_cons_of_ne_nil hne
  obtain ⟨-, rfl⟩ := List.cons.inj hrest
  simp

section Parts

variable {separator : List Char} (hne : separator ≠ [])

include hne

theorem intercalate_splitFrom (skip : Nat) (part : List Char) (done : List (List Char))
    (cs : List Char) :
    separator.intercalate (splitFrom separator skip part done cs) =
      separator.intercalate (done.reverse ++ [part.reverse ++ cs.drop skip]) := by
  fun_induction splitFrom separator skip part done cs with
  | case1 skip part done => simp
  | case2 skip part done c cs ih => simpa using ih
  | case3 part done c cs hprefix ih =>
      -- The part ends here, and the next one starts empty behind the separator.
      obtain ⟨rest, hrest⟩ := List.isPrefixOf_iff_prefix.mp hprefix
      rw [ih, drop_of_prefix hne hrest, List.reverse_cons, List.append_assoc, List.drop_zero,
        ← hrest, ← List.append_assoc part.reverse]
      exact intercalate_append_pair separator done.reverse part.reverse rest
  | case4 part done c cs hprefix ih => simpa using ih

end Parts

/-- The parts of a text, with the separator between them, are the text. -/
theorem intercalate_splitChars (separator cs : List Char) :
    separator.intercalate (splitChars separator cs) = cs := by
  rw [splitChars]
  split
  · next hnil => rw [hnil, intercalate_nil_left, ← List.flatMap_def, List.flatMap_singleton']
  · next hne =>
      rw [intercalate_splitFrom hne]
      simp

/-- No occurrence of the separator starts in a part that is being read, kept in reverse, in front of
the rest of a text. -/
def Clear (separator part cs : List Char) : Prop :=
  ∀ front back, part.reverse = front ++ back → back ≠ [] → ¬ separator <+: back ++ cs

namespace Clear

variable {separator part cs : List Char}

theorem nil (separator cs : List Char) : Clear separator [] cs := by
  rintro front back hpart hback
  exact absurd (List.append_eq_nil_iff.mp hpart.symm).2 hback

/-- A part that is complete does not contain the separator. -/
theorem not_infix (h : Clear separator part cs) (hne : separator ≠ []) :
    ¬ separator <:+: part.reverse := by
  rintro ⟨front, back, hpart⟩
  refine h front (separator ++ back) ?_ (by simp [hne]) ?_
  · rw [← hpart, List.append_assoc]
  · exact ⟨back ++ cs, by simp⟩

/-- Where the separator does not start, the part goes on. -/
theorem cons {c : Char} (h : Clear separator part (c :: cs)) (hstart : ¬ separator <+: c :: cs) :
    Clear separator (c :: part) cs := by
  intro front back hpart hback
  rw [List.reverse_cons] at hpart
  -- The new character is the last one of the part, and so of its end `back`. Either it is all of
  -- that, or the rest of `back` is an end of the part before.
  obtain rfl | ⟨inner, last, rfl⟩ := List.eq_nil_or_concat' back
  · exact absurd rfl hback
  rw [← List.append_assoc] at hpart
  obtain ⟨hinner, hlast⟩ := List.append_inj' hpart rfl
  obtain rfl : c = last := by simpa using hlast
  rw [List.append_assoc]
  by_cases hnil : inner = []
  · subst hnil
    exact hstart
  · exact h front inner hinner hnil

end Clear

theorem not_infix_of_mem_splitFrom {separator : List Char} (hne : separator ≠ []) {skip : Nat}
    {part : List Char} {done : List (List Char)} {cs : List Char}
    (hdone : ∀ p ∈ done, ¬ separator <:+: p) (hpart : Clear separator part (cs.drop skip)) :
    ∀ p ∈ splitFrom separator skip part done cs, ¬ separator <:+: p := by
  fun_induction splitFrom separator skip part done cs with
  | case1 skip part done =>
      intro p hp
      rcases List.mem_cons.mp (List.mem_reverse.mp hp) with rfl | hp
      · exact hpart.not_infix hne
      · exact hdone p hp
  | case2 skip part done c cs ih => exact ih hdone hpart
  | case3 part done c cs hprefix ih =>
      refine ih ?_ (.nil separator _)
      exact List.forall_mem_cons.mpr ⟨hpart.not_infix hne, hdone⟩
  | case4 part done c cs hprefix ih =>
      exact ih hdone (hpart.cons fun h => hprefix (List.isPrefixOf_iff_prefix.mpr h))

/-- No part of a text contains the separator. -/
theorem not_infix_of_mem_splitChars {separator cs p : List Char} (hne : separator ≠ [])
    (hp : p ∈ splitChars separator cs) : ¬ separator <:+: p := by
  rw [splitChars, if_neg hne] at hp
  exact not_infix_of_mem_splitFrom hne (by simp) (.nil separator _) p hp

theorem intercalate_split (s separator : String) :
    separator.intercalate (split s separator) = s := by
  have hchars : (split s separator).map String.toList = splitChars separator.toList s.toList := by
    simp [split, Function.comp_def]
  rw [← String.toList_inj, String.toList_intercalate, hchars, intercalate_splitChars]

theorem not_infix_of_mem_split {s separator p : String} (hne : separator ≠ "")
    (hp : p ∈ split s separator) : ¬ separator.toList <:+: p.toList := by
  obtain ⟨cs, hcs, rfl⟩ := List.mem_map.mp hp
  rw [String.toList_ofList]
  exact not_infix_of_mem_splitChars (mt String.toList_eq_nil_iff.mp hne) hcs

theorem split_empty (s : String) : split s "" = s.toList.map String.singleton := by
  show (s.toList.map fun c => [c]).map String.ofList = s.toList.map String.singleton
  rw [List.map_map]
  exact List.map_congr_left fun c _ => String.singleton_eq_ofList.symm

end Phrasebook.Text
