import Mathlib
import Phrasebook.Catalog.Suggestion

/-!
# The least number of edits

A text is turned into another one by keeping, inserting, deleting and replacing characters. The
entries of the rows that are computed are least numbers of edits between beginnings of the two
texts: each of them follows from those to the left and above, since the edits end with what is done
to the last characters (`Text.rowFrom_cons`). So the last entry is the least number of edits
between the texts (`Text.isLeast_editDistance`).
-/

namespace Phrasebook.Text

/-- A text is turned into another one by a number of edits: its characters are kept, or inserted,
deleted and replaced one by one. -/
inductive Edits : Nat → List Char → List Char → Prop where
  | done : Edits 0 [] []
  | keep {n : Nat} {source target : List Char} (c : Char) : Edits n source target →
      Edits n (c :: source) (c :: target)
  | insert {n : Nat} {source target : List Char} (d : Char) : Edits n source target →
      Edits (n + 1) source (d :: target)
  | delete {n : Nat} {source target : List Char} (c : Char) : Edits n source target →
      Edits (n + 1) (c :: source) target
  | replace {n : Nat} {source target : List Char} (c d : Char) : Edits n source target →
      Edits (n + 1) (c :: source) (d :: target)

namespace Edits

variable {m n : Nat} {source target source' target' : List Char}

/-- Two parts of a text are edited one after the other. -/
theorem append (h : Edits m source target) (h' : Edits n source' target') :
    Edits (m + n) (source ++ source') (target ++ target') := by
  induction h with
  | done => simpa using h'
  | keep c _ ih => exact .keep c ih
  | insert d _ ih => rw [Nat.add_right_comm]; exact .insert d ih
  | delete c _ ih => rw [Nat.add_right_comm]; exact .delete c ih
  | replace c d _ ih => rw [Nat.add_right_comm]; exact .replace c d ih

/-- Edits can be read from the end. -/
theorem reverse (h : Edits n source target) : Edits n source.reverse target.reverse := by
  induction h with
  | done => exact .done
  | keep c _ ih => simpa using ih.append (.keep c .done)
  | insert d _ ih => simpa using ih.append (.insert d .done)
  | delete c _ ih => simpa using ih.append (.delete c .done)
  | replace c d _ ih => simpa using ih.append (.replace c d .done)

theorem reverse_iff : Edits n source.reverse target.reverse ↔ Edits n source target :=
  ⟨fun h => by simpa using h.reverse, reverse⟩

end Edits

/-- The least number of edits, by what is done to the first characters. -/
def leastEdits : List Char → List Char → Nat
  | [], target => target.length
  | source, [] => source.length
  | c :: source, d :: target =>
    min (if c = d then leastEdits source target else leastEdits source target + 1)
      (min (leastEdits source (d :: target)) (leastEdits (c :: source) target) + 1)
termination_by source target => source.length + target.length

theorem leastEdits_nil (source : List Char) : leastEdits source [] = source.length := by
  cases source <;> simp [leastEdits]

theorem leastEdits_cons (c d : Char) (source target : List Char) :
    leastEdits (c :: source) (d :: target) =
      min (if c = d then leastEdits source target else leastEdits source target + 1)
        (min (leastEdits source (d :: target)) (leastEdits (c :: source) target) + 1) := by
  rw [leastEdits]

theorem Edits.insertAll (target : List Char) : Edits target.length [] target := by
  induction target with
  | nil => exact .done
  | cons d target ih => exact .insert d ih

theorem Edits.deleteAll (source : List Char) : Edits source.length source [] := by
  induction source with
  | nil => exact .done
  | cons c source ih => exact .delete c ih

theorem edits_leastEdits (source target : List Char) :
    Edits (leastEdits source target) source target := by
  induction source generalizing target with
  | nil => simpa [leastEdits] using Edits.insertAll target
  | cons c source ihSource =>
      induction target with
      | nil => simpa [leastEdits_nil] using Edits.deleteAll (c :: source)
      | cons d target ihTarget =>
          -- The least number is one of three, and each of them is reached by one more edit.
          rw [leastEdits_cons]
          rcases min_choice (if c = d then leastEdits source target else leastEdits source target + 1)
            (min (leastEdits source (d :: target)) (leastEdits (c :: source) target) + 1) with h | h
          · rw [h]
            split
            · next hsame => exact hsame ▸ (ihSource target).keep c
            · exact (ihSource target).replace c d
          · rw [h]
            rcases min_choice (leastEdits source (d :: target)) (leastEdits (c :: source) target)
              with h | h
            · rw [h]
              exact (ihSource (d :: target)).delete c
            · rw [h]
              exact ihTarget.insert d

/-- No edits are fewer. -/
theorem leastEdits_le {n : Nat} {source target : List Char} (h : Edits n source target) :
    leastEdits source target ≤ n := by
  induction h with
  | done => simp [leastEdits]
  | keep c _ ih =>
      rw [leastEdits_cons, if_pos rfl]
      exact (min_le_left _ _).trans ih
  | @insert n source target d _ ih =>
      cases source with
      | nil => simpa [leastEdits] using ih
      | cons c source =>
          rw [leastEdits_cons]
          omega
  | @delete n source target c _ ih =>
      cases target with
      | nil => simpa [leastEdits_nil] using ih
      | cons d target =>
          rw [leastEdits_cons]
          omega
  | replace c d _ ih =>
      rw [leastEdits_cons]
      split <;> omega

/-- The least numbers of edits between a source and the beginnings of a target, from the one that
ends in front of the rest of the target on. The source and what is in front of the rest are taken
from their ends. -/
def rowFrom (source front : List Char) : List Char → List Nat
  | [] => [leastEdits source front]
  | d :: rest => leastEdits source front :: rowFrom source (d :: front) rest

theorem rowFrom_eq (source front rest : List Char) :
    rowFrom source front rest = leastEdits source front :: (rowFrom source front rest).tail := by
  cases rest <;> rfl

/-- The entries of a row follow from the one in front of them and from the row above. -/
theorem editRowFrom_rowFrom (c : Char) (source front rest : List Char) :
    editRowFrom c (leastEdits (c :: source) front) rest (rowFrom source front rest) =
      (rowFrom (c :: source) front rest).tail := by
  induction rest generalizing front with
  | nil => rfl
  | cons d rest ih =>
      have habove := rowFrom_eq source (d :: front) rest
      have hentry := leastEdits_cons c d source front
      rw [rowFrom, habove, editRowFrom, ← hentry, ← habove, ih, rowFrom, List.tail_cons]
      exact (rowFrom_eq _ _ _).symm

theorem editRow_rowFrom (c : Char) (source target : List Char) :
    editRow target (rowFrom source [] target) c = rowFrom (c :: source) [] target := by
  have hfirst : (rowFrom source [] target).headD 0 + 1 = leastEdits (c :: source) [] := by
    rw [rowFrom_eq, List.headD_cons, leastEdits_nil, leastEdits_nil, List.length_cons]
  rw [editRow]
  simp only [hfirst]
  rw [editRowFrom_rowFrom]
  exact (rowFrom_eq _ _ _).symm

/-- Without a source, all characters are inserted. -/
theorem rowFrom_nil (front rest : List Char) :
    rowFrom [] front rest = List.range' front.length (rest.length + 1) := by
  induction rest generalizing front with
  | nil => simp [rowFrom, leastEdits]
  | cons d rest ih => simp [rowFrom, leastEdits, ih, List.range'_succ]

theorem getLastD_rowFrom (source front rest : List Char) :
    (rowFrom source front rest).getLastD 0 = leastEdits source (rest.reverse ++ front) := by
  induction rest generalizing front with
  | nil => rfl
  | cons d rest ih =>
      rw [List.reverse_cons, List.append_assoc, List.singleton_append, ← ih, rowFrom,
        rowFrom_eq source (d :: front)]
      rfl

theorem foldl_editRow (source front target : List Char) :
    source.foldl (editRow target) (rowFrom front [] target) =
      rowFrom (source.reverse ++ front) [] target := by
  induction source generalizing front with
  | nil => rfl
  | cons c source ih => simp [editRow_rowFrom, ih]

theorem editDistance_eq (source target : List Char) :
    editDistance source target = leastEdits source.reverse target.reverse := by
  have hfirst : List.range (target.length + 1) = rowFrom [] [] target := by
    rw [rowFrom_nil, List.range_eq_range']
    rfl
  rw [editDistance, hfirst, foldl_editRow, getLastD_rowFrom, List.append_nil, List.append_nil]

/-- The edit distance of two texts is the least number of edits that turn one into the other. -/
theorem isLeast_editDistance (source target : List Char) :
    IsLeast {n | Edits n source target} (editDistance source target) := by
  rw [editDistance_eq]
  constructor
  · exact Edits.reverse_iff.mp (edits_leastEdits _ _)
  · intro n h
    exact leastEdits_le (Edits.reverse_iff.mpr h)

end Phrasebook.Text
