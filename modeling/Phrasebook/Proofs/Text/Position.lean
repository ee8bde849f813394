import Mathlib
import Phrasebook.Template.SyntaxError

/-!
# Lines and columns

The place of an offset between two characters is found by going through the characters in front of
it: a line break leads to the first column of the next line, every other character to the next
column. So places are ordered as offsets are, line by line and within a line by columns
(`Text.strictMonoOn_lineColumn`).
-/

namespace Phrasebook.Text

@[simp] theorem placeAfter_nil : placeAfter [] = (1, 1) := rfl

theorem placeAfter_concat (before : List Char) (c : Char) :
    placeAfter (before ++ [c]) =
      if c = '\n' then ((placeAfter before).1 + 1, 1)
      else ((placeAfter before).1, (placeAfter before).2 + 1) := by
  by_cases h : c = '\n' <;> simp [placeAfter, h]

theorem placeAfter_lt_concat (before : List Char) (c : Char) :
    toLex (placeAfter before) < toLex (placeAfter (before ++ [c])) := by
  rw [placeAfter_concat, Prod.Lex.toLex_lt_toLex]
  split
  · exact .inl (Nat.lt_succ_self _)
  · exact .inr ⟨rfl, Nat.lt_succ_self _⟩

/-- Behind more characters is a later place. -/
theorem placeAfter_lt_append (before : List Char) {more : List Char} (h : more ≠ []) :
    toLex (placeAfter before) < toLex (placeAfter (before ++ more)) := by
  induction more generalizing before with
  | nil => exact absurd rfl h
  | cons c more ih =>
      have hstep := placeAfter_lt_concat before c
      cases more with
      | nil => exact hstep
      | cons d more =>
          have hrest := ih (before ++ [c]) (by simp)
          rw [List.append_assoc, List.singleton_append] at hrest
          exact hstep.trans hrest

theorem charsBefore_append (front back : List Char) :
    charsBefore (front ++ back) (String.utf8Len front) = some front := by
  induction front with
  | nil => cases back <;> rfl
  | cons c front ih =>
      have hpos := c.utf8Size_pos
      rw [String.utf8Len_cons, List.cons_append]
      obtain ⟨offset, hoffset⟩ : ∃ offset, String.utf8Len front + c.utf8Size = offset + 1 :=
        Nat.exists_eq_add_of_le' (by omega)
      rw [hoffset, charsBefore, if_pos (by omega), ← hoffset, Nat.add_sub_cancel, ih,
        Option.map_some]

theorem lineColumn_append (front back : String) :
    lineColumn (front ++ back) front.utf8ByteSize = placeAfter front.toList := by
  rw [lineColumn, String.toList_append, ← String.utf8Len_toList, charsBefore_append,
    Option.getD_some]

/-- The characters in front of an offset between two characters. -/
theorem exists_front {source : String} {offset : Nat}
    (h : String.Pos.Raw.IsValid source ⟨offset⟩) :
    ∃ front, front <+: source.toList ∧ String.utf8Len front = offset ∧
      lineColumn source offset = placeAfter front := by
  obtain ⟨front, back, rfl, hfront⟩ := String.Pos.Raw.isValid_iff_exists_append.mp h
  obtain rfl : offset = front.utf8ByteSize := congrArg String.Pos.Raw.byteIdx hfront
  exact ⟨front.toList, ⟨back.toList, String.toList_append.symm⟩, String.utf8Len_toList front,
    lineColumn_append front back⟩

/-- Places are strictly ordered as the offsets between characters are. -/
theorem strictMonoOn_lineColumn (source : String) :
    StrictMonoOn (fun offset => toLex (lineColumn source offset))
      {offset | String.Pos.Raw.IsValid source ⟨offset⟩} := by
  intro offset hoffset offset' hoffset' hlt
  obtain ⟨front, hprefix, rfl, hplace⟩ := exists_front hoffset
  obtain ⟨front', hprefix', rfl, hplace'⟩ := exists_front hoffset'
  -- Both are the start of the source, so the shorter one is the start of the longer one.
  obtain ⟨more, rfl⟩ : front <+: front' := by
    obtain hle | hle := List.prefix_or_prefix_of_prefix hprefix hprefix'
    · exact hle
    · obtain ⟨more, rfl⟩ := hle
      rw [String.utf8Len_append] at hlt
      omega
  have hne : more ≠ [] := by
    rintro rfl
    simp at hlt
  simp only [hplace, hplace']
  exact placeAfter_lt_append front hne

/-- A line break leads to the start of the next line, any other character to the next column. -/
theorem lineColumn_next (front back : String) (c : Char) :
    lineColumn (front.push c ++ back) (front.push c).utf8ByteSize =
      if c = '\n' then ((lineColumn (front.push c ++ back) front.utf8ByteSize).1 + 1, 1)
      else ((lineColumn (front.push c ++ back) front.utf8ByteSize).1,
        (lineColumn (front.push c ++ back) front.utf8ByteSize).2 + 1) := by
  have hsplit : front.push c ++ back = front ++ (String.singleton c ++ back) := by
    rw [← String.append_assoc, String.append_singleton]
  rw [lineColumn_append, hsplit, lineColumn_append, String.toList_push, placeAfter_concat]

end Phrasebook.Text
