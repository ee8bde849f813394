import Mathlib
import Phrasebook.Evaluation.Basic

/-!
# Sizes of built texts

A repeated text is built only if its size, in bytes, is within the cap
(`Value.utf8ByteSize_repeatText`). Padding is limited by the number of its characters: those that
are missing are taken from the fill again and again (`Value.padding_eq`), whatever their size. So a
padded text can be up to four times as large as the cap allows, and `Format.size_of_built_text` says
when it is too large.
-/

namespace Phrasebook

namespace Text

theorem length_le_utf8Len (cs : List Char) : cs.length ≤ String.utf8Len cs := by
  induction cs with
  | nil => exact Nat.zero_le _
  | cons c cs ih =>
      have hpos := c.utf8Size_pos
      rw [List.length_cons, String.utf8Len_cons]
      omega

theorem utf8Len_le (cs : List Char) : String.utf8Len cs ≤ 4 * cs.length := by
  induction cs with
  | nil => exact Nat.zero_le _
  | cons c cs ih =>
      have hfour := c.utf8Size_le_four
      rw [List.length_cons, String.utf8Len_cons]
      omega

theorem utf8Len_eq_length {cs : List Char} (h : ∀ c ∈ cs, c.utf8Size = 1) :
    String.utf8Len cs = cs.length := by
  induction cs with
  | nil => rfl
  | cons c cs ih =>
      obtain ⟨hc, hcs⟩ := List.forall_mem_cons.mp h
      rw [List.length_cons, String.utf8Len_cons, hc, ih hcs]

theorem utf8Len_flatten_replicate (n : Nat) (cs : List Char) :
    String.utf8Len (List.replicate n cs).flatten = n * String.utf8Len cs := by
  induction n with
  | zero => rw [Nat.zero_mul]; rfl
  | succ n ih =>
      rw [List.replicate_succ, List.flatten_cons, String.utf8Len_append, ih, Nat.succ_mul,
        Nat.add_comm]

end Text

namespace Value

/-- A text is repeated if the result is within the cap; otherwise nothing is built. -/
theorem utf8ByteSize_repeatText (s : String) (count : Int64) :
    (repeatText s count).toText.utf8ByteSize =
      if s.utf8ByteSize * count.toInt.toNat ≤ maxTextSize then
        s.utf8ByteSize * count.toInt.toNat
      else 0 := by
  rw [repeatText]
  split
  · next h =>
      rcases h with rfl | hlarge
      · simp [empty]
      · rw [if_neg (Nat.not_le.mpr hlarge)]
        rfl
  · next h =>
      rw [if_pos (Nat.not_lt.mp (not_or.mp h).2), toText_text, ← String.utf8Len_toList,
        String.toList_join, List.flatMap_def, List.map_replicate, Text.utf8Len_flatten_replicate,
        String.utf8Len_toList, Nat.mul_comm]

theorem isText_repeatText (s : String) (count : Int64) : (repeatText s count).isText := by
  rw [repeatText]
  split <;> rfl

/-- A product that is a text is one of the operands repeated. -/
theorem mul_of_isText {a b : Value} (h : (a.mul b).isText) :
    ∃ (s : String) (count : Int64),
      (s = a.toText ∨ s = b.toText) ∧ a.mul b = repeatText s count := by
  cases ha : a.isText <;> cases hb : b.isText
  · have hnum : (a.mul b).isText = false := by
      simp only [mul, ha, hb]
      split <;> rfl
    rw [hnum] at h
    cases h
  · exact ⟨b.toText, a.toInt, .inr rfl, by simp only [mul, ha, hb]⟩
  · exact ⟨a.toText, b.toInt, .inl rfl, by simp only [mul, ha, hb]⟩
  · cases hcount : Number.readInt64? a.toText with
    | none => exact ⟨a.toText, b.toInt, .inl rfl, by simp only [mul, ha, hb, hcount]⟩
    | some count => exact ⟨b.toText, count, .inr rfl, by simp only [mul, ha, hb, hcount]⟩

/-- A product that is a text is within the cap. -/
theorem utf8ByteSize_mul_le {a b : Value} (h : (a.mul b).isText) :
    (a.mul b).toText.utf8ByteSize ≤ maxTextSize := by
  obtain ⟨s, count, -, hmul⟩ := mul_of_isText h
  rw [hmul, utf8ByteSize_repeatText]
  split
  · assumption
  · exact Nat.zero_le _

/-- What a text is filled up with: blanks if nothing is given. -/
def filler (fill : Value) : List Char :=
  if fill.toText.toList = [] then [' '] else fill.toText.toList

/-- The number of characters that a text is filled up to: none if the length is negative or too
large. -/
def paddedLength (length : Value) : Nat :=
  if length.toInt.toInt ≤ maxTextSize then length.toInt.toInt.toNat else 0

/-- The size of a number of characters that are taken from a text again and again. -/
def cycledSize (cs : List Char) (count : Nat) : Nat :=
  count / cs.length * String.utf8Len cs + String.utf8Len (cs.take (count % cs.length))

theorem filler_ne_nil (fill : Value) : filler fill ≠ [] := by
  rw [filler]
  split
  · exact List.cons_ne_nil ' ' []
  · assumption

theorem paddedLength_le (length : Value) : paddedLength length ≤ maxTextSize := by
  rw [paddedLength]
  split <;> omega

/-- Padding is the whole fill as often as it has room, and then the beginning of it. -/
theorem padding_eq (fill : Value) (count : Nat) :
    padding fill.toText.toList count =
      (List.replicate (count / (filler fill).length) (filler fill)).flatten ++
        (filler fill).take (count % (filler fill).length) := by
  show ((List.replicate (count / (filler fill).length + 1) (filler fill)).flatten).take count = _
  have hwhole : ((List.replicate (count / (filler fill).length) (filler fill)).flatten).length =
      (filler fill).length * (count / (filler fill).length) := by
    simp [Nat.mul_comm]
  have hcount := Nat.div_add_mod count (filler fill).length
  rw [List.replicate_succ', List.flatten_concat, List.take_append, hwhole,
    List.take_of_length_le (by omega)]
  congr 2
  omega

theorem length_padding (fill : Value) (count : Nat) :
    (padding fill.toText.toList count).length = count := by
  have hpos := List.length_pos_iff.mpr (filler_ne_nil fill)
  have hcount := Nat.div_add_mod count (filler fill).length
  have hless := Nat.mod_lt count hpos
  rw [padding_eq, List.length_append, List.length_take, Nat.min_eq_left hless.le]
  simp only [List.length_flatten, List.map_replicate, List.sum_replicate, smul_eq_mul]
  rw [Nat.mul_comm]
  exact hcount

theorem utf8Len_padding (fill : Value) (count : Nat) :
    String.utf8Len (padding fill.toText.toList count) = cycledSize (filler fill) count := by
  rw [padding_eq, String.utf8Len_append, Text.utf8Len_flatten_replicate, cycledSize]

/-- The padding has the characters that are missing. -/
theorem paddingFor_eq (text : String) (length fill : Value) :
    paddingFor text length fill =
      String.ofList (padding fill.toText.toList (paddedLength length - text.length)) := by
  have hwanted : (if length.toInt.toInt.toNat ≤ maxTextSize then length.toInt.toInt.toNat else 0) =
      paddedLength length := by
    rw [paddedLength]
    exact if_congr (by omega) rfl rfl
  rw [paddingFor, hwanted]

/-- A text is filled up to a length, in front or behind: its length and its size are those of the
text and of the characters that are missing. -/
structure Padded (v length fill : Value) (w : String) : Prop where
  length_eq : w.length = max v.toText.length (paddedLength length)
  size_eq : w.utf8ByteSize =
    v.toText.utf8ByteSize + cycledSize (filler fill) (paddedLength length - v.toText.length)

namespace Padded

variable {v length fill : Value} {w : String}

theorem of_add {pad : String} (hpad : pad = paddingFor v.toText length fill)
    (hlength : w.length = v.toText.length + pad.length)
    (hsize : w.utf8ByteSize = v.toText.utf8ByteSize + pad.utf8ByteSize) :
    Padded v length fill w := by
  rw [paddingFor_eq] at hpad
  constructor
  · rw [hlength, hpad, String.length_ofList, length_padding]
    omega
  · rw [hsize, hpad, String.utf8ByteSize_ofList, utf8Len_padding]

/-- A text that is long enough stays as large as it is. -/
theorem size_of_le (h : Padded v length fill w) (hlong : paddedLength length ≤ v.toText.length) :
    w.utf8ByteSize = v.toText.utf8ByteSize := by
  rw [h.size_eq, Nat.sub_eq_zero_of_le hlong, ← utf8Len_padding,
    List.length_eq_zero_iff.mp (length_padding fill 0)]
  rfl

/-- A text that is too short grows by at least one byte for each character that is missing. -/
theorem size_lt (h : Padded v length fill w) (hshort : v.toText.length < paddedLength length) :
    v.toText.utf8ByteSize < w.utf8ByteSize := by
  have hcycled := Text.length_le_utf8Len
    (padding fill.toText.toList (paddedLength length - v.toText.length))
  rw [length_padding, utf8Len_padding] at hcycled
  rw [h.size_eq]
  omega

/-- One character takes at most four bytes. -/
theorem size_le (h : Padded v length fill w) :
    w.utf8ByteSize ≤ max (4 * maxTextSize) v.toText.utf8ByteSize := by
  by_cases hlong : paddedLength length ≤ v.toText.length
  · exact (h.size_of_le hlong).le.trans (Nat.le_max_right _ _)
  · -- The result has as many characters as are wanted, and these are within the cap.
    have hsize := Text.utf8Len_le w.toList
    have hlength := h.length_eq
    have hcap := paddedLength_le length
    rw [String.utf8Len_toList, String.length_toList] at hsize
    omega

/-- The cap holds for a text that is long enough, and for one that is within it when it is filled
up. -/
theorem size_le_cap_iff (h : Padded v length fill w) :
    w.utf8ByteSize ≤ max maxTextSize v.toText.utf8ByteSize ↔
      paddedLength length ≤ v.toText.length ∨ w.utf8ByteSize ≤ maxTextSize := by
  by_cases hlong : paddedLength length ≤ v.toText.length
  · have hsize := h.size_of_le hlong
    omega
  · have hsize := h.size_lt (Nat.not_le.mp hlong)
    omega

/-- The cap holds where every character is a single byte. -/
theorem size_le_cap (h : Padded v length fill w)
    (hv : ∀ c ∈ v.toText.toList, c.utf8Size = 1) (hfill : ∀ c ∈ filler fill, c.utf8Size = 1) :
    w.utf8ByteSize ≤ max maxTextSize v.toText.utf8ByteSize := by
  have hpadding : ∀ c ∈ padding fill.toText.toList (paddedLength length - v.toText.length),
      c.utf8Size = 1 := by
    intro c hc
    rw [padding_eq, List.mem_append, List.mem_flatten] at hc
    obtain ⟨cs, hcs, hc⟩ | hc := hc
    · exact hfill c (List.eq_of_mem_replicate hcs ▸ hc)
    · exact hfill c (List.mem_of_mem_take hc)
  have hsize := h.size_eq
  have hcap := paddedLength_le length
  rw [← utf8Len_padding, Text.utf8Len_eq_length hpadding, length_padding,
    ← String.utf8Len_toList v.toText, Text.utf8Len_eq_length hv, String.length_toList] at hsize
  have hlength := Text.length_le_utf8Len v.toText.toList
  rw [String.utf8Len_toList, String.length_toList] at hlength
  omega

end Padded

theorem padLeft_padded (v length fill : Value) :
    Padded v length fill (paddingFor v.toText length fill ++ v.toText) :=
  .of_add rfl (by rw [String.length_append, Nat.add_comm])
    (by rw [String.utf8ByteSize_append, Nat.add_comm])

theorem padRight_padded (v length fill : Value) :
    Padded v length fill (v.toText ++ paddingFor v.toText length fill) :=
  .of_add rfl (String.length_append _ _) String.utf8ByteSize_append

end Value

/-- A product that is a text is within the cap. Padding brings a text to a number of characters that
is within it, so that the size of the result, which is that of the text and of the characters that
are missing, is within four times the cap or as it was. Within the cap itself it is if the text is
long enough before, or if the result happens to be small enough, as it is where every character is a
single byte. -/
theorem Format.size_of_built_text (f : Format) :
    (∀ a b : Value, (a.mul b).isText → (a.mul b).toText.utf8ByteSize ≤ maxTextSize) ∧
    ∀ pad ∈ [Builtin.padLeft, Builtin.padRight], ∀ v length fill : Value, ∃ w : String,
      f.call? pad [v, length, fill] = some (.text w) ∧
      w.length = max v.toText.length length.paddedLength ∧
      w.utf8ByteSize = v.toText.utf8ByteSize +
        Value.cycledSize fill.filler (length.paddedLength - v.toText.length) ∧
      w.utf8ByteSize ≤ max (4 * maxTextSize) v.toText.utf8ByteSize ∧
      (w.utf8ByteSize ≤ max maxTextSize v.toText.utf8ByteSize ↔
        length.paddedLength ≤ v.toText.length ∨ w.utf8ByteSize ≤ maxTextSize) ∧
      ((∀ c ∈ v.toText.toList ++ fill.filler, c.utf8Size = 1) →
        w.utf8ByteSize ≤ max maxTextSize v.toText.utf8ByteSize) := by
  refine ⟨fun a b => Value.utf8ByteSize_mul_le, fun pad hpad v length fill => ?_⟩
  obtain ⟨w, hcall, h⟩ : ∃ w : String,
      f.call? pad [v, length, fill] = some (.text w) ∧ v.Padded length fill w := by
    rcases List.mem_pair.mp hpad with rfl | rfl
    · exact ⟨_, rfl, v.padLeft_padded length fill⟩
    · exact ⟨_, rfl, v.padRight_padded length fill⟩
  refine ⟨w, hcall, h.length_eq, h.size_eq, h.size_le, h.size_le_cap_iff, fun hsingle => ?_⟩
  rw [List.forall_mem_append] at hsingle
  exact h.size_le_cap hsingle.1 hsingle.2

/-- A clef takes four bytes. Repetition builds as many as fit into the cap; padding builds them in
front of one more byte, after which nothing is left when the result is repeated once. Blanks fit up
to the cap. -/
theorem Format.size_of_built_text_of_clef :
    (((Value.text "𝄞").mul (.int 262144)).isText ∧
      ((Value.text "𝄞").mul (.int 262144)).toText.utf8ByteSize ≤ maxTextSize) ∧
    (Builtin.padLeft ∈ [Builtin.padLeft, .padRight] ∧ ∃ w : String,
      Format.markdown.call? .padLeft [.text "x", .int 262145, .text "𝄞"] = some (.text w) ∧
      w.length = 262145 ∧ w.utf8ByteSize = 1048577 ∧
      ¬ w.utf8ByteSize ≤ max maxTextSize "x".utf8ByteSize ∧
      ((Value.text w).mul (.int 1)).toText = "") ∧
    (Builtin.padRight ∈ [Builtin.padLeft, .padRight] ∧ (∀ c ∈ ['a', 'b', ' '], c.utf8Size = 1) ∧
      ∃ w : String,
        Format.markdown.call? .padRight [.text "ab", .int 1048576, .text ""] = some (.text w) ∧
        w.utf8ByteSize ≤ max maxTextSize "ab".utf8ByteSize) := by
  have hrepeat : (Value.text "𝄞").mul (.int 262144) = Value.repeatText "𝄞" 262144 := rfl
  have htext : ((Value.text "𝄞").mul (.int 262144)).isText := by
    rw [hrepeat]
    exact Value.isText_repeatText "𝄞" 262144
  have hsingle : ∀ c ∈ ['a', 'b', ' '], c.utf8Size = 1 := by simp [Char.utf8Size]
  obtain ⟨hmul, hpad⟩ := Format.size_of_built_text .markdown
  refine ⟨⟨htext, hmul _ _ htext⟩, ⟨by decide, ?_⟩, ⟨by decide, hsingle, ?_⟩⟩
  · obtain ⟨w, hcall, hlength, hsize, -⟩ :=
      hpad .padLeft (by decide) (.text "x") (.int 262145) (.text "𝄞")
    have hbytes : w.utf8ByteSize = 1048577 := hsize.trans (by decide +kernel)
    have honce : ((Value.text w).mul (.int 1)).toText.utf8ByteSize = 0 := by
      show (Value.repeatText w 1).toText.utf8ByteSize = 0
      rw [Value.utf8ByteSize_repeatText, hbytes]
      rfl
    exact ⟨w, hcall, hlength.trans (by decide +kernel), hbytes, by rw [hbytes]; decide,
      String.utf8ByteSize_eq_zero_iff.mp honce⟩
  · obtain ⟨w, hcall, -, -, -, -, hcap⟩ :=
      hpad .padRight (by decide) (.text "ab") (.int 1048576) (.text "")
    exact ⟨w, hcall, hcap hsingle⟩

end Phrasebook
