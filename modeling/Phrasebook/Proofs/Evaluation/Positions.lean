import Mathlib
import Phrasebook.Proofs.Evaluation.Values
import Phrasebook.Proofs.Value.Sequence

/-!
# Positions in sequences

An index and the stop of a slice count from the end of a sequence if they are negative; the start of
a slice does not. A slice is the part of the sequence between two other parts, or the empty text if
its bounds are not positions in order. So an index into a slice is an index into the sequence, and a
sequence that is cut in two has its text in two pieces.

The positions of a text are those of its characters, each of which is an item.
-/

namespace Phrasebook

namespace Evaluation

/-- A position in a sequence of some length, which counts from the end if it is negative. -/
def positionIn (length : Nat) (i : Int64) : Int :=
  if i.toInt < 0 then i.toInt + length else i.toInt

/-- The position computed with 64-bit integers throughout. -/
def machinePosition (length : Nat) (i : Int64) : Int64 :=
  if i < 0 then i + Number.lengthInt64 length else i

/-- A length is never negative, so its sum with a negative number does not overflow. -/
theorem toInt_add_lengthInt64 (length : Nat) {i : Int64} (hi : i.toInt < 0) :
    (i + Number.lengthInt64 length).toInt = i.toInt + (Number.lengthInt64 length).toInt := by
  have hlow := i.le_toInt
  have hlength : 0 ≤ (Number.lengthInt64 length).toInt ∧
      (Number.lengthInt64 length).toInt ≤ Number.maxInt64 := by
    rw [Number.lengthInt64, Number.toInt_clampInt64]
    simp only [Number.minInt64, Number.maxInt64]
    omega
  simp only [Number.maxInt64] at hlength
  rw [Int64.toInt_add]
  apply Int.bmod_eq_of_le <;> omega

/-- For a length that is a 64-bit integer, the machine computes the position itself. -/
theorem toInt_machinePosition {length : Nat} (hlength : length ≤ Number.maxInt64) (i : Int64) :
    (machinePosition length i).toInt = positionIn length i := by
  have hclamp : (Number.lengthInt64 length).toInt = length := by
    rw [Number.lengthInt64, Number.toInt_clampInt64]
    simp only [Number.minInt64, Number.maxInt64] at hlength ⊢
    omega
  have hneg : i < 0 ↔ i.toInt < 0 := Int64.lt_iff_toInt_lt
  unfold machinePosition positionIn
  by_cases hi : i.toInt < 0
  · rw [if_pos (hneg.mpr hi), if_pos hi, toInt_add_lengthInt64 length hi, hclamp]
  · rw [if_neg (mt hneg.mp hi), if_neg hi]

variable {v : Value} {items : List Value} {i a b : Int64}

theorem itemAt_eq (v : Value) (i : Int64) :
    itemAt v i = if positionIn v.items.length i < 0 then .empty
      else v.items.getD (positionIn v.items.length i).toNat .empty := rfl

theorem itemsBetween_eq (items : List Value) (a b : Int64) :
    itemsBetween items a.toInt b.toInt =
      if 0 ≤ a.toInt ∧ a.toInt ≤ positionIn items.length b ∧
          positionIn items.length b ≤ items.length then
        .list ((items.take (positionIn items.length b).toNat).drop a.toInt.toNat)
      else .empty := rfl

/-- A position inside of a sequence has the item there. -/
theorem getElem?_itemAt {k : Nat} (hk : k < v.items.length)
    (hi : positionIn v.items.length i = k) : v.items[k]? = some (itemAt v i) := by
  rw [itemAt_eq, hi, if_neg (by omega), Int.toNat_natCast, List.getD_eq_getElem _ _ hk,
    List.getElem?_eq_getElem hk]

/-- A position outside of a sequence has the empty text. -/
theorem itemAt_of_outside (h : i.toInt < -(v.items.length : Int) ∨ v.items.length ≤ i.toInt) :
    itemAt v i = .empty := by
  rw [itemAt_eq]
  unfold positionIn
  by_cases hi : i.toInt < 0
  · rw [if_pos hi, if_pos (by omega)]
  · rw [if_neg hi, if_neg hi]
    exact List.getD_eq_default _ _ (by omega)

/-- What stands from one position up to a later one is a part of the list between two others. -/
theorem exists_parts {α : Type} {items : List α} {start stop : Nat} (hle : start ≤ stop)
    (hstop : stop ≤ items.length) :
    ∃ front back, items = front ++ (items.take stop).drop start ++ back ∧ front.length = start ∧
      front.length + ((items.take stop).drop start).length = stop := by
  have hfront : items.take start = (items.take stop).take start := by
    rw [List.take_take, min_eq_left hle]
  refine ⟨items.take start, items.drop stop, ?_, ?_, ?_⟩
  · rw [hfront, List.take_append_drop, List.take_append_drop]
  · exact List.length_take_of_le (hle.trans hstop)
  · rw [List.length_take_of_le (hle.trans hstop), List.length_drop, List.length_take_of_le hstop]
    omega

/-- A slice between positions in order is the part of the sequence between two others. -/
theorem itemsBetween_of_inside (hstart : 0 ≤ a.toInt) (hle : a.toInt ≤ positionIn items.length b)
    (hstop : positionIn items.length b ≤ items.length) :
    ∃ front part back, itemsBetween items a.toInt b.toInt = .list part ∧
      items = front ++ part ++ back ∧ (front.length : Int) = a.toInt ∧
      (front.length + part.length : Int) = positionIn items.length b := by
  have hle' : a.toInt.toNat ≤ (positionIn items.length b).toNat := by omega
  have hstop' : (positionIn items.length b).toNat ≤ items.length := by omega
  obtain ⟨front, back, hitems, hfront, hpart⟩ := exists_parts hle' hstop'
  rw [itemsBetween_eq, if_pos ⟨hstart, hle, hstop⟩]
  exact ⟨front, _, back, rfl, hitems, by omega, by omega⟩

theorem itemsBetween_of_outside (h : ¬(0 ≤ a.toInt ∧ a.toInt ≤ positionIn items.length b ∧
    positionIn items.length b ≤ items.length)) :
    itemsBetween items a.toInt b.toInt = .empty := by
  rw [itemsBetween_eq, if_neg h]

/-- Two bounds are positions in order, the second of which may count from the end. -/
def InOrder (length : Nat) (a b : Int64) : Prop :=
  0 ≤ a.toInt ∧ a.toInt ≤ positionIn length b ∧ positionIn length b ≤ length

instance (length : Nat) (a b : Int64) : Decidable (InOrder length a b) :=
  inferInstanceAs (Decidable (_ ∧ _ ∧ _))

/-- A value is the part of the sequence of another one between two bounds, or the empty text if the
bounds are not in order. -/
structure IsSlice (v : Value) (a b : Int64) (w : Value) : Prop where
  part : InOrder v.items.length a b → ∃ front part back, w = .list part ∧
    v.items = front ++ part ++ back ∧ (front.length : Int) = a.toInt ∧
    (front.length + part.length : Int) = positionIn v.items.length b
  empty : ¬InOrder v.items.length a b → w = .text ""

theorem isSlice_itemsBetween (v : Value) (a b : Int64) :
    IsSlice v a b (itemsBetween v.items a.toInt b.toInt) where
  part h := itemsBetween_of_inside h.1 h.2.1 h.2.2
  empty h := itemsBetween_of_outside h

/-- An item of a slice is an item of the sequence. -/
theorem IsSlice.itemAt_eq {w : Value} (h : IsSlice v a b w) (horder : InOrder v.items.length a b)
    {j k : Int64} (hj : 0 ≤ j.toInt) (hlt : j.toInt < positionIn v.items.length b - a.toInt)
    (hk : k.toInt = a.toInt + j.toInt) :
    itemAt w j = itemAt v k ∧ v.items[k.toInt.toNat]? = some (itemAt v k) := by
  obtain ⟨front, part, back, rfl, hitems, hfront, hpart⟩ := h.part horder
  obtain ⟨hstart, -, hstop⟩ := horder
  have hitem : v.items[k.toInt.toNat]? = some (itemAt v k) := by
    apply getElem?_itemAt
    · omega
    · rw [positionIn, if_neg (by omega)]
      omega
  have hinner : part[j.toInt.toNat]? = some (itemAt (.list part) j) := by
    apply getElem?_itemAt (v := .list part)
    · show j.toInt.toNat < part.length
      omega
    · rw [positionIn, if_neg (by omega)]
      omega
  have hsame : v.items[k.toInt.toNat]? = part[j.toInt.toNat]? := by
    have hoffset : k.toInt.toNat = front.length + j.toInt.toNat := by omega
    rw [hitems, List.append_assoc, hoffset, List.getElem?_append_right (by omega),
      Nat.add_sub_cancel_left, List.getElem?_append_left (by omega)]
  refine ⟨?_, hitem⟩
  rw [hitem, hinner] at hsame
  exact (Option.some.inj hsame).symm

end Evaluation

namespace Evaluation

variable {v w : Value} {a b : Int64}

/-- A slice of a text has the characters between the bounds. -/
theorem IsSlice.chars (h : IsSlice v a b w) (hv : v.isText) (horder : InOrder v.items.length a b) :
    ∃ front back, v.toText.toList = front ++ w.toText.toList ++ back ∧
      (front.length : Int) = a.toInt ∧
      (front.length + w.toText.length : Int) = positionIn v.items.length b := by
  obtain ⟨front, part, back, rfl, hitems, hfront, hpart⟩ := h.part horder
  rw [Value.items_of_isText hv] at hitems
  obtain ⟨others, chars₃, hchars, hothers, rfl⟩ := List.map_eq_append_iff.mp hitems
  obtain ⟨chars₁, chars₂, rfl, rfl, rfl⟩ := List.map_eq_append_iff.mp hothers
  rw [Value.toText_list_chars]
  rw [List.length_map] at hfront hpart
  rw [List.length_map] at hpart
  exact ⟨chars₁, chars₃, by simpa using hchars, hfront, by simpa using hpart⟩

/-- Two slices that meet have the text of the whole. -/
theorem IsSlice.toText_append {left right : Value} {k m zero : Int64}
    (hzero : zero.toInt = 0) (hk : 0 ≤ k.toInt) (hle : k.toInt ≤ v.items.length)
    (hm : m.toInt = v.items.length) (hleft : IsSlice v zero k left) (hright : IsSlice v k m right) :
    left.toText ++ right.toText = v.toText := by
  have hmiddle : positionIn v.items.length k = k.toInt := if_neg (by omega)
  have hlast : positionIn v.items.length m = v.items.length := by
    rw [positionIn, if_neg (by omega), hm]
  obtain ⟨front, part, back, rfl, hitems, hfront, hpart⟩ := hleft.part (by
    rw [InOrder, hmiddle]
    omega)
  obtain ⟨front', part', back', rfl, hitems', hfront', hpart'⟩ := hright.part (by
    rw [InOrder, hlast]
    omega)
  have hlength := congrArg List.length hitems'
  simp only [List.length_append] at hlength
  obtain rfl : front = [] := List.eq_nil_of_length_eq_zero (by omega)
  obtain rfl : back' = [] := List.eq_nil_of_length_eq_zero (by omega)
  rw [List.length_nil] at hpart
  rw [List.nil_append] at hitems
  rw [List.append_nil] at hitems'
  -- What stands in front of the second slice is as long as the first one.
  obtain ⟨rfl, -⟩ := List.append_inj (hitems'.symm.trans hitems) (by omega)
  rw [← Value.toText_list_append, ← Value.toText_list_items v, hitems']

end Evaluation

namespace Scope

open Evaluation

/-- How an expression with a value is indexed and sliced, at some depth. The values of its parts are
known from deeper down. -/
structure IndexesCoherently (scope : Scope) (depth : Nat) (base : Expr) (v : Value) : Prop where
  /-- A slice never fails. -/
  slice : ∀ {start stop : Expr} {a b : Int64}, scope.ComesTo (depth + 1) start (.int a) →
    scope.ComesTo (depth + 1) stop (.int b) →
    ∃ w, scope.ComesTo depth (.slice base start (some stop)) w ∧ IsSlice v a b w
  /-- An index from either end has the item there, and any other one the empty text. -/
  index : ∀ {position : Expr} {i : Int64}, scope.ComesTo (depth + 1) position (.int i) →
    ∃ w, scope.ComesTo depth (.index base position) w ∧
      (∀ k : Nat, k < v.items.length → (i.toInt = k ∨ i.toInt = k - v.items.length) →
        v.items[k]? = some w) ∧
      (i.toInt < -(v.items.length : Int) ∨ v.items.length ≤ i.toInt → w = .text "")
  /-- An index into a slice is an index behind its start. -/
  index_slice : ∀ {start stop inner outer : Expr} {a b j k : Int64},
    scope.ComesTo (depth + 2) start (.int a) → scope.ComesTo (depth + 2) stop (.int b) →
    scope.ComesTo (depth + 1) inner (.int j) → scope.ComesTo (depth + 1) outer (.int k) →
    InOrder v.items.length a b → 0 ≤ j.toInt →
    j.toInt < positionIn v.items.length b - a.toInt → k.toInt = a.toInt + j.toInt →
    ∃ u, scope.ComesTo depth (.index (.slice base start (some stop)) inner) u ∧
      scope.ComesTo depth (.index base outer) u ∧ v.items[k.toInt.toNat]? = some u
  /-- The slices up to a position and from there on have the text of the whole. -/
  pieces : ∀ {zero middle last : Expr} {k m : Int64}, scope.ComesTo (depth + 1) zero (.int 0) →
    scope.ComesTo (depth + 1) middle (.int k) → scope.ComesTo (depth + 1) last (.int m) →
    0 ≤ k.toInt → k.toInt ≤ v.items.length → m.toInt = v.items.length →
    ∃ left right, scope.ComesTo depth (.slice base zero (some middle)) left ∧
      scope.ComesTo depth (.slice base middle (some last)) right ∧
      left.toText ++ right.toText = v.toText
  /-- The positions of a text are those of its characters. -/
  chars : v.isText → v.items.length = v.toText.length ∧
    ∀ {a b w}, IsSlice v a b w → InOrder v.items.length a b →
      ∃ front back, v.toText.toList = front ++ w.toText.toList ++ back ∧
        (front.length : Int) = a.toInt ∧
        (front.length + w.toText.length : Int) = positionIn v.items.length b
  /-- No position is computed by an addition that overflows. -/
  no_overflow : ∀ i : Int64, i.toInt < 0 →
    (i + Number.lengthInt64 v.items.length).toInt =
      i.toInt + (Number.lengthInt64 v.items.length).toInt
  /-- The machine computes all positions as they are. -/
  machine : v.items.length ≤ Number.maxInt64 →
    ∀ i, (machinePosition v.items.length i).toInt = positionIn v.items.length i

/-- Texts and lists are indexed and sliced coherently, whatever the bounds are. -/
theorem indexesCoherently (scope : Scope) {depth : Nat} {base : Expr} {v : Value}
    (hv : isSliceable v) (hbase : scope.ComesTo (depth + 2) base v) :
    scope.IndexesCoherently depth base v where
  slice hstart hstop :=
    ⟨_, (hbase.mono (by omega)).slice hv hstart hstop, isSlice_itemsBetween v _ _⟩
  index {position i} hposition := by
    refine ⟨_, (hbase.mono (by omega)).index hposition, ?_, itemAt_of_outside⟩
    intro k hk hi
    apply getElem?_itemAt hk
    show positionIn v.items.length i = k
    unfold positionIn
    split <;> omega
  index_slice hstart hstop hinner houter horder hj hlt hk := by
    have hslice := hbase.slice hv hstart hstop
    obtain ⟨hsame, hitem⟩ := (isSlice_itemsBetween v _ _).itemAt_eq horder hj hlt hk
    have hindex := hslice.index hinner
    rw [hsame] at hindex
    exact ⟨_, hindex, (hbase.mono (by omega)).index houter, hitem⟩
  pieces hzero hmiddle hlast hk hle hm := by
    have hbase' : scope.ComesTo (depth + 1) base v := hbase.mono (by omega)
    exact ⟨_, _, hbase'.slice hv hzero hmiddle, hbase'.slice hv hmiddle hlast,
      IsSlice.toText_append rfl hk hle hm (isSlice_itemsBetween v _ _)
        (isSlice_itemsBetween v _ _)⟩
  chars htext := by
    refine ⟨?_, fun h => h.chars htext⟩
    rw [Value.items_of_isText htext, List.length_map, String.length_toList]
  no_overflow _ hi := toInt_add_lengthInt64 _ hi
  machine hlength := toInt_machinePosition hlength

/-- A scope without variables. -/
def bareScope : Scope := ⟨.html, "en", ∅, ∅, 8⟩

/-- An index into the inside of a word, some of whose characters have several bytes. -/
theorem indexesCoherently_of_word :
    isSliceable (.text "größe") ∧
      bareScope.ComesTo 2 (.literal .string "größe") (.text "größe") ∧
      ∃ u, bareScope.ComesTo 0 (.index (.slice (.literal .string "größe") (.literal .int "1")
          (some (.unary .minus (.literal .int "1")))) (.literal .int "2")) u ∧
        bareScope.ComesTo 0 (.index (.literal .string "größe") (.literal .int "3")) u ∧
        u = .text "ß" := by
  have hbase : bareScope.ComesTo 2 (.literal .string "größe") (.text "größe") := rfl
  have hstart : bareScope.ComesTo 2 (.literal .int "1") (.int 1) := rfl
  have hstop : bareScope.ComesTo 2 (.unary .minus (.literal .int "1")) (.int (-1)) := rfl
  have hinner : bareScope.ComesTo 1 (.literal .int "2") (.int 2) := rfl
  have houter : bareScope.ComesTo 1 (.literal .int "3") (.int 3) := rfl
  obtain ⟨u, hslice, hword, hu⟩ := (indexesCoherently bareScope rfl hbase).index_slice hstart hstop
    hinner houter (by decide) (by decide) (by decide) (by decide)
  exact ⟨rfl, hbase, u, hslice, hword, (Option.some.inj hu).symm⟩

end Scope

end Phrasebook
