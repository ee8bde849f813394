import Mathlib
import Phrasebook.Evaluation.Basic
import Phrasebook.Proofs.Text.Splitting

/-!
# Sequences of values

The items of a value have its text, one behind the other: the items of a list, the characters of a
text, and any other value as its only item. So joining without a separator gives the text of any
value, at whatever depth its items are lists again. Splitting a text and joining the parts gives
back the text, for every separator (`Format.join_undoes_split`).
-/

namespace Phrasebook

namespace Value

theorem toText_list_append (xs ys : List Value) :
    (list (xs ++ ys)).toText = (list xs).toText ++ (list ys).toText := by
  induction xs with
  | nil => simp
  | cons x xs ih =>
      rw [List.cons_append, toText_list_cons, toText_list_cons, ih, String.append_assoc]

theorem toText_list_chars (cs : List Char) :
    (list (cs.map fun c => .text (String.singleton c))).toText = String.ofList cs := by
  induction cs with
  | nil => rfl
  | cons c cs ih =>
      rw [List.map_cons, toText_list_cons, ih, toText_text, ← String.toList_inj]
      simp

/-- The items of a text are its characters. -/
theorem items_of_isText {v : Value} (h : v.isText) :
    v.items = v.toText.toList.map fun c => .text (String.singleton c) := by
  cases v with
  | text s => rfl
  | raw s => rfl
  | _ => cases h

/-- The items of a value have its text. -/
theorem toText_list_items (v : Value) : (list v.items).toText = v.toText := by
  cases v with
  | text s => exact (toText_list_chars s.toList).trans s.ofList_toList
  | raw s => exact (toText_list_chars s.toList).trans s.ofList_toList
  | list items => rfl
  | _ => exact (toText_list_cons _ []).trans String.append_empty

/-- Without a separator, the texts of items are joined to the text of their list. -/
theorem intercalate_map_toText (items : List Value) :
    "".intercalate (items.map toText) = (list items).toText := by
  induction items with
  | nil => rfl
  | cons v items ih =>
      rw [toText_list_cons, ← ih]
      cases items with
      | nil => simp
      | cons w items => simp [String.intercalate_cons_cons]

/-- Joining without a separator gives the text of a value. -/
theorem join_empty (v : Value) : v.join empty = .text v.toText := by
  show text ("".intercalate (v.items.map toText)) = text v.toText
  rw [intercalate_map_toText, toText_list_items]

/-- Joining the parts of a value gives its text. -/
theorem join_split (v separator : Value) :
    (v.split separator).join separator = .text v.toText := by
  have htexts : (v.split separator).items.map toText =
      Text.split v.toText separator.toText := by
    simp [split, items, Function.comp_def]
  rw [join, htexts, Text.intercalate_split]

end Value

/-- Splitting the text of a value gives texts that come to it again when they are joined with the
same separator. None of them contains the separator; at an empty separator they are the characters.
Joining any value without a separator gives its text. -/
theorem Format.join_undoes_split (f : Format) (v separator : Value) :
    (∃ parts : List String,
      f.call? .split [v, separator] = some (.list (parts.map .text)) ∧
      f.call? .join [.list (parts.map .text), separator] = some (.text v.toText) ∧
      (separator.toText ≠ "" → ∀ p ∈ parts, ¬ separator.toText.toList <:+: p.toList) ∧
      (separator.toText = "" → parts = v.toText.toList.map String.singleton)) ∧
    f.call? .join [v, .text ""] = some (.text v.toText) := by
  refine ⟨⟨Text.split v.toText separator.toText, rfl, ?_, ?_, ?_⟩, ?_⟩
  · exact congrArg some (Value.join_split v separator)
  · intro hne p hp
    exact Text.not_infix_of_mem_split hne hp
  · intro hempty
    rw [hempty, Text.split_empty]
  · exact congrArg some (Value.join_empty v)

/-- Of two occurrences of the separator that overlap the first one counts, and what is left of the
second one stays in the next part. -/
theorem Format.join_undoes_split_of_overlap :
    (Format.html.call? .split [.text "aaabaa", .text "aa"] =
        some (.list (["", "ab", ""].map .text)) ∧
      Format.html.call? .join [.list (["", "ab", ""].map .text), .text "aa"] =
        some (.text "aaabaa") ∧
      ∀ p ∈ ["", "ab", ""], ¬ "aa".toList <:+: p.toList) ∧
    Format.html.call? .join [.list [.text "a", .list [.list [.int (-7)], .raw "<b>"]], .text ""] =
      some (.text "a-7<b>") := by
  have hparts : Text.split "aaabaa" "aa" = ["", "ab", ""] := by decide
  obtain ⟨⟨parts, hsplit, hjoin, hclean, -⟩, -⟩ :=
    Format.join_undoes_split .html (.text "aaabaa") (.text "aa")
  have hcall : Format.html.call? .split [.text "aaabaa", .text "aa"] =
      some (.list (["", "ab", ""].map .text)) := by
    rw [← hparts]
    rfl
  have hmap := Value.list.inj (Option.some.inj (hcall.symm.trans hsplit))
  obtain rfl := List.map_injective_iff.mpr (fun _ _ => Value.text.inj) hmap
  refine ⟨⟨hcall, hjoin, hclean (by decide)⟩, ?_⟩
  have htext : (Value.list [.text "a", .list [.list [.int (-7)], .raw "<b>"]]).toText =
      "a-7<b>" := by decide
  rw [← htext]
  exact (Format.join_undoes_split .html _ .empty).2

end Phrasebook
