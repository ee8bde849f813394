import Mathlib
import Phrasebook.Catalog.Load

/-!
# Logs of loads

A log lists the loads that succeeded, in order. It determines a snapshot: the locales are those in
the log, each at the place of its first load, and every locale has the table and the file of its
last load (`Snapshot.Describes`). Publishing one more load keeps this up.
-/

namespace Phrasebook

/-- A load that succeeded: the table that a locale got, and the file if it came from one. -/
structure Loaded where
  locale : String
  table : Table
  path? : Option String

namespace Loaded

/-- The last load of a locale. -/
def last? (log : List Loaded) (locale : String) : Option Loaded :=
  (log.filter (·.locale == locale)).getLast?

theorem last?_concat (log : List Loaded) (l : Loaded) (locale : String) :
    last? (log ++ [l]) locale = if l.locale = locale then some l else last? log locale := by
  unfold last?
  by_cases h : l.locale = locale
  · simp [List.filter_append, h]
  · simp [List.filter_append, h]

theorem last?_eq_some {log : List Loaded} {locale : String} {l : Loaded}
    (h : last? log locale = some l) : l ∈ log ∧ l.locale = locale := by
  have hmem := List.mem_of_getLast? h
  rw [List.mem_filter] at hmem
  exact ⟨hmem.1, by simpa using hmem.2⟩

theorem last?_append_of_ne {log loads : List Loaded} {locale : String}
    (h : ∀ l ∈ loads, l.locale ≠ locale) : last? (log ++ loads) locale = last? log locale := by
  have hnone : loads.filter (·.locale == locale) = [] := by simpa using h
  rw [last?, List.filter_append, hnone, List.append_nil, last?]

theorem isSome_last?_iff (log : List Loaded) (locale : String) :
    (last? log locale).isSome ↔ locale ∈ log.map (·.locale) := by
  simp [last?]

/-- The file of a load, if it came from one, has the name of the locale. -/
def Located (l : Loaded) : Prop := ∀ path, l.path? = some path → Path.stem? path = some l.locale

end Loaded

theorem eraseDups_concat {α : Type} [BEq α] [LawfulBEq α] [DecidableEq α] (xs : List α) (x : α) :
    (xs ++ [x]).eraseDups = if x ∈ xs then xs.eraseDups else xs.eraseDups ++ [x] := by
  rw [List.eraseDups_append]
  by_cases h : x ∈ xs
  · simp [List.removeAll, h]
  · simp [List.removeAll, h, List.eraseDups_cons]

theorem eraseDups_append_of_subset {α : Type} [BEq α] [LawfulBEq α] {xs ys : List α} (h : ys ⊆ xs) :
    (xs ++ ys).eraseDups = xs.eraseDups := by
  have hnone : ys.removeAll xs = [] := by
    rw [List.removeAll, List.filter_eq_nil_iff]
    intro y hy
    simpa using h hy
  rw [List.eraseDups_append, hnone, List.eraseDups_nil, List.append_nil]

theorem nodup_eraseDups {α : Type} [BEq α] [LawfulBEq α] [DecidableEq α] (xs : List α) :
    xs.eraseDups.Nodup := by
  induction xs using List.reverseRecOn with
  | nil => simp
  | append_singleton xs x ih =>
      rw [eraseDups_concat]
      split
      · exact ih
      · next h =>
          apply List.Nodup.append ih (List.nodup_singleton x)
          simpa [List.mem_eraseDups] using h

namespace Snapshot

/-- A snapshot is what a log of loads comes to. -/
structure Describes (s : Snapshot) (log : List Loaded) : Prop where
  order : s.order = (log.map (·.locale)).eraseDups
  tables : ∀ locale, s.tables.find? locale = (Loaded.last? log locale).map (·.table)
  paths : ∀ locale, s.paths.find? locale = (Loaded.last? log locale).bind (·.path?)

namespace Describes

theorem empty : Describes .empty [] where
  order := rfl
  tables _ := rfl
  paths _ := rfl

variable {s : Snapshot} {log : List Loaded}

theorem contains_iff (h : s.Describes log) (locale : String) :
    s.tables.contains locale ↔ locale ∈ log.map (·.locale) := by
  rw [← Loaded.isSome_last?_iff, Dictionary.contains, h.tables, Option.isSome_map]

theorem publish (h : s.Describes log) (l : Loaded) :
    (s.publish l.locale l.table l.path?).Describes (log ++ [l]) where
  order := by
    show (if s.tables.contains l.locale then s.order else s.order ++ [l.locale]) = _
    rw [List.map_append, List.map_singleton, eraseDups_concat, h.order]
    exact if_congr (h.contains_iff l.locale) rfl rfl
  tables locale := by
    show (s.tables.insert l.locale l.table).find? locale = _
    rw [Dictionary.find?_insert, Loaded.last?_concat, h.tables]
    by_cases hlocale : l.locale = locale
    · rw [if_pos hlocale, if_pos hlocale, Option.map_some]
    · rw [if_neg hlocale, if_neg hlocale]
  paths locale := by
    rw [Loaded.last?_concat]
    cases hpath : l.path? with
    | some path =>
        show (s.paths.insert l.locale path).find? locale = _
        rw [Dictionary.find?_insert, h.paths]
        by_cases hlocale : l.locale = locale
        · rw [if_pos hlocale, if_pos hlocale, Option.bind_some, hpath]
        · rw [if_neg hlocale, if_neg hlocale]
    | none =>
        show (s.paths.erase l.locale).find? locale = _
        rw [Dictionary.find?_erase, h.paths]
        by_cases hlocale : l.locale = locale
        · rw [if_pos hlocale, if_pos hlocale, Option.bind_some, hpath]
        · rw [if_neg hlocale, if_neg hlocale]

theorem nodup_order (h : s.Describes log) : s.order.Nodup := by
  rw [h.order]
  exact nodup_eraseDups _

theorem mem_order_iff (h : s.Describes log) (locale : String) :
    locale ∈ s.order ↔ ∃ l ∈ log, l.locale = locale := by
  rw [h.order, List.mem_eraseDups, List.mem_map]

/-- The file of a locale has the name of the locale. -/
theorem stem_path (h : s.Describes log) (hlog : ∀ l ∈ log, l.Located) {locale path : String}
    (hpath : s.paths.find? locale = some path) : Path.stem? path = some locale := by
  rw [h.paths, Option.bind_eq_some_iff] at hpath
  obtain ⟨l, hlast, hl⟩ := hpath
  obtain ⟨hmem, hlocale⟩ := Loaded.last?_eq_some hlast
  rw [← hlocale]
  exact hlog l hmem path hl

end Describes

end Snapshot

end Phrasebook
