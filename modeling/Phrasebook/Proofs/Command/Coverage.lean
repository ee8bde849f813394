import Mathlib
import Phrasebook.Command.Coverage
import Phrasebook.Proofs.Catalog.History
import Phrasebook.Proofs.Text.Bytes

/-!
# Coverage accounts for every key

A key of the source is translated or missing, and a key of a locale is translated or extra. Both
locales have their keys in order and each of them once, so the numbers of a row add up, and the keys
that it lists are in order as well.

Main statement: `Command.coverage_accounts`.
-/

namespace Phrasebook

theorem Dictionary.mem_names_iff {α : Type} {d : Dictionary α} {name : String} :
    name ∈ d.names ↔ d.contains name := by
  have hentries : ∀ entries : List (String × α),
      name ∈ entries.map (·.1) ↔ (findIn name entries).isSome := by
    intro entries
    induction entries with
    | nil => simp [findIn]
    | cons e entries ih =>
        rw [findIn, List.map_cons, List.mem_cons, ih, @eq_comm _ name]
        by_cases h : e.1 = name <;> simp [h]
  exact hentries d.entries

namespace Catalog

variable (c : Catalog) (locale : String)

/-- The keys of a locale are strictly increasing. -/
theorem pairwise_keys : (c.keys locale).Pairwise (· < ·) := by
  unfold keys Snapshot.keys?
  cases c.snapshot.tables.find? locale with
  | none => exact .nil
  | some table => exact List.pairwise_map.mpr table.sorted

theorem nodup_keys : (c.keys locale).Nodup := (c.pairwise_keys locale).imp ne_of_lt

theorem mem_keys_iff {key : String} : key ∈ c.keys locale ↔ c.hasKey locale key := by
  unfold keys Snapshot.keys? hasKey
  cases c.snapshot.tables.find? locale with
  | none => simp
  | some table => exact Dictionary.mem_names_iff

/-- The number of keys that a locale has. -/
noncomputable def keyCount : Nat := {key | c.hasKey locale key}.ncard

theorem keyCount_eq : c.keyCount locale = (c.keys locale).length := by
  have hkeys : {key | c.hasKey locale key} = ((c.keys locale).toFinset : Set String) := by
    ext key
    simp [mem_keys_iff]
  rw [keyCount, hkeys, Set.ncard_coe_finset, List.toFinset_card_of_nodup (c.nodup_keys locale)]

end Catalog

namespace Command

namespace Coverage

variable {source keys : List String} {locale : String}

theorem translated_add_missing :
    (compare source locale keys).translated + (compare source locale keys).missing.length =
      source.length :=
  Nat.sub_add_cancel (List.length_filter_le _ _)

/-- The keys that both have are counted alike from both sides. -/
theorem translated_add_extra (hsource : source.Nodup) (hkeys : keys.Nodup) :
    (compare source locale keys).translated + (compare source locale keys).extra.length =
      keys.length := by
  have hcommon : (source.filter keys.contains).Perm (keys.filter source.contains) := by
    rw [List.perm_ext_iff_of_nodup (hsource.filter _) (hkeys.filter _)]
    simp [and_comm]
  have htranslated : (compare source locale keys).translated =
      (source.filter keys.contains).length := by
    have hcount : (compare source locale keys).translated +
        (compare source locale keys).missing.length = source.length := translated_add_missing
    exact Nat.add_right_cancel (hcount.trans (source.length_eq_length_filter_add keys.contains))
  rw [htranslated, hcommon.length_eq]
  exact (keys.length_eq_length_filter_add source.contains).symm

/-- A row lists what the source and the locale lack of each other, in order, and counts the rest. -/
structure Accounts (c : Catalog) (source : String) (row : Coverage) : Prop where
  mem_missing_iff : ∀ key,
    key ∈ row.missing ↔ c.hasKey source key = true ∧ c.hasKey row.locale key = false
  mem_extra_iff : ∀ key,
    key ∈ row.extra ↔ c.hasKey row.locale key = true ∧ c.hasKey source key = false
  missing_increasing : row.missing.Pairwise fun a b => Text.bytes a < Text.bytes b
  extra_increasing : row.extra.Pairwise fun a b => Text.bytes a < Text.bytes b
  total : row.total = c.keyCount source
  source_count : row.translated + row.missing.length = c.keyCount source
  locale_count : row.translated + row.extra.length = c.keyCount row.locale

theorem accounts_compare (c : Catalog) (source locale : String) :
    (compare (c.keys source) locale (c.keys locale)).Accounts c source where
  mem_missing_iff key := by
    simp [compare, Catalog.mem_keys_iff]
  mem_extra_iff key := by
    simp [compare, Catalog.mem_keys_iff]
  missing_increasing := ((c.pairwise_keys source).filter _).imp Text.bytes_lt_iff.mpr
  extra_increasing := ((c.pairwise_keys locale).filter _).imp Text.bytes_lt_iff.mpr
  total := (c.keyCount_eq source).symm
  source_count := translated_add_missing.trans (c.keyCount_eq source).symm
  locale_count :=
    (translated_add_extra (c.nodup_keys source) (c.nodup_keys locale)).trans
      (c.keyCount_eq locale).symm

end Coverage

/-- The locales that are reported: those given, or all loaded ones but the source. -/
def reported (c : Catalog) (source : String) (locales : List String) : List String :=
  if locales = [] then c.locales.filter (· != source) else locales

/-- The rows of a report as they are printed. -/
def printedRows (rows : List Coverage) (asJson : Bool) : String :=
  if asJson then lines [(Json.array (rows.map (·.data))).pretty]
  else
    lines (tableLines ["Locale", "Coverage", "Missing", "Extra"] (rows.map (·.row)) ++
      rows.flatMap (·.missingLines))

theorem coverage_of_load {files : FileTree} {directory source : String} (locales : List String)
    (strict asJson : Bool) {issues : List TemplateIssue} {c : Catalog}
    (hload :
      (Catalog.loadDirectory files directory).on (.new { strict := false }) = (.ok issues, c))
    (hsource : source ∈ c.locales) :
    coverage files directory source locales strict asJson =
      { code := (if strict && (coverages c source locales).any (·.missing != [])
          then ExitCode.dataError else .ok).number
        output := printedRows (coverages c source locales) asJson } := by
  have hrun : ((Catalog.loadDirectory files directory).run (.new { strict := false })).run =
      (.ok issues, c) := hload
  have hcontains : c.locales.contains source = true := List.contains_iff_mem.mpr hsource
  unfold coverage printedRows
  simp only [hrun, hcontains, if_true]
  cases asJson <;> rfl

/-- The coverage of a directory whose files can be loaded has a row for each reported locale, loaded
or not, and each row accounts for all keys. The command finds fault with the locales if it is to be
strict and one of them lacks a key of the source. -/
theorem coverage_accounts {files : FileTree} {directory source : String} (locales : List String)
    (strict asJson : Bool) {issues : List TemplateIssue} {c : Catalog}
    (hload :
      (Catalog.loadDirectory files directory).on (.new { strict := false }) = (.ok issues, c))
    (hsource : source ∈ c.locales) :
    (coverages c source locales).map (·.locale) = reported c source locales ∧
    (∀ row ∈ coverages c source locales, row.Accounts c source) ∧
    ∃ code : ExitCode,
      coverage files directory source locales strict asJson =
        { code := code.number, output := printedRows (coverages c source locales) asJson } ∧
      (code = .ok ∨ code = .dataError) ∧
      (code = .dataError ↔ strict = true ∧ ∃ locale ∈ reported c source locales,
        ∃ key, c.hasKey source key = true ∧ c.hasKey locale key = false) := by
  have haccounts : ∀ row ∈ coverages c source locales, row.Accounts c source := by
    intro row hrow
    obtain ⟨locale, -, rfl⟩ := List.mem_map.mp hrow
    exact Coverage.accounts_compare c source locale
  have hlocales : (coverages c source locales).map (·.locale) = reported c source locales := by
    rw [coverages, List.map_map]
    exact List.map_id _
  have hlacking : (coverages c source locales).any (·.missing != []) = true ↔
      ∃ locale ∈ reported c source locales,
        ∃ key, c.hasKey source key = true ∧ c.hasKey locale key = false := by
    rw [List.any_eq_true, ← hlocales]
    constructor
    · rintro ⟨row, hrow, hmissing⟩
      obtain ⟨key, hkey⟩ := List.exists_mem_of_ne_nil row.missing (by simpa using hmissing)
      have hlacks := ((haccounts row hrow).mem_missing_iff key).mp hkey
      exact ⟨row.locale, List.mem_map_of_mem hrow, key, hlacks⟩
    · rintro ⟨locale, hlocale, key, hkey⟩
      obtain ⟨row, hrow, rfl⟩ := List.mem_map.mp hlocale
      have hmissing := ((haccounts row hrow).mem_missing_iff key).mpr hkey
      exact ⟨row, hrow, by simpa using List.ne_nil_of_mem hmissing⟩
  refine ⟨hlocales, haccounts, _, coverage_of_load locales strict asJson hload hsource, ?_, ?_⟩
  · split
    · exact .inr rfl
    · exact .inl rfl
  · rw [← hlacking, ← Bool.and_eq_true]
    split
    · next h => exact iff_of_true rfl h
    · next h => exact iff_of_false (by decide) h

/-- A directory with a source locale, and a locale that has one of its two keys and one of its
own. -/
def bundle : FileTree := .directory
  [("de.json", .file "\x7b\"hello\": \"Hallo\", \"servus\": \"Servus\"\x7d".toUTF8),
    ("en.json", .file "\x7b\"bye\": \"Bye\", \"hello\": \"Hello\"\x7d".toUTF8)]

/-- What loading that directory comes to. -/
def loadedBundle : Except LoadError (List TemplateIssue) × Catalog :=
  (Catalog.loadDirectory bundle "").on (.new { strict := false })

theorem loadedBundle_eq :
    loadedBundle =
      (Catalog.loadFiles bundle ["de.json", "en.json"]).on (.new { strict := false }) := by
  have hdocuments : Catalog.documents bundle "" = .ok ["de.json", "en.json"] :=
    FileTree.listPaths_eq_ok_iff.mpr ⟨_, rfl, by decide +kernel, .refl _⟩
  have hreading (paths : List String) (c : Catalog) :
      (Catalog.reading (.ok paths)).on c = (.ok paths, c) := rfl
  rw [loadedBundle, Catalog.loadDirectory, hdocuments, Catalog.Load.on_bind, hreading]

/-- The locale lacks one key of the source and has one more; one that is not loaded lacks both keys.
Only a strict command minds. -/
theorem coverage_accounts_of_bundle :
    let rows := coverages loadedBundle.2 "en" ["de", "fr"]
    rows = [⟨"de", 2, ["bye"], ["servus"]⟩, ⟨"fr", 2, ["bye", "hello"], []⟩] ∧
      (∀ row ∈ rows, row.Accounts loadedBundle.2 "en") ∧
      (coverage bundle "" "en" ["de", "fr"] true false).code = 65 ∧
      (coverage bundle "" "en" ["de", "fr"] false false).code = 0 := by
  have hok : loadedBundle.1.isOk = true := by
    rw [loadedBundle_eq]
    decide +kernel
  have hsource : "en" ∈ loadedBundle.2.locales := by
    rw [loadedBundle_eq]
    decide +kernel
  have hrows : coverages loadedBundle.2 "en" ["de", "fr"] =
      [⟨"de", 2, ["bye"], ["servus"]⟩, ⟨"fr", 2, ["bye", "hello"], []⟩] := by
    rw [loadedBundle_eq]
    decide +kernel
  refine ⟨hrows, ?_⟩
  rcases hload : loadedBundle with ⟨_ | issues, c⟩
  · rw [hload] at hok
    cases hok
  rw [hload] at hsource hrows
  obtain ⟨-, haccounts, _, hstrict, -, hcode⟩ :=
    coverage_accounts ["de", "fr"] true false hload hsource
  obtain ⟨-, -, _, hlenient, hor, hcode'⟩ :=
    coverage_accounts ["de", "fr"] false false hload hsource
  refine ⟨haccounts, ?_, ?_⟩
  · have hbye := ((haccounts ⟨"de", 2, ["bye"], ["servus"]⟩ (by simp [hrows])).mem_missing_iff
      "bye").mp (by simp)
    rw [hstrict, hcode.mpr ⟨rfl, "de", List.mem_cons_self, "bye", hbye⟩]
    rfl
  · have hok := hor.resolve_right fun h => Bool.false_ne_true (hcode'.mp h).1
    rw [hlenient, hok]
    rfl

end Command

end Phrasebook
