import Mathlib
import Phrasebook.Proofs.Catalog.Attempts

/-!
# Catalogs as logs of their loads

A call makes its attempts on a catalog in order until one fails (`Catalog.Performs`). So a catalog
is at any time what the log of the attempts that succeeded comes to, whatever was called on it and
however the files changed between the calls.
-/

namespace Phrasebook

namespace FileTree

/-- Sorting gives the one rearrangement that is in order. -/
theorem mergeSort_eq_iff {paths sorted : List String} :
    paths.mergeSort (· ≤ ·) = sorted ↔ sorted.Pairwise (· ≤ ·) ∧ sorted.Perm paths := by
  have hsort : (paths.mergeSort (· ≤ ·)).Pairwise (· ≤ ·) := List.pairwise_mergeSort' _ _
  have hperm : (paths.mergeSort (· ≤ ·)).Perm paths := List.mergeSort_perm _ _
  constructor
  · rintro rfl
    exact ⟨hsort, hperm⟩
  · rintro ⟨hsorted, hpaths⟩
    exact List.Perm.eq_of_pairwise (fun _ _ _ _ => le_antisymm) hsort hsorted
      (hperm.trans hpaths.symm)

/-- The paths in a directory are those of its entries that are wanted, in order. They do not depend
on the order in which the directory lists its entries. -/
theorem listPaths_eq_ok_iff {t : FileTree} {wanted : String × FileTree → Bool}
    {directory : String} {paths : List String} :
    t.listPaths wanted directory = .ok paths ↔
      ∃ entries, t.list directory = .ok entries ∧ paths.Pairwise (· ≤ ·) ∧
        paths.Perm ((entries.filter wanted).map fun e => Path.join directory e.1) := by
  rw [listPaths]
  cases t.list directory with
  | error cause =>
      constructor
      · intro h
        cases h
      · rintro ⟨entries, hentries, -⟩
        cases hentries
  | ok entries =>
      show Except.ok _ = Except.ok paths ↔ _
      rw [Except.ok.injEq, mergeSort_eq_iff]
      constructor
      · intro h
        exact ⟨entries, rfl, h⟩
      · rintro ⟨_, ⟨⟩, h⟩
        exact h

end FileTree

namespace Catalog

open Loaded (successes failure?)

/-- The result of an action on a catalog, and the catalog behind it. -/
def Load.on {α : Type} (act : Load α) (c : Catalog) : Except LoadError α × Catalog := act c

theorem Load.on_bind {α β : Type} (act : Load α) (f : α → Load β) (c : Catalog) :
    Load.on (act >>= f) c =
      match act.on c with
      | (.ok a, c) => (f a).on c
      | (.error e, c) => (.error e, c) := by
  have hbind : Load.on (act >>= f) c =
      (ExceptT.bindCont f (act.on c).1 : StateM Catalog _) (act.on c).2 := rfl
  rw [hbind]
  rcases act.on c with ⟨e | a, c⟩ <;> rfl

theorem Load.on_get (c : Catalog) : Load.on get c = (.ok c, c) := rfl

/-- The catalog after loads. -/
def publishAll (c : Catalog) (loads : List Loaded) : Catalog :=
  { c with
    snapshot := loads.foldl (fun s l => s.publish l.locale l.table l.path?) c.snapshot }

@[simp] theorem publishAll_nil (c : Catalog) : c.publishAll [] = c := rfl

@[simp] theorem settings_publishAll (c : Catalog) (loads : List Loaded) :
    (c.publishAll loads).settings = c.settings := rfl

theorem publishAll_append (c : Catalog) (loads more : List Loaded) :
    c.publishAll (loads ++ more) = (c.publishAll loads).publishAll more := by
  simp only [publishAll, List.foldl_append]

theorem describes_publishAll {c : Catalog} {log : List Loaded} (h : c.snapshot.Describes log)
    (loads : List Loaded) : (c.publishAll loads).snapshot.Describes (log ++ loads) := by
  induction loads generalizing c log with
  | nil => simpa using h
  | cons l loads ih =>
      rw [← List.singleton_append, ← List.append_assoc, publishAll_append]
      exact ih (h.publish l)

/-- On a catalog, an action makes attempts in order until one fails: it fails where that one does,
and what was loaded before stays. -/
structure Performs (act : Load (List TemplateIssue)) (c : Catalog)
    (attempts : List (Except LoadError Loaded)) : Prop where
  error_iff : ∀ e, (act.on c).1 = .error e ↔ failure? attempts = some e
  catalog : (act.on c).2 = c.publishAll (successes attempts)

namespace Performs

variable {act act' : Load (List TemplateIssue)} {c : Catalog}
  {attempts attempts' : List (Except LoadError Loaded)}

theorem nothing (c : Catalog) : Performs (pure []) c [] where
  error_iff e := by
    constructor
    · intro h
      cases h
    · intro h
      cases h
  catalog := rfl

theorem failed {e : LoadError} (h : act.on c = (.error e, c)) : Performs act c [.error e] where
  error_iff e' := by
    rw [h]
    show Except.error e = .error e' ↔ some e = some e'
    rw [Except.error.injEq, Option.some.injEq]
  catalog := by
    rw [h]
    rfl

theorem loaded {l : Loaded} {issues : List TemplateIssue}
    (h : act.on c = (.ok issues, c.publishAll [l])) : Performs act c [.ok l] where
  error_iff e := by
    rw [h]
    constructor
    · intro h
      cases h
    · intro h
      cases h
  catalog := by
    rw [h]
    rfl

theorem failure?_eq_none (h : Performs act c attempts) {issues : List TemplateIssue}
    (hact : (act.on c).1 = .ok issues) : failure? attempts = none := by
  cases hfailure : failure? attempts with
  | none => rfl
  | some e =>
      rw [← h.error_iff, hact] at hfailure
      cases hfailure

/-- What stands behind an action is done on the catalog that it leaves, unless it fails. -/
theorem append (first : Performs act c attempts)
    (rest : Performs act' (c.publishAll (successes attempts)) attempts') :
    Performs (do return (← act) ++ (← act')) c (attempts ++ attempts') := by
  have herror := first.error_iff
  have hcatalog := first.catalog
  obtain ⟨herror', hcatalog'⟩ := rest
  rcases hact : act.on c with ⟨e | issues, c₁⟩
  · have hfailure : failure? attempts = some e := (herror e).mp (by rw [hact])
    obtain ⟨hsuccesses, hfailures⟩ := Loaded.append_of_failure hfailure attempts'
    have hall : Load.on (do return (← act) ++ (← act')) c = (.error e, c₁) := by
      rw [Load.on_bind, hact]
    constructor
    · intro e'
      rw [hall, hfailures, Except.error.injEq, Option.some.injEq]
    · rw [hall, hsuccesses, ← hcatalog, hact]
  · have hfailure : failure? attempts = none := first.failure?_eq_none (by rw [hact])
    rw [hact] at hcatalog
    change c₁ = _ at hcatalog
    have hall : Load.on (do return (← act) ++ (← act')) c =
        ((act'.on (c.publishAll (successes attempts))).1.map (issues ++ ·),
          (act'.on (c.publishAll (successes attempts))).2) := by
      rw [Load.on_bind, hact, ← hcatalog]
      show Load.on (act' >>= fun issues' => pure (issues ++ issues')) c₁ = _
      rw [Load.on_bind]
      rcases act'.on c₁ with ⟨e | issues', c₂⟩ <;> rfl
    constructor
    · intro e
      rw [hall, Loaded.failure?_append hfailure, ← herror']
      rcases act'.on (c.publishAll (successes attempts)) with ⟨e' | issues', c₂⟩
      · rfl
      · simp [Except.map]
    · rw [hall, Loaded.successes_append hfailure, publishAll_append, ← hcatalog']

end Performs

variable (c : Catalog) (files : FileTree)

theorem performs_loadFrom (path? : Option String) (locale document : String) :
    Performs (loadFrom path? locale document) c
      [Loaded.ofText c.settings.strict path? locale document] := by
  unfold Loaded.ofText
  cases hread : Table.read locale document c.settings.strict with
  | error e =>
      apply Performs.failed
      simp only [loadFrom, Load.on_bind, Load.on_get, hread]
      rfl
  | ok r =>
      have hload : (loadFrom path? locale document).on c =
          (.ok r.2, c.publishAll [⟨locale, r.1, path?⟩]) := by
        simp only [loadFrom, Load.on_bind, Load.on_get, hread]
        rfl
      exact .loaded hload

theorem performs_loadFile (path : String) :
    Performs (loadFile files path) c [Loaded.ofFile c.settings.strict files path] := by
  unfold loadFile Loaded.ofFile
  cases (Path.stem? path).filter (· != "") with
  | none => exact .failed rfl
  | some locale =>
      cases files.readText path with
      | error e => exact .failed rfl
      | ok document => exact performs_loadFrom c (some path) locale document

theorem performs_loadBytes (locale : String) (source : Except FileError ByteArray) :
    Performs (do loadBytes locale (← reading source)) c
      [Loaded.ofReader c.settings.strict locale source] := by
  cases source with
  | error e => exact .failed rfl
  | ok bytes =>
      show Performs (loadBytes locale bytes) c _
      unfold loadBytes Loaded.ofReader
      simp only
      cases String.fromUTF8? bytes with
      | none => exact .failed rfl
      | some document => exact performs_loadFrom c none locale document

/-- Files are loaded in order until one fails. -/
theorem performs_loadFiles (paths : List String) :
    Performs (loadFiles files paths) c (paths.map (Loaded.ofFile c.settings.strict files)) := by
  induction paths generalizing c with
  | nil => exact .nothing c
  | cons path paths ih =>
      rw [loadFiles, List.map_cons, ← List.singleton_append]
      exact (performs_loadFile c files path).append (ih _)

/-- A call makes its attempts, if the log is that of the catalog. -/
theorem performs_run {log : List Loaded} (h : c.snapshot.Describes log) (loading : Loading) :
    Performs (loading.run files) c (loading.attempts c.settings.strict log files) := by
  cases loading with
  | text locale document => exact performs_loadFrom c none locale document
  | reader locale source => exact performs_loadBytes c locale source
  | file path => exact performs_loadFile c files path
  | directory path =>
      rw [Loading.run, Loading.attempts, loadDirectory]
      cases documents files path with
      | error e => exact .failed rfl
      | ok paths => exact performs_loadFiles c files paths
  | reload locale =>
      rw [Loading.run, Loading.attempts, ← h.paths]
      cases hpath : c.snapshot.paths.find? locale with
      | none =>
          apply Performs.failed
          simp only [reload, Load.on_bind, Load.on_get, hpath]
          rfl
      | some path =>
          have hreload : (reload files locale).on c = (loadFile files path).on c := by
            simp only [reload, Load.on_bind, Load.on_get, hpath]
          obtain ⟨herror, hcatalog⟩ := performs_loadFile c files path
          rw [← hreload] at herror hcatalog
          exact ⟨herror, hcatalog⟩

/-- The catalog after a call, with the files at its time. -/
def after (c : Catalog) (call : FileTree × Loading) : Catalog := ((call.2.run call.1).on c).2

variable {c} {log : List Loaded}

theorem after_eq (h : c.snapshot.Describes log) (call : FileTree × Loading) :
    c.after call = c.publishAll (successes (call.2.attempts c.settings.strict log call.1)) :=
  (performs_run c call.1 h call.2).catalog

/-- A call keeps up that a catalog is what its log comes to. -/
theorem describes_after (h : c.snapshot.Describes log) (call : FileTree × Loading) :
    (c.after call).snapshot.Describes (Loading.record c.settings.strict log call) := by
  rw [after_eq h]
  exact describes_publishAll h _

/-- A catalog is what its log comes to, behind any calls. -/
theorem describes_foldl (h : c.snapshot.Describes log) (calls : List (FileTree × Loading)) :
    (calls.foldl after c).settings = c.settings ∧
      (calls.foldl after c).snapshot.Describes
        (calls.foldl (Loading.record c.settings.strict) log) := by
  induction calls generalizing c log with
  | nil => exact ⟨rfl, h⟩
  | cons call calls ih =>
      have hsettings : (c.after call).settings = c.settings := by
        rw [after_eq h, settings_publishAll]
      have hcalls := ih (describes_after h call)
      rw [hsettings] at hcalls
      exact hcalls

/-- A call that makes one attempt changes nothing where it fails. -/
theorem after_of_error (h : c.snapshot.Describes log) {loading : Loading}
    (hloading : ∀ path, loading ≠ .directory path) {e : LoadError}
    (herror : ((loading.run files).on c).1 = .error e) : c.after (files, loading) = c := by
  obtain ⟨attempt, hattempt⟩ :=
    Loading.attempts_eq_singleton hloading c.settings.strict log files
  rw [(performs_run c files h loading).error_iff, hattempt] at herror
  rw [after_eq h, hattempt]
  cases attempt with
  | ok l => cases herror
  | error e => rfl

/-- Files that can all be loaded are loaded one by one. -/
theorem foldl_after_file {paths : List String}
    (h : ∀ p ∈ paths, ∃ l, Loaded.ofFile c.settings.strict files p = .ok l) :
    paths.foldl (fun c p => c.after (files, .file p)) c =
      c.publishAll (successes (paths.map (Loaded.ofFile c.settings.strict files))) := by
  induction paths generalizing c with
  | nil => rfl
  | cons path paths ih =>
      obtain ⟨⟨l, hl⟩, hpaths⟩ := List.forall_mem_cons.mp h
      have hfirst : c.after (files, .file path) = c.publishAll [l] := by
        have hcatalog := (performs_loadFile c files path).catalog
        rw [hl] at hcatalog
        exact hcatalog
      rw [List.foldl_cons, hfirst, ih (c := c.publishAll [l]) hpaths, List.map_cons, hl]
      rfl

/-- Loading a directory fails since the directory cannot be listed, and then nothing changes, or
since one of its files fails, and then those before it are loaded, as if they were loaded one by
one. -/
theorem after_directory_of_error (h : c.snapshot.Describes log) {path : String} {e : LoadError}
    (herror : ((loadDirectory files path).on c).1 = .error e) :
    (∃ cause, documents files path = .error cause ∧ c.after (files, .directory path) = c) ∨
    ∃ before failing rest, documents files path = .ok (before ++ failing :: rest) ∧
      (∀ p ∈ before, ∃ l, Loaded.ofFile c.settings.strict files p = .ok l) ∧
      Loaded.ofFile c.settings.strict files failing = .error e ∧
      c.after (files, .directory path) = before.foldl (fun c p => c.after (files, .file p)) c := by
  have hrun : (Loading.directory path).run files = loadDirectory files path := rfl
  rw [← hrun, (performs_run c files h (.directory path)).error_iff, Loading.attempts] at herror
  rw [after_eq h, Loading.attempts]
  cases hdocuments : documents files path with
  | error cause => exact .inl ⟨cause, rfl, rfl⟩
  | ok paths =>
      rw [hdocuments] at herror
      obtain ⟨before, failing, rest, hpaths, hbefore, hfailing, hsuccesses⟩ :=
        Loaded.exists_of_failure herror
      refine .inr ⟨before, failing, rest, by rw [hpaths], hbefore, hfailing, ?_⟩
      rw [foldl_after_file files hbefore, ← hsuccesses]

/-- Loading a locale again leaves all others as they are, whether it fails or not. -/
theorem after_reload (h : c.snapshot.Describes log) (hlog : ∀ l ∈ log, l.Located)
    (locale : String) :
    (c.after (files, .reload locale)).locales = c.locales ∧ ∀ other ≠ locale,
      (c.after (files, .reload locale)).snapshot.tables.find? other =
        c.snapshot.tables.find? other ∧
      (c.after (files, .reload locale)).snapshot.paths.find? other =
        c.snapshot.paths.find? other := by
  have hloads : ∀ l ∈ successes ((Loading.reload locale).attempts c.settings.strict log files),
      l.locale = locale ∧ locale ∈ log.map (·.locale) :=
    fun l hl => Loading.locale_of_reload hlog (Loaded.mem_successes hl)
  have hafter := describes_after h (files, .reload locale)
  constructor
  · rw [locales, locales, hafter.order, h.order, Loading.record, List.map_append]
    apply eraseDups_append_of_subset
    intro other hother
    obtain ⟨l, hl, rfl⟩ := List.mem_map.mp hother
    rw [(hloads l hl).1]
    exact (hloads l hl).2
  · intro other hother
    have hlast : Loaded.last? (Loading.record c.settings.strict log (files, .reload locale)) other =
        Loaded.last? log other := by
      apply Loaded.last?_append_of_ne
      intro l hl
      rw [(hloads l hl).1]
      exact hother.symm
    rw [hafter.tables, h.tables, hafter.paths, h.paths, hlast]
    exact ⟨rfl, rfl⟩

/-- A catalog holds what was loaded into it: the locales of the log in the order of their first
loads, each with the table of its last load, and with the file if that came from one. -/
structure Follows (c : Catalog) (log : List Loaded) : Prop where
  locales_eq : c.locales = (log.map (·.locale)).eraseDups
  nodup_locales : c.locales.Nodup
  mem_locales_iff : ∀ locale, locale ∈ c.locales ↔ ∃ l ∈ log, l.locale = locale
  table_eq : ∀ locale,
    c.snapshot.tables.find? locale = (Loaded.last? log locale).map (·.table)
  path_eq : ∀ locale, c.snapshot.paths.find? locale = (Loaded.last? log locale).bind (·.path?)
  stem_path : ∀ locale path, c.snapshot.paths.find? locale = some path →
    Path.stem? path = some locale

/-- What calls do to a catalog, by the log of what was loaded into it. -/
structure Answers (c : Catalog) (log : List Loaded) (files : FileTree) : Prop where
  /-- A call fails for the reason for which the first of its attempts fails that does. -/
  error_iff : ∀ (loading : Loading) e, ((loading.run files).on c).1 = .error e ↔
    failure? (loading.attempts c.settings.strict log files) = some e
  /-- What fails changes nothing, unless it is for a directory. -/
  unchanged : ∀ (loading : Loading) e, (∀ path, loading ≠ .directory path) →
    ((loading.run files).on c).1 = .error e → c.after (files, loading) = c
  /-- Where a directory fails, the files before the one that fails are loaded. -/
  directory : ∀ path e, ((loadDirectory files path).on c).1 = .error e →
    (∃ cause, documents files path = .error cause ∧ c.after (files, .directory path) = c) ∨
    ∃ before failing rest, documents files path = .ok (before ++ failing :: rest) ∧
      (∀ p ∈ before, ∃ l, Loaded.ofFile c.settings.strict files p = .ok l) ∧
      Loaded.ofFile c.settings.strict files failing = .error e ∧
      c.after (files, .directory path) = before.foldl (fun c p => c.after (files, .file p)) c
  /-- The files of a directory are its documents in the order of their paths. -/
  documents_iff : ∀ path paths, documents files path = .ok paths ↔
    ∃ entries, files.list path = .ok entries ∧ paths.Pairwise (· ≤ ·) ∧
      paths.Perm ((entries.filter isDocument).map fun e => Path.join path e.1)
  /-- Loading a locale again changes no other one. -/
  reload : ∀ locale,
    (c.after (files, .reload locale)).locales = c.locales ∧ ∀ other ≠ locale,
      (c.after (files, .reload locale)).snapshot.tables.find? other =
        c.snapshot.tables.find? other ∧
      (c.after (files, .reload locale)).snapshot.paths.find? other =
        c.snapshot.paths.find? other

/-- A new catalog follows the log of the calls on it, with any files at the time of each, and
answers calls by that log. -/
theorem follows_log (settings : Settings) (calls : List (FileTree × Loading)) :
    (calls.foldl after (new settings)).settings = settings ∧
      (calls.foldl after (new settings)).Follows (Loading.log settings.strict calls) ∧
      ∀ files, (calls.foldl after (new settings)).Answers (Loading.log settings.strict calls)
        files := by
  obtain ⟨hsettings, hdescribes⟩ := describes_foldl (c := new settings) .empty calls
  change Snapshot.Describes _ (Loading.log settings.strict calls) at hdescribes
  have hlog := Loading.located_log settings.strict calls
  refine ⟨hsettings, ?_, ?_⟩
  · exact {
      locales_eq := hdescribes.order
      nodup_locales := hdescribes.nodup_order
      mem_locales_iff := hdescribes.mem_order_iff
      table_eq := hdescribes.tables
      path_eq := hdescribes.paths
      stem_path := fun _ _ hpath => hdescribes.stem_path hlog hpath }
  · intro files
    exact {
      error_iff := fun loading => (performs_run _ files hdescribes loading).error_iff
      unchanged := fun _ _ hloading herror => after_of_error files hdescribes hloading herror
      directory := fun _ _ herror => after_directory_of_error files hdescribes herror
      documents_iff := fun _ _ => FileTree.listPaths_eq_ok_iff
      reload := after_reload files hdescribes hlog }

/-- The entries of a directory, with a document in which a brace is left open in front of a document
whose name comes first. -/
def shelved : List (String × FileTree) :=
  [("en.json", .file "\x7b\"hello\": \"Hello \x7b\"\x7d".toUTF8),
    ("de.json", .file "\x7b\"hello\": \"Hallo\"\x7d".toUTF8)]

/-- Files with that directory. -/
def shelf : FileTree := .directory [("texts", .directory shelved)]

/-- The directory is loaded up to the broken document. Then all files are gone, a locale is loaded
from a text, and the one that came from a file cannot be loaded again. -/
def shelfCalls : List (FileTree × Loading) :=
  [(shelf, .directory "texts"), (.empty, .text "fr" "\x7b\x7d"), (.empty, .reload "de")]

theorem log_shelfCalls
    (hdocuments : documents shelf "texts" = .ok ["texts/de.json", "texts/en.json"]) :
    Loading.log true shelfCalls =
      [(.empty, .text "fr" "\x7b\x7d"), (.empty, .reload "de")].foldl (Loading.record true)
        (successes (["texts/de.json", "texts/en.json"].map (Loaded.ofFile true shelf))) := by
  have hfirst : Loading.record true [] (shelf, .directory "texts") =
      successes (["texts/de.json", "texts/en.json"].map (Loaded.ofFile true shelf)) := by
    rw [Loading.record, Loading.attempts, hdocuments, List.nil_append]
  rw [Loading.log, shelfCalls, List.foldl_cons, hfirst]

/-- The directory was loaded up to the broken document, and so it would be again. -/
theorem follows_log_of_shelf :
    let c := shelfCalls.foldl after (new {})
    c.locales = ["de", "fr"] ∧ c.snapshot.paths.find? "de" = some "texts/de.json" ∧
      Path.stem? "texts/de.json" = some "de" ∧ c.after (.empty, .reload "de") = c ∧
      documents shelf "texts" = .ok ["texts/de.json", "texts/en.json"] ∧
      c.after (shelf, .directory "texts") = c.after (shelf, .file "texts/de.json") := by
  intro c
  obtain ⟨hsettings, hfollows, hanswers⟩ :
      c.settings = {} ∧ c.Follows (Loading.log true shelfCalls) ∧
        ∀ files, c.Answers (Loading.log true shelfCalls) files := follows_log {} shelfCalls
  clear_value c
  have hdocuments : documents shelf "texts" = .ok ["texts/de.json", "texts/en.json"] :=
    ((hanswers shelf).documents_iff _ _).mpr ⟨shelved, rfl, by decide +kernel, .swap ..⟩
  have hlocales : ((Loading.log true shelfCalls).map (·.locale)).eraseDups = ["de", "fr"] := by
    rw [log_shelfCalls hdocuments]
    decide +kernel
  have hpath : (Loaded.last? (Loading.log true shelfCalls) "de").bind (·.path?) =
      some "texts/de.json" := by
    rw [log_shelfCalls hdocuments]
    decide +kernel
  rw [← hfollows.path_eq] at hpath
  have hreload : c.after (.empty, .reload "de") = c := by
    apply (hanswers .empty).unchanged (.reload "de") (.file .notFound) (by simp)
    rw [(hanswers .empty).error_iff, hsettings, Loading.attempts, ← hfollows.path_eq, hpath]
    decide +kernel
  refine ⟨hfollows.locales_eq.trans hlocales, hpath, hfollows.stem_path _ _ hpath, hreload,
    hdocuments, ?_⟩
  obtain ⟨e, hfailure⟩ : ∃ e, failure? ((Loading.directory "texts").attempts c.settings.strict
      (Loading.log true shelfCalls) shelf) = some e := by
    rw [← Option.isSome_iff_exists, hsettings, Loading.attempts, hdocuments]
    decide +kernel
  have herror := ((hanswers shelf).error_iff (.directory "texts") e).mpr hfailure
  obtain ⟨cause, hcause, -⟩ | ⟨before, failing, rest, hpaths, -, hfailing, hafter⟩ :=
    (hanswers shelf).directory "texts" e herror
  · rw [hdocuments] at hcause
    cases hcause
  · rw [hdocuments, Except.ok.injEq] at hpaths
    cases before with
    | nil =>
        have hloaded : (Loaded.ofFile true shelf "texts/de.json").isOk = true := by decide +kernel
        obtain ⟨rfl, -⟩ := List.cons.inj hpaths
        rw [hsettings] at hfailing
        rw [hfailing] at hloaded
        cases hloaded
    | cons first before =>
        obtain ⟨rfl, hrest⟩ := List.cons.inj hpaths
        cases before with
        | nil => exact hafter
        | cons second before => simp at hrest

end Catalog

end Phrasebook
