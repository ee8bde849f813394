import Mathlib
import Phrasebook.Proofs.Catalog.Log

/-!
# Attempts to load

A call that loads something comes down to attempts to load one document each, which are made in
order until one fails (`Loading.attempts`). What an attempt loads does not depend on what the
catalog holds, except that loading a locale again looks for its file.
-/

namespace Phrasebook

namespace Loaded

/-- Loads a document, for a catalog that is strict or not. -/
def ofText (strict : Bool) (path? : Option String) (locale document : String) :
    Except LoadError Loaded :=
  (Table.read locale document strict).map fun r => ⟨locale, r.1, path?⟩

/-- Loads a document that is given by its bytes, if these can be read. -/
def ofReader (strict : Bool) (locale : String) :
    Except FileError ByteArray → Except LoadError Loaded
  | .ok bytes =>
    match String.fromUTF8? bytes with
    | some document => ofText strict none locale document
    | none => .error (.file .notText)
  | .error e => .error (.file e)

/-- Loads a file, whose name without the extension is the locale. -/
def ofFile (strict : Bool) (files : FileTree) (path : String) : Except LoadError Loaded :=
  match (Path.stem? path).filter (· != "") with
  | some locale =>
    match files.readText path with
    | .ok document => ofText strict (some path) locale document
    | .error e => .error (.file e)
  | none => .error .invalidPath

/-- The loads before the first failure. -/
def successes : List (Except LoadError Loaded) → List Loaded
  | .ok l :: attempts => l :: successes attempts
  | _ => []

/-- The first failure. -/
def failure? : List (Except LoadError Loaded) → Option LoadError
  | [] => none
  | .ok _ :: attempts => failure? attempts
  | .error e :: _ => some e

section

variable {strict : Bool} {l : Loaded}

theorem of_ofText {path? : Option String} {locale document : String}
    (h : ofText strict path? locale document = .ok l) : l.locale = locale ∧ l.path? = path? := by
  unfold ofText at h
  cases hread : Table.read locale document strict with
  | error e =>
      rw [hread] at h
      cases h
  | ok r =>
      rw [hread] at h
      cases h
      exact ⟨rfl, rfl⟩

theorem of_ofFile {files : FileTree} {path : String} (h : ofFile strict files path = .ok l) :
    Path.stem? path = some l.locale ∧ l.path? = some path := by
  unfold ofFile at h
  split at h
  · next locale hstem =>
      split at h
      · obtain ⟨hlocale, hpath⟩ := of_ofText h
        rw [hlocale]
        exact ⟨(Option.filter_eq_some_iff.mp hstem).1, hpath⟩
      · cases h
  · cases h

theorem located_of_path?_eq_none (h : l.path? = none) : l.Located := by
  intro path hpath
  rw [h] at hpath
  cases hpath

theorem located_ofReader {locale : String} {source : Except FileError ByteArray}
    (h : ofReader strict locale source = .ok l) : l.Located := by
  unfold ofReader at h
  split at h
  · split at h
    · exact located_of_path?_eq_none (of_ofText h).2
    · cases h
  · cases h

theorem located_ofFile {files : FileTree} {path : String} (h : ofFile strict files path = .ok l) :
    l.Located := by
  obtain ⟨hstem, hpath⟩ := of_ofFile h
  intro path' hpath'
  rw [hpath, Option.some.injEq] at hpath'
  rw [← hpath', hstem]

end

theorem mem_successes {attempts : List (Except LoadError Loaded)} {l : Loaded}
    (h : l ∈ successes attempts) : .ok l ∈ attempts := by
  induction attempts with
  | nil => cases h
  | cons attempt attempts ih =>
      cases attempt with
      | error e => cases h
      | ok l' =>
          obtain rfl | h := List.mem_cons.mp h
          · exact List.mem_cons_self
          · exact List.mem_cons_of_mem _ (ih h)

theorem successes_append {attempts : List (Except LoadError Loaded)} (h : failure? attempts = none)
    (more : List (Except LoadError Loaded)) :
    successes (attempts ++ more) = successes attempts ++ successes more := by
  induction attempts with
  | nil => rfl
  | cons attempt attempts ih =>
      cases attempt with
      | error e => cases h
      | ok l => exact congrArg (l :: ·) (ih h)

theorem failure?_append {attempts : List (Except LoadError Loaded)} (h : failure? attempts = none)
    (more : List (Except LoadError Loaded)) : failure? (attempts ++ more) = failure? more := by
  induction attempts with
  | nil => rfl
  | cons attempt attempts ih =>
      cases attempt with
      | error e => cases h
      | ok l => exact ih h

/-- Attempts behind a failure are not made. -/
theorem append_of_failure {attempts : List (Except LoadError Loaded)} {e : LoadError}
    (h : failure? attempts = some e) (more : List (Except LoadError Loaded)) :
    successes (attempts ++ more) = successes attempts ∧ failure? (attempts ++ more) = some e := by
  induction attempts with
  | nil => cases h
  | cons attempt attempts ih =>
      cases attempt with
      | error e' => exact ⟨rfl, h⟩
      | ok l => exact ⟨congrArg (l :: ·) (ih h).1, (ih h).2⟩

/-- The attempt that fails, and those before it. -/
theorem exists_of_failure {α : Type} {f : α → Except LoadError Loaded} {xs : List α} {e : LoadError}
    (h : failure? (xs.map f) = some e) :
    ∃ before x rest, xs = before ++ x :: rest ∧ (∀ y ∈ before, ∃ l, f y = .ok l) ∧ f x = .error e ∧
      successes (xs.map f) = successes (before.map f) := by
  induction xs with
  | nil => cases h
  | cons x xs ih =>
      cases hx : f x with
      | error e' =>
          rw [List.map_cons, hx] at h
          cases h
          exact ⟨[], x, xs, rfl, by simp, hx, by rw [List.map_cons, hx]; rfl⟩
      | ok l =>
          rw [List.map_cons, hx] at h
          obtain ⟨before, y, rest, hxs, hbefore, hy, hsuccesses⟩ := ih h
          refine ⟨x :: before, y, rest, by rw [hxs, List.cons_append], ?_, hy, ?_⟩
          · exact List.forall_mem_cons.mpr ⟨⟨l, hx⟩, hbefore⟩
          · rw [List.map_cons, List.map_cons, hx]
            exact congrArg (l :: ·) hsuccesses

end Loaded

/-- A call that loads something. -/
inductive Loading where
  | text (locale document : String)
  /-- Loads what a reader gives, which may fail. -/
  | reader (locale : String) (source : Except FileError ByteArray)
  | file (path : String)
  | directory (path : String)
  | reload (locale : String)

namespace Loading

/-- What a call does. -/
def run (files : FileTree) : Loading → Catalog.Load (List TemplateIssue)
  | text locale document => Catalog.loadText locale document
  | reader locale source => do Catalog.loadBytes locale (← Catalog.reading source)
  | file path => Catalog.loadFile files path
  | directory path => Catalog.loadDirectory files path
  | reload locale => Catalog.reload files locale

/-- The attempts that a call makes in order, behind the loads of a log. -/
def attempts (strict : Bool) (log : List Loaded) (files : FileTree) :
    Loading → List (Except LoadError Loaded)
  | text locale document => [Loaded.ofText strict none locale document]
  | reader locale source => [Loaded.ofReader strict locale source]
  | file path => [Loaded.ofFile strict files path]
  | directory path =>
    match Catalog.documents files path with
    | .ok paths => paths.map (Loaded.ofFile strict files)
    | .error e => [.error (.file e)]
  | reload locale =>
    match (Loaded.last? log locale).bind (·.path?) with
    | some path => [Loaded.ofFile strict files path]
    | none => [.error (.noFile locale)]

/-- The log behind one more call, with the files at its time. -/
def record (strict : Bool) (log : List Loaded) (call : FileTree × Loading) : List Loaded :=
  log ++ Loaded.successes (call.2.attempts strict log call.1)

/-- The log of calls, each with the files at its time. -/
def log (strict : Bool) (calls : List (FileTree × Loading)) : List Loaded :=
  calls.foldl (record strict) []

theorem located_attempts {strict : Bool} {log : List Loaded} {files : FileTree} {loading : Loading}
    {l : Loaded} (h : .ok l ∈ loading.attempts strict log files) : l.Located := by
  cases loading with
  | text locale document =>
      exact Loaded.located_of_path?_eq_none (Loaded.of_ofText (List.mem_singleton.mp h).symm).2
  | reader locale source => exact Loaded.located_ofReader (List.mem_singleton.mp h).symm
  | file path => exact Loaded.located_ofFile (List.mem_singleton.mp h).symm
  | directory path =>
      rw [attempts] at h
      split at h
      · obtain ⟨path, -, hpath⟩ := List.mem_map.mp h
        exact Loaded.located_ofFile hpath
      · cases List.mem_singleton.mp h
  | reload locale =>
      rw [attempts] at h
      split at h
      · exact Loaded.located_ofFile (List.mem_singleton.mp h).symm
      · cases List.mem_singleton.mp h

/-- All files in a log have the names of their locales. -/
theorem located_log (strict : Bool) (calls : List (FileTree × Loading)) :
    ∀ l ∈ log strict calls, l.Located := by
  induction calls using List.reverseRecOn with
  | nil => simp [log]
  | append_singleton calls call ih =>
      intro l hl
      rw [log, List.foldl_append, List.foldl_cons, List.foldl_nil, record, List.mem_append] at hl
      obtain hl | hl := hl
      · exact ih l hl
      · exact located_attempts (Loaded.mem_successes hl)

/-- Loading a locale again loads that locale, which was loaded before. -/
theorem locale_of_reload {strict : Bool} {log : List Loaded} (hlog : ∀ l ∈ log, l.Located)
    {files : FileTree} {locale : String} {l : Loaded}
    (h : .ok l ∈ (reload locale).attempts strict log files) :
    l.locale = locale ∧ locale ∈ log.map (·.locale) := by
  rw [attempts] at h
  split at h
  · next path hpath =>
      obtain ⟨previous, hlast, hprevious⟩ := Option.bind_eq_some_iff.mp hpath
      obtain ⟨hmem, hlocale⟩ := Loaded.last?_eq_some hlast
      have hstem := (Loaded.of_ofFile (List.mem_singleton.mp h).symm).1
      rw [hlog previous hmem path hprevious, hlocale, Option.some.injEq] at hstem
      exact ⟨hstem.symm, List.mem_map.mpr ⟨previous, hmem, hlocale⟩⟩
  · cases List.mem_singleton.mp h

/-- All calls but those for a directory make one attempt. -/
theorem attempts_eq_singleton {loading : Loading} (h : ∀ path, loading ≠ .directory path)
    (strict : Bool) (log : List Loaded) (files : FileTree) :
    ∃ attempt, loading.attempts strict log files = [attempt] := by
  cases loading with
  | directory path => exact absurd rfl (h path)
  | reload locale =>
      rw [attempts]
      split
      · exact ⟨_, rfl⟩
      · exact ⟨_, rfl⟩
  | text | reader | file => exact ⟨_, rfl⟩

end Loading

end Phrasebook
