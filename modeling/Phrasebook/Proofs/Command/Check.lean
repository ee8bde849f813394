import Mathlib
import Phrasebook.Command.Check
import Phrasebook.Proofs.Translation.Strictness

/-!
# Checking and strictness

The check reads documents leniently, so that it finds all issues, and counts the errors in them. The
count is zero for the documents that are read strictly, and only for those, since every issue has an
error.
-/

namespace Phrasebook.Command

/-- A document is read strictly for the locale that its path names. -/
def CompilesStrictly (path document : String) : Prop :=
  ∃ table, Table.read ((Path.stem? path).getD "") document true = .ok (table, [])

theorem compilesStrictly_iff_isOk (path document : String) :
    CompilesStrictly path document ↔
      (Table.read ((Path.stem? path).getD "") document true).isOk := by
  unfold CompilesStrictly
  cases hread : Table.read ((Path.stem? path).getD "") document true with
  | error e => simp [Except.isOk, Except.toBool]
  | ok p =>
      obtain ⟨table, issues⟩ := p
      rw [(Table.read_strict_ok_iff.mp hread).1]
      exact iff_of_true ⟨table, rfl⟩ rfl

instance (path document : String) : Decidable (CompilesStrictly path document) :=
  decidable_of_iff _ (compilesStrictly_iff_isOk path document).symm

/-- What is found in a document at a path. -/
def report (path document : String) : FileReport :=
  match Table.read ((Path.stem? path).getD "") document false with
  | .ok (table, issues) => ⟨path, table.size, issues, none⟩
  | .error e => ⟨path, 0, [], some e⟩

theorem FileReport.errorCount_eq_zero_iff (r : FileReport) :
    r.errorCount = 0 ↔ (∀ i ∈ r.issues, i.errors = []) ∧ r.failure? = none := by
  have sum : ∀ issues : List TemplateIssue,
      (issues.map (·.errors.length)).foldr (· + ·) 0 = 0 ↔ ∀ i ∈ issues, i.errors = [] := by
    intro issues
    induction issues with
    | nil => simp
    | cons i issues ih => simp [ih]
  rw [errorCount, Nat.add_eq_zero_iff, sum]
  cases r.failure? <;> simp

/-- Errors are counted in the documents that are not read strictly. -/
theorem errorCount_report_eq_zero_iff (path document : String) :
    (report path document).errorCount = 0 ↔ CompilesStrictly path document := by
  simp only [FileReport.errorCount_eq_zero_iff, CompilesStrictly, Table.read_strict_ok_iff, report,
    true_and]
  cases hread : Table.read ((Path.stem? path).getD "") document false with
  | error e => simp
  | ok p =>
      obtain ⟨table, issues⟩ := p
      have herrors := Table.errors_ne_nil_of_read hread
      cases issues with
      | nil => simp
      | cons i issues => simp [herrors i (by simp)]

section

variable {files : FileTree} {path document : String} (h : files.readText path = .ok document)

include h

/-- What can be read is not a directory, so it is checked itself. -/
theorem documentsAt_of_readText : documentsAt files path = .ok [path] := by
  have hfile : files.isDirectory path = false := by
    unfold FileTree.readText at h
    unfold FileTree.isDirectory
    cases hfind : files.find path with
    | error e => rfl
    | ok t =>
        rw [hfind] at h
        cases t with
        | file content => rfl
        | directory entries => cases h
  simp only [documentsAt, hfile]
  rfl

theorem checkFile_of_readText : checkFile files path = .ok (report path document) := by
  simp only [checkFile, report, h, Except.mapError, bind, Except.bind]
  rcases Table.read ((Path.stem? path).getD "") document false with e | ⟨table, issues⟩ <;> rfl

end

theorem mapM_ok {ε α β : Type} {f : α → Except ε β} {g : α → β} {xs : List α}
    (h : ∀ x ∈ xs, f x = .ok (g x)) : xs.mapM f = .ok (xs.map g) := by
  induction xs with
  | nil => rfl
  | cons x xs ih =>
      obtain ⟨hfirst, hothers⟩ := List.forall_mem_cons.mp h
      rw [List.mapM_cons, hfirst, ih hothers]
      rfl

/-- The reports on documents that can all be read. -/
theorem reportsAt_of_readText {files : FileTree} {documents : List (String × String)}
    (h : ∀ d ∈ documents, files.readText d.1 = .ok d.2) :
    reportsAt files (documents.map (·.1)) = .ok (documents.map fun d => report d.1 d.2) := by
  have hpaths : (documents.map (·.1)).mapM (documentsAt files) =
      .ok ((documents.map (·.1)).map fun p => [p]) := by
    apply mapM_ok
    intro p hp
    obtain ⟨d, hd, rfl⟩ := List.mem_map.mp hp
    exact documentsAt_of_readText (h d hd)
  have hreports : (documents.map (·.1)).mapM (checkFile files) =
      .ok (documents.map fun d => report d.1 d.2) := by
    rw [List.mapM_map]
    apply mapM_ok
    intro d hd
    exact checkFile_of_readText (h d hd)
  unfold reportsAt
  rw [hpaths]
  show (((documents.map (·.1)).map fun p => [p]).flatten).mapM (checkFile files) = _
  rw [← List.flatMap_def, List.flatMap_singleton', hreports]

/-- The exit code of a check of documents that can all be read. -/
theorem code_check {files : FileTree} {documents : List (String × String)} (asJson : Bool)
    (hne : documents ≠ []) (h : ∀ d ∈ documents, files.readText d.1 = .ok d.2) :
    (check files (documents.map (·.1)) asJson).code =
      (if (documents.map fun d => report d.1 d.2).any fun r => 0 < r.errorCount
        then ExitCode.dataError else .ok).number := by
  unfold check
  rw [reportsAt_of_readText h]
  cases documents with
  | nil => exact absurd rfl hne
  | cons d documents => cases asJson <;> rfl

/-- Strict and lenient reading agree. A document is read strictly where it is read leniently without
issues, with the same table; otherwise its first issue fails it, unless something else does. So the
check of documents that can all be read finds fault with them unless all are read strictly. -/
theorem read_strict_and_check :
    (∀ locale document : String,
      (∀ table issues, Table.read locale document true = .ok (table, issues) ↔
        issues = [] ∧ Table.read locale document false = .ok (table, [])) ∧
      match Table.read locale document false with
      | .ok (table, []) => Table.read locale document true = .ok (table, [])
      | .ok (_, i :: _) => Table.read locale document true = .error (.rejected locale i)
      | .error e => Table.read locale document true = .error e ∨
          ∃ i, Table.read locale document true = .error (.rejected locale i)) ∧
    ∀ (files : FileTree) (documents : List (String × String)) (asJson : Bool), documents ≠ [] →
      (∀ d ∈ documents, files.readText d.1 = .ok d.2) →
      ((∀ d ∈ documents, CompilesStrictly d.1 d.2) →
        (check files (documents.map (·.1)) asJson).code = ExitCode.ok.number) ∧
      (¬(∀ d ∈ documents, CompilesStrictly d.1 d.2) →
        (check files (documents.map (·.1)) asJson).code = ExitCode.dataError.number) := by
  constructor
  · intro locale document
    exact ⟨fun _ _ => Table.read_strict_ok_iff, Table.read_strict locale document⟩
  · intro files documents asJson hne hread
    have hfaulty : (documents.map fun d => report d.1 d.2).any (fun r => 0 < r.errorCount) = false ↔
        ∀ d ∈ documents, CompilesStrictly d.1 d.2 := by
      simp [← errorCount_report_eq_zero_iff]
    rw [code_check asJson hne hread, ← hfaulty]
    constructor
    · intro h
      rw [if_neg (by simp [h])]
    · intro h
      rw [if_pos (Bool.eq_true_of_not_eq_false h)]

theorem readText_file {files : FileTree} {path document : String}
    (h : files.find path = .ok (.file document.toUTF8)) : files.readText path = .ok document := by
  have hdecode : String.fromUTF8? document.toUTF8 = some document := dif_pos document.isValidUTF8
  simp only [FileTree.readText, h, bind, Except.bind, hdecode]
  rfl

/-- A document without faults. -/
def greeting : String := "\x7b\"hello\": \"Hello\"\x7d"

/-- A document with a brace that is left open. -/
def brokenGreeting : String := "\x7b\"hello\": \"Hello \x7b\"\x7d"

/-- A directory with both documents. -/
def drafts : FileTree := .directory
  [("broken.json", .file brokenGreeting.toUTF8), ("en.json", .file greeting.toUTF8)]

theorem read_strict_and_check_of_drafts :
    (check drafts ["en.json"] false).code = 0 ∧
      (check drafts ["en.json", "broken.json"] true).code = 65 := by
  have hgreeting : drafts.readText "en.json" = .ok greeting := readText_file rfl
  have hbroken : drafts.readText "broken.json" = .ok brokenGreeting := readText_file rfl
  have hclean : CompilesStrictly "en.json" greeting := by decide +kernel
  have hfaulty : ¬CompilesStrictly "broken.json" brokenGreeting := by decide +kernel
  constructor
  · apply (read_strict_and_check.2 drafts [("en.json", greeting)] false (by simp) ?_).1
    · exact List.forall_mem_singleton.mpr hclean
    · exact List.forall_mem_singleton.mpr hgreeting
  · apply (read_strict_and_check.2 drafts
      [("en.json", greeting), ("broken.json", brokenGreeting)] true (by simp) ?_).2
    · intro h
      exact hfaulty (h ("broken.json", brokenGreeting) (by simp))
    · exact List.forall_mem_cons.mpr ⟨hgreeting, List.forall_mem_singleton.mpr hbroken⟩

end Phrasebook.Command
