import Mathlib
import Phrasebook.Proofs.Translation.Compilation

/-!
# The keys of a document

The leaves of a document are its values that are not objects. Each of them has a path, the names of
the members on the way to it. A document is compiled leaf by leaf, in its own order, and the key of
a leaf joins the names of its path; of leaves with the same key the last one stays
(`Table.find?_ofJson`).

A path that is as good as empty so far puts no dot in front of the next name. So empty names at the
start of a path leave no trace in the key, which is why paths of different lengths can meet there.
-/

namespace Phrasebook

namespace Json

/-- A value has a leaf behind a path of member names. -/
inductive HasLeaf : Json → List String → Json → Prop where
  | leaf {j : Json} : (∀ members, j ≠ .object members) → HasLeaf j [] j
  | member {members : List (String × Json)} {name : String} {value leaf : Json}
      {path : List String} : (name, value) ∈ members → HasLeaf value path leaf →
      HasLeaf (.object members) (name :: path) leaf

/-- The leaves of a value behind their paths, in the order of the document. -/
def leaves : Json → List (List String × Json)
  | .object members => ofMembers members
  | j => [([], j)]
where
  /-- The leaves of the members of an object. -/
  ofMembers : List (String × Json) → List (List String × Json)
    | [] => []
    | (name, value) :: members =>
      value.leaves.map (fun l => (name :: l.1, l.2)) ++ ofMembers members

theorem leaves_of_not_object {j : Json} (h : ∀ members, j ≠ .object members) :
    j.leaves = [([], j)] := by
  cases j with
  | object members => exact absurd rfl (h members)
  | _ => rfl

theorem leaves.ofMembers_eq (members : List (String × Json)) :
    ofMembers members =
      members.flatMap fun m => m.2.leaves.map fun l => (m.1 :: l.1, l.2) := by
  induction members with
  | nil => rfl
  | cons m members ih => rw [ofMembers, ih, List.flatMap_cons]

theorem mem_leaves_iff {j leaf : Json} {path : List String} :
    (path, leaf) ∈ j.leaves ↔ j.HasLeaf path leaf := by
  constructor
  · intro h
    induction j generalizing path with
    | object members ih =>
        rw [leaves, leaves.ofMembers_eq, List.mem_flatMap] at h
        obtain ⟨m, hm, hleaf⟩ := h
        obtain ⟨l, hl, heq⟩ := List.mem_map.mp hleaf
        cases heq
        exact .member hm (ih m hm hl)
    | null | bool | number | string | array =>
        cases List.mem_singleton.mp h
        exact .leaf (by simp)
  · intro h
    induction h with
    | leaf hj => simp [leaves_of_not_object hj]
    | @member members name value leaf path hm _ ih =>
        rw [leaves, leaves.ofMembers_eq, List.mem_flatMap]
        exact ⟨_, hm, List.mem_map_of_mem ih⟩

/-- The members of all objects are sorted by name. -/
inductive Sorted : Json → Prop where
  | leaf {j : Json} : (∀ members, j ≠ .object members) → Sorted j
  | object {members : List (String × Json)} : (members.Pairwise fun a b => a.1 < b.1) →
      (∀ m ∈ members, Sorted m.2) → Sorted (.object members)

/-- Of a sorted document the paths of the leaves are sorted too, name by name. -/
theorem Sorted.pairwise_leaves {j : Json} (h : j.Sorted) :
    j.leaves.Pairwise fun a b => a.1 < b.1 := by
  induction h with
  | leaf hj => simp [leaves_of_not_object hj]
  | object hmembers _ ih =>
      rw [leaves, leaves.ofMembers_eq, List.pairwise_flatMap]
      constructor
      · intro m hm
        rw [List.pairwise_map]
        exact (ih m hm).imp fun h => List.cons_lt_cons_iff.mpr (.inr ⟨rfl, h⟩)
      · refine hmembers.imp fun hlt => ?_
        intro a ha b hb
        obtain ⟨l, -, rfl⟩ := List.mem_map.mp ha
        obtain ⟨k, -, rfl⟩ := List.mem_map.mp hb
        exact List.cons_lt_cons_iff.mpr (.inl hlt)

/-- The key of a path. -/
def pathKey (path : List String) : String := ".".intercalate (path.dropWhile (· = ""))

/-- The last leaf of a document with a key. -/
def LastLeaf (document : Json) (key : String) (leaf : Json) : Prop :=
  ∃ before path behind, document.leaves = before ++ (path, leaf) :: behind ∧ pathKey path = key ∧
    ∀ l ∈ behind, pathKey l.1 ≠ key

theorem LastLeaf.hasLeaf {document leaf : Json} {key : String} (h : document.LastLeaf key leaf) :
    ∃ path, document.HasLeaf path leaf ∧ pathKey path = key := by
  obtain ⟨before, path, behind, hleaves, hkey, -⟩ := h
  exact ⟨path, mem_leaves_iff.mp (by simp [hleaves]), hkey⟩

theorem length_pathKey_le (path : List String) :
    (pathKey path).length ≤ (".".intercalate path).length := by
  induction path with
  | nil => exact Nat.le_refl _
  | cons name path ih =>
      rw [pathKey, List.dropWhile_cons]
      split
      · cases path with
        | nil => simp
        | cons next path =>
            rw [String.intercalate_cons_cons, String.length_append]
            exact ih.trans (Nat.le_add_left _ _)
      · exact Nat.le_refl _

/-- The key has all names of the path, unless the path goes on behind an empty name at its start. -/
theorem pathKey_eq_iff {path : List String} :
    pathKey path = ".".intercalate path ↔ ∀ name rest, path ≠ "" :: name :: rest := by
  constructor
  · rintro h name rest rfl
    have hshort := length_pathKey_le (name :: rest)
    have hlength := congrArg String.length h
    rw [String.intercalate_cons_cons, String.length_append, String.length_append] at hlength
    simp only [pathKey, List.dropWhile_cons, decide_true, if_true] at hlength hshort
    have hdot : ".".length = 1 := rfl
    omega
  · intro h
    cases path with
    | nil => rfl
    | cons name path =>
        by_cases hname : name = ""
        · cases path with
          | nil =>
              subst hname
              rfl
          | cons next path => exact absurd (hname ▸ rfl) (h next path)
        · simp [pathKey, hname]

end Json

namespace Dictionary

variable {α : Type}

/-- The last entry of a name is the one that stays. -/
theorem find?_ofList_iff {entries : List (String × α)} {name : String} {v : α} :
    (ofList entries).find? name = some v ↔
      ∃ before behind, entries = before ++ (name, v) :: behind ∧ ∀ e ∈ behind, e.1 ≠ name := by
  induction entries using List.reverseRecOn with
  | nil => simp [ofList, insertAll]
  | append_singleton entries e ih =>
      have hinsert : ofList (entries ++ [e]) = (ofList entries).insert e.1 e.2 :=
        List.foldl_append
      rw [hinsert, find?_insert]
      constructor
      · intro h
        split at h
        · next he =>
            cases h
            exact ⟨entries, [], by rw [← he], by simp⟩
        · next he =>
            obtain ⟨before, behind, rfl, hbehind⟩ := ih.mp h
            refine ⟨before, behind ++ [e], by simp, ?_⟩
            exact List.forall_mem_append.mpr ⟨hbehind, by simpa using he⟩
      · rintro ⟨before, behind, heq, hbehind⟩
        obtain rfl | ⟨front, last, rfl⟩ := List.eq_nil_or_concat' behind
        · obtain ⟨-, hlast⟩ := List.append_inj' heq rfl
          cases hlast
          simp
        · rw [← List.cons_append, ← List.append_assoc] at heq
          obtain ⟨rfl, hsame⟩ := List.append_inj' heq rfl
          cases hsame
          obtain ⟨hfront, hlast⟩ := List.forall_mem_append.mp hbehind
          rw [if_neg (hlast e (by simp))]
          exact ih.mpr ⟨before, front, rfl, hfront⟩

/-- Where no name comes twice, each entry stays. -/
theorem find?_ofList_of_mem {entries : List (String × α)} {name : String} {v : α}
    (hnames : (entries.map (·.1)).Nodup) (h : (name, v) ∈ entries) :
    (ofList entries).find? name = some v := by
  obtain ⟨before, behind, rfl⟩ := List.append_of_mem h
  refine find?_ofList_iff.mpr ⟨before, behind, rfl, ?_⟩
  rw [List.map_append, List.map_cons] at hnames
  have hname := (List.nodup_cons.mp (List.nodup_append.mp hnames).2.1).1
  rintro e he rfl
  exact hname (List.mem_map_of_mem (f := (·.1)) he)

theorem mem_names_insert_iff {d : Dictionary α} {name : String} {value : α} {other : String} :
    other ∈ (d.insert name value).names ↔ other ∈ d.names ∨ other = name := by
  obtain ⟨entries, -⟩ := d
  change other ∈ (insertIn name value entries).map (·.1) ↔ other ∈ entries.map (·.1) ∨ other = name
  fun_induction insertIn name value entries <;> grind

theorem mem_names_ofList_iff {entries : List (String × α)} {name : String} :
    name ∈ (ofList entries).names ↔ name ∈ entries.map (·.1) := by
  induction entries using List.reverseRecOn with
  | nil => exact Iff.rfl
  | append_singleton entries e ih =>
      have hinsert : ofList (entries ++ [e]) = (ofList entries).insert e.1 e.2 :=
        List.foldl_append
      rw [hinsert, mem_names_insert_iff, ih]
      simp

end Dictionary

namespace Translation

namespace Compile

variable {α β : Type}

/-- What the first compilation yields behind some issues, the second one yields behind any. -/
def Reproduces (act act' : Compile α) : Prop :=
  ∀ issues a issues', act.run issues = .ok (a, issues') →
    ∀ before, ∃ behind, act'.run before = .ok (a, behind)

namespace Reproduces

theorem pure (a : α) : Reproduces (pure a) (pure a) := by
  intro issues b issues' h before
  cases h
  exact ⟨before, rfl⟩

theorem throw (e : LoadError) : Reproduces (α := α) (throw e) (throw e) := by
  intro issues a issues' h
  cases h

theorem bind {act act' : Compile α} {f g : α → Compile β} (first : Reproduces act act')
    (rest : ∀ a, Reproduces (f a) (g a)) : Reproduces (act >>= f) (act' >>= g) := by
  intro issues b issues' h before
  rw [run_bind] at h ⊢
  cases hact : act.run issues with
  | error e =>
      rw [hact] at h
      cases h
  | ok p =>
      obtain ⟨a, inner⟩ := p
      rw [hact] at h
      obtain ⟨behind, hbehind⟩ := first issues a inner hact before
      rw [hbehind]
      exact rest a inner b issues' h behind

theorem congruence : Congruence fun _ => Reproduces where
  pure := .pure
  throw := .throw
  bind := .bind

end Reproduces

end Compile

namespace Compiler

theorem reproduces_template (c : Compiler) (key source : String) :
    Compile.Reproduces (c.template key source) (c.template key source) := by
  cases hread : Template.read source with
  | mk t errors =>
      rw [template, hread]
      cases errors with
      | nil => exact .pure t
      | cons e errors =>
          cases hstrict : c.strict with
          | true => exact .throw _
          | false =>
              intro issues a issues' h before
              cases h
              exact ⟨_, rfl⟩

/-- A leaf is compiled to the same translation wherever it stands in the document. -/
theorem reproduces_leaf (c : Compiler) (key : String) (j : Json) :
    Compile.Reproduces (c.leaf key j) (c.leaf key j) :=
  related_leaf Compile.Reproduces.congruence rfl (reproduces_template c) key j

theorem foldl_joinKey (path : List String) : path.foldl joinKey "" = Json.pathKey path := by
  have hjoined : ∀ (path : List String) (key : String), key ≠ "" →
      path.foldl joinKey key = ".".intercalate (key :: path) := by
    intro path
    induction path with
    | nil => simp
    | cons name path ih =>
        intro key hkey
        have hne : key ++ "." ++ name ≠ "" := by simp
        rw [List.foldl_cons, joinKey, if_neg hkey, ih _ hne, String.intercalate_cons_cons]
        cases path <;> simp [String.append_assoc]
  induction path with
  | nil => rfl
  | cons name path ih =>
      rw [List.foldl_cons, joinKey, if_pos rfl, Json.pathKey, List.dropWhile_cons]
      split
      · next hname =>
          rw [of_decide_eq_true hname, ih, Json.pathKey]
      · next hname => exact hjoined path name (by simpa using hname)

/-- Compiles a leaf to the entry of its key. -/
def entry (c : Compiler) (key : String) (leaf : Json) : Compile (String × Translation) :=
  return (key, ← c.leaf key leaf)

/-- A value is compiled leaf by leaf. -/
theorem entries_eq (c : Compiler) (key : String) (j : Json) :
    c.entries key j = (j.leaves.map fun l => c.entry (l.1.foldl joinKey key) l.2).mapM id := by
  induction j generalizing key with
  | object members ih =>
      rw [entries, Json.leaves]
      induction members with
      | nil => rfl
      | cons m members ihMembers =>
          obtain ⟨name, value⟩ := m
          obtain ⟨hvalue, hmembers⟩ := List.forall_mem_cons.mp ih
          rw [entries.entriesOf, Json.leaves.ofMembers, List.map_append, List.mapM_append,
            hvalue, ihMembers hmembers, List.map_map]
          rfl
  | null | bool | number | string | array => simp [entries, Json.leaves, entry]

/-- The entry of a leaf: its translation under the key of its path. -/
def EntryOf (c : Compiler) (e : String × Translation) (l : List String × Json) : Prop :=
  e.1 = Json.pathKey l.1 ∧ ∃ issues, (c.leaf e.1 l.2).run [] = .ok (e.2, issues)

theorem yields_entry (c : Compiler) (path : List String) (leaf : Json) :
    Compile.Yields (c.entry (path.foldl joinKey "") leaf) (c.EntryOf · (path, leaf)) := by
  intro issues e issues' h
  rw [foldl_joinKey, entry, Compile.run_bind] at h
  cases hleaf : (c.leaf (Json.pathKey path) leaf).run issues with
  | error e =>
      rw [hleaf] at h
      cases h
  | ok result =>
      obtain ⟨t, behind⟩ := result
      rw [hleaf] at h
      cases h
      exact ⟨rfl, reproduces_leaf c _ leaf _ _ _ hleaf []⟩

theorem yields_entries (c : Compiler) (document : Json) :
    Compile.Yields (c.entries "" document) (List.Forall₂ c.EntryOf · document.leaves) := by
  rw [entries_eq]
  apply Compile.Yields.mapM_id
  rw [List.forall₂_map_left_iff, List.forall₂_same]
  exact fun l _ => yields_entry c l.1 l.2

theorem yields_table (c : Compiler) (document : Json) :
    Compile.Yields (c.table document) fun table =>
      ∃ entries, table = .ofList entries ∧ List.Forall₂ c.EntryOf entries document.leaves := by
  cases document with
  | object members =>
      refine (yields_entries c (.object members)).bind ?_
      intro entries hentries
      exact .pure ⟨entries, rfl, hentries⟩
  | _ => exact .throw _

end Compiler

end Translation

theorem exists_split_of_forall₂ {α β : Type} {R : α → β → Prop} {before behind : List α} {x : α}
    {ys : List β} (h : List.Forall₂ R (before ++ x :: behind) ys) :
    ∃ before' y behind', ys = before' ++ y :: behind' ∧ R x y ∧ List.Forall₂ R behind behind' := by
  induction before generalizing ys with
  | nil =>
      obtain ⟨y, behind', hx, hbehind, rfl⟩ := List.forall₂_cons_left_iff.mp h
      exact ⟨[], y, behind', rfl, hx, hbehind⟩
  | cons first before ih =>
      obtain ⟨y, ys', -, hys, rfl⟩ := List.forall₂_cons_left_iff.mp h
      obtain ⟨before', x', behind', rfl, hx, hbehind⟩ := ih hys
      exact ⟨y :: before', x', behind', rfl, hx, hbehind⟩

theorem Translation.Compiler.map_pathKey_of_entries {c : Compiler}
    {entries : List (String × Translation)} {leaves : List (List String × Json)}
    (h : List.Forall₂ c.EntryOf entries leaves) :
    leaves.map (Json.pathKey ·.1) = entries.map (·.1) := by
  induction h with
  | nil => rfl
  | cons hfirst _ ih => rw [List.map_cons, List.map_cons, ih, hfirst.1]

/-- A compiled document has under a key what the last leaf with that key is compiled to. -/
theorem Translation.Compiler.find?_of_entries_iff {c : Compiler} {document : Json}
    {entries : List (String × Translation)} (h : List.Forall₂ c.EntryOf entries document.leaves)
    {key : String} {t : Translation} :
    (Dictionary.ofList entries).find? key = some t ↔
      ∃ leaf, document.LastLeaf key leaf ∧ ∃ own, (c.leaf key leaf).run [] = .ok (t, own) := by
  rw [Dictionary.find?_ofList_iff]
  constructor
  · rintro ⟨before, behind, rfl, hbehind⟩
    obtain ⟨before', ⟨path, leaf⟩, behind', hleaves, ⟨hkey, own, hown⟩, hrest⟩ :=
      exists_split_of_forall₂ h
    have hnames := map_pathKey_of_entries hrest
    refine ⟨leaf, ⟨before', path, behind', hleaves, hkey.symm, ?_⟩, own, hown⟩
    rw [← List.forall_mem_map (P := (· ≠ key))] at hbehind ⊢
    rwa [hnames]
  · rintro ⟨leaf, ⟨before, path, behind, hleaves, rfl, hbehind⟩, own, hown⟩
    rw [hleaves] at h
    obtain ⟨before', ⟨key, translation⟩, behind', hsplit, ⟨hkey, own', hown'⟩, hrest⟩ :=
      exists_split_of_forall₂ h.flip
    have hnames := map_pathKey_of_entries hrest.flip
    subst hkey
    cases hown.symm.trans hown'
    refine ⟨before', behind', hsplit, ?_⟩
    rw [← List.forall_mem_map (P := (· ≠ Json.pathKey path))] at hbehind ⊢
    rwa [← hnames]

/-- A document that is compiled has exactly the keys of the paths to its leaves, and under a key
what the last leaf with that key is compiled to. The key has all names of the path, unless the path
goes on behind an empty name at its start. -/
theorem Table.find?_ofJson {locale : String} {document : Json} {strict : Bool} {table : Table}
    {issues : List TemplateIssue} (h : Table.ofJson locale document strict = .ok (table, issues)) :
    (∀ key, key ∈ table.names ↔
      ∃ path leaf, document.HasLeaf path leaf ∧ Json.pathKey path = key) ∧
    (∀ key t, table.find? key = some t ↔ ∃ leaf, document.LastLeaf key leaf ∧
      ∃ own, (Translation.Compiler.leaf ⟨locale, strict⟩ key leaf).run [] = .ok (t, own)) ∧
    (∀ path, Json.pathKey path = ".".intercalate path ↔ ∀ name rest, path ≠ "" :: name :: rest) ∧
    (document.Sorted → document.leaves.Pairwise fun a b => a.1 < b.1) := by
  obtain ⟨entries, rfl, hentries⟩ := Translation.Compiler.yields_table _ _ _ _ _ h
  refine ⟨fun key => ?_, fun key t => Translation.Compiler.find?_of_entries_iff hentries,
    fun _ => Json.pathKey_eq_iff, Json.Sorted.pairwise_leaves⟩
  rw [Dictionary.mem_names_ofList_iff,
    ← Translation.Compiler.map_pathKey_of_entries hentries, List.mem_map]
  simp only [Prod.exists, Json.mem_leaves_iff]

/-- A document with empty names, names with dots and paths that meet in one key. -/
def Json.crossroads : Json :=
  .object [("", .object [("a", .string "first")]), ("a", .string "second"),
    ("b", .object [("", .string "third"), ("c", .string "fourth")]), ("b.c", .string "fifth")]

theorem Table.find?_ofJson_of_crossroads : ∃ table,
    Table.ofJson "en" Json.crossroads true = .ok (table, []) ∧
    table.names = ["a", "b.", "b.c"] ∧
    (∀ key, key ∈ table.names ↔
      ∃ path leaf, Json.crossroads.HasLeaf path leaf ∧ Json.pathKey path = key) ∧
    ∀ t, table.find? "a" = some t ↔ ∃ leaf, Json.crossroads.LastLeaf "a" leaf ∧
      ∃ own, (Translation.Compiler.leaf ⟨"en", true⟩ "a" leaf).run [] = .ok (t, own) := by
  have h : ∃ table, Table.ofJson "en" Json.crossroads true = .ok (table, []) ∧
      table.names = ["a", "b.", "b.c"] := ⟨_, rfl, rfl⟩
  obtain ⟨table, htable, hnames⟩ := h
  obtain ⟨hkeys, hfind, -⟩ := Table.find?_ofJson htable
  exact ⟨table, htable, hnames, hkeys, hfind "a"⟩

end Phrasebook
