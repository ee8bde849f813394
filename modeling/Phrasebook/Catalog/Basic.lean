import Phrasebook.Evaluation.Basic
import Phrasebook.Text.Basic

/-!
# Catalogs

A catalog holds the tables of all locales of an application. Its state at one time is a snapshot,
which stays as it is when the catalog goes on to load more.
-/

namespace Phrasebook

/-- The locale that stands in when nothing matches, unless another one is set. -/
def defaultLocale : String := "en-GB"

/-- The settings of a catalog. -/
structure Settings where
  fallback : String := defaultLocale
  /-- The locale of messages that are shown as errors, if it is not the fallback. -/
  errors? : Option String := none
  /-- Whether a template with syntax errors fails its document. -/
  strict : Bool := true
  maxDepth : Nat := defaultMaxDepth

/-- The locale of messages that are shown as errors. -/
def Settings.errors (s : Settings) : String := s.errors?.getD s.fallback

/-- The tables that are loaded at one time. -/
structure Snapshot where
  tables : Dictionary Table
  /-- The locales in the order in which they were loaded first. -/
  order : List String
  /-- The files that locales were loaded from last. -/
  paths : Dictionary String

namespace Snapshot

/-- The snapshot before anything is loaded. -/
def empty : Snapshot := ⟨∅, [], ∅⟩

instance : Inhabited Snapshot := ⟨empty⟩

/-- The keys of a locale in order, if it is loaded. -/
def keys? (s : Snapshot) (locale : String) : Option (List String) :=
  (s.tables.find? locale).map (·.names)

/-- The snapshot with a table in place of the one that the locale had. -/
def publish (s : Snapshot) (locale : String) (table : Table) (path? : Option String) : Snapshot :=
  { tables := s.tables.insert locale table
    order := if s.tables.contains locale then s.order else s.order ++ [locale]
    paths :=
      match path? with
      | some path => s.paths.insert locale path
      | none => s.paths.erase locale }

/-- The language of a locale: what stands before its first hyphen. -/
def languageOf (locale : String) : String :=
  String.ofList (locale.toList.takeWhile (· != '-'))

/-- The tags in a list of candidates, each of which may hold several between commas. -/
def tags (candidates : List String) : List String :=
  ((candidates.flatMap (Text.split · ",")).map Text.trim).filter (· != "")

/-- The loaded locale that matches a tag best: the tag itself, its language, or the first loaded
locale of that language. -/
def match? (s : Snapshot) (tag : String) : Option String :=
  let language := languageOf tag
  if s.tables.contains tag then some tag
  else if s.tables.contains language then some language
  else s.order.find? fun locale => (language ++ "-").toList.isPrefixOf locale.toList

/-- The loaded locale that matches the first tag that any matches. -/
def closest? (s : Snapshot) (candidates : List String) : Option String :=
  (tags candidates).findSome? s.match?

end Snapshot

/-- A catalog. -/
structure Catalog where
  settings : Settings
  snapshot : Snapshot

namespace Catalog

/-- The catalog before anything is loaded. -/
def new (settings : Settings) : Catalog := ⟨settings, .empty⟩

/-- The locales in the order in which they were loaded first. -/
def locales (c : Catalog) : List String := c.snapshot.order

/-- The keys of a locale in order; none if it is not loaded. -/
def keys (c : Catalog) (locale : String) : List String := (c.snapshot.keys? locale).getD []

/-- Whether a locale is loaded and has a key. -/
def hasKey (c : Catalog) (locale key : String) : Bool :=
  match c.snapshot.tables.find? locale with
  | some table => table.contains key
  | none => false

/-- The locale for a list of candidates, and whether any of them matches. -/
def closest (c : Catalog) (candidates : List String) : String × Bool :=
  match c.snapshot.closest? candidates with
  | some locale => (locale, true)
  | none => (c.settings.fallback, false)

end Catalog

end Phrasebook
