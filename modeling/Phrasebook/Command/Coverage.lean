import Phrasebook.Catalog.Load
import Phrasebook.Command.Outcome
import Phrasebook.Json.Write

/-!
# Coverage of locales

The coverage compares the keys of locales with those of a source locale.
-/

namespace Phrasebook.Command

/-- How far a locale translates the keys of the source. -/
structure Coverage where
  locale : String
  total : Nat
  missing : List String
  extra : List String
  deriving DecidableEq, Repr

namespace Coverage

/-- Compares the keys of a locale with those of the source. -/
def compare (source : List String) (locale : String) (keys : List String) : Coverage :=
  { locale
    total := source.length
    missing := source.filter (!keys.contains ·)
    extra := keys.filter (!source.contains ·) }

/-- The number of source keys that the locale has. -/
def translated (c : Coverage) : Nat := c.total - c.missing.length

/-- The nearest integer to a quotient, a half going to the even neighbour. -/
def roundDiv (n d : Nat) : Nat :=
  let q := n / d
  let r := n % d
  if 2 * r < d ∨ (2 * r = d ∧ q % 2 = 0) then q else q + 1

/-- The share of translated keys in percent. All of no keys are translated. -/
def percent (c : Coverage) : Nat :=
  if c.total = 0 then 100 else roundDiv (c.translated * 100) c.total

/-- The share of translated keys as text. -/
def share (c : Coverage) : String :=
  toString c.translated ++ "/" ++ toString c.total ++ " (" ++ toString c.percent ++ "%)"

/-- The row of a locale. -/
def row (c : Coverage) : List Cell :=
  [⟨c.locale, .left⟩, ⟨c.share, .right⟩, .ofNat c.missing.length, .ofNat c.extra.length]

/-- The keys that are missing, line by line under a title. -/
def missingLines (c : Coverage) : List String :=
  if c.missing = [] then []
  else ("\nMissing in " ++ c.locale ++ ":") :: c.missing.map ("  - " ++ ·)

/-- The coverage of a locale as data. -/
def data (c : Coverage) : Json :=
  .object
    [("locale", .string c.locale), ("translated", .number (.integer c.translated)),
      ("total", .number (.integer c.total)), ("missing", .array (c.missing.map .string)),
      ("extra", .array (c.extra.map .string))]

end Coverage

/-- The coverage of locales, or of all loaded ones but the source if none are given. -/
def coverages (c : Catalog) (source : String) (locales : List String) : List Coverage :=
  let locales := if locales = [] then c.locales.filter (· != source) else locales
  locales.map fun locale => .compare (c.keys source) locale (c.keys locale)

/-- Reports the coverage of the locales in a directory. Templates with syntax errors count as
translated. -/
def coverage (files : FileTree) (directory source : String) (locales : List String)
    (strict asJson : Bool) : Outcome :=
  match ((Catalog.loadDirectory files directory).run (.new { strict := false })).run with
  | (.error e, _) => failed e.message
  | (.ok _, c) =>
    if c.locales.contains source then
      let rows := coverages c source locales
      let code :=
        if strict && rows.any (·.missing != []) then ExitCode.dataError else .ok
      if asJson then ⟨code.number, lines [(Json.array (rows.map (·.data))).pretty], ""⟩
      else
        let table := tableLines ["Locale", "Coverage", "Missing", "Extra"] (rows.map (·.row))
        ⟨code.number, lines (table ++ rows.flatMap (·.missingLines)), ""⟩
    else failed ("source locale '" ++ source ++ "' not found in " ++ directory)

end Phrasebook.Command
