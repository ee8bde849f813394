import Phrasebook.Json.Read
import Phrasebook.Template.Parse
import Phrasebook.Text.Basic
import Phrasebook.Translation.Basic
import Phrasebook.Translation.LoadError

/-!
# From documents to translations

The document of a locale is an object. Nested objects make dotted keys, and what else they hold are
translations:

* a string is a template, and so is an array with one element what that element is;
* an array of strings is one template of several lines;
* an array that starts with a condition guards its next element by it, and the elements behind that
  are the alternatives;
* any other array is a group of alternatives.
-/

namespace Phrasebook.Translation

/-- How a document is compiled: for which locale, and whether templates with syntax errors fail
it. -/
structure Compiler where
  locale : String
  strict : Bool

/-- Compilation gathers issues and may fail. -/
abbrev Compile (α : Type) := StateT (List TemplateIssue) (Except LoadError) α

namespace Compiler

/-- Reads a template of a translation. -/
def template (c : Compiler) (key source : String) : Compile Template :=
  match Template.read source with
  | (t, []) => pure t
  | (t, errors) =>
    let issue : TemplateIssue := ⟨key, source, errors⟩
    if c.strict then throw (.rejected c.locale issue)
    else do
      modify (· ++ [issue])
      return t

/-- What marks a string as a condition. -/
def conditionMark : List Char := ['i', 'f', ':']

/-- The source of a condition, if a string is one. -/
def conditionSource? (s : String) : Option String :=
  if conditionMark.isPrefixOf s.toList then some (String.ofList (s.toList.drop 3)) else none

/-- A condition as a template: one expression, of which the braces may be left out. -/
def braced (source : String) : String :=
  let cs := Text.trimChars source.toList
  let opening := if cs.head? = some '{' then [] else ['{']
  let closing := if cs.getLast? = some '}' then [] else ['}']
  String.ofList (opening ++ cs ++ closing)

/-- Reads a condition, which is the first fragment of its template. -/
def condition (c : Compiler) (key source : String) : Compile Node := do
  match ← c.template key (braced source) with
  | f :: _ => return .fragment f
  | [] => return .template []

/-- The condition that the first element of an array may be. -/
def leadingCondition? : Json → Option String
  | .string s => conditionSource? s
  | _ => none

/-- The texts of values that are all strings. -/
def strings? : List Json → Option (List String)
  | [] => some []
  | .string s :: items => (strings? items).map (s :: ·)
  | _ :: _ => none

/-- Compiles an array, by the compilations of its items. -/
def array (c : Compiler) (key : String) (items : List Json)
    (compiled : List (Compile Translation)) : Compile Translation :=
  match items.head?.bind leadingCondition? with
  | some source => do
    let condition ← c.condition key source
    match compiled.tail with
    | [] => pure never
    | guarded :: others =>
      let guarded := (← guarded).guardedBy condition
      match others with
      | [] => pure guarded
      | _ :: _ => return ofGroup (guarded :: (← others.mapM id))
  | none =>
    match compiled with
    | [] => pure never
    | [single] => single
    | _ :: _ :: _ =>
      match strings? items with
      | some lines => return ofTemplate (← c.template key ("\n".intercalate lines))
      | none => return ofGroup (← compiled.mapM id)

/-- Compiles a translation. -/
def leaf (c : Compiler) (key : String) : Json → Compile Translation
  | .string source => return ofTemplate (← c.template key source)
  | .array items => c.array key items (leaves c key items)
  | other => throw (.unsupported c.locale key other.kindName)
where
  /-- The compilations of items, none of which is run yet. -/
  leaves (c : Compiler) (key : String) : List Json → List (Compile Translation)
    | [] => []
    | item :: items => leaf c key item :: leaves c key items

/-- The key of a member of an object. -/
def joinKey (path name : String) : String := if path = "" then name else path ++ "." ++ name

/-- Compiles the value of a key into keys and translations, in the order of the document: an object
has those of its members, and anything else is one translation. -/
def entries (c : Compiler) (key : String) : Json → Compile (List (String × Translation))
  | .object members => entriesOf c key members
  | value => return [(key, ← c.leaf key value)]
where
  /-- Compiles the members of the object with the given key. -/
  entriesOf (c : Compiler) (path : String) :
      List (String × Json) → Compile (List (String × Translation))
    | [] => pure []
    | (name, value) :: members =>
      return (← entries c (joinKey path name) value) ++ (← entriesOf c path members)

/-- Compiles a document into a table. Of translations with the same key the last one stays. -/
def table (c : Compiler) : Json → Compile Table
  | .object members => return .ofList (← c.entries "" (.object members))
  | other => throw (.notAnObject c.locale other.kindName)

end Compiler

end Phrasebook.Translation

namespace Phrasebook

/-- The table of a document, and the templates in it that have syntax errors. If these are not
accepted, the first one fails the document. -/
def Table.ofJson (locale : String) (document : Json) (strict : Bool) :
    Except LoadError (Table × List TemplateIssue) :=
  (Translation.Compiler.table ⟨locale, strict⟩ document).run []

/-- Reads the table of a locale. -/
def Table.read (locale document : String) (strict : Bool) :
    Except LoadError (Table × List TemplateIssue) :=
  match Json.read? document with
  | some j => Table.ofJson locale j strict
  | none => .error (.malformed locale)

end Phrasebook
