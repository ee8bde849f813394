/-!
# Well-formed locales

A locale is a sequence of subtags between hyphens: a language, then perhaps a script, a region,
variants and extensions. Letters of either case are the same. Underscores are accepted in place of
hyphens.
-/

namespace Phrasebook.Locale

/-- A part of a locale between hyphens. -/
abbrev Subtag := List Char

/-- Whether a subtag has a length between two bounds and consists of the given characters. -/
def consistsOf (p : Char → Bool) (shortest longest : Nat) (s : Subtag) : Bool :=
  shortest ≤ s.length && s.length ≤ longest && s.all p

/-- The first character satisfies a predicate. -/
def startsWith (p : Char → Bool) (s : Subtag) : Bool := (s.head?.map p).getD false

/-- A language: two or three letters, or five to eight. -/
def isLanguage (s : Subtag) : Bool :=
  consistsOf Char.isAlpha 2 3 s || consistsOf Char.isAlpha 5 8 s

/-- A script: four letters. -/
def isScript (s : Subtag) : Bool := consistsOf Char.isAlpha 4 4 s

/-- A region: two letters or three digits. -/
def isRegion (s : Subtag) : Bool :=
  consistsOf Char.isAlpha 2 2 s || consistsOf Char.isDigit 3 3 s

/-- A variant: five to eight letters and digits, or four that start with a digit. -/
def isVariant (s : Subtag) : Bool :=
  consistsOf Char.isAlphanum 5 8 s ||
    (consistsOf Char.isAlphanum 4 4 s && startsWith Char.isDigit s)

/-- A value or attribute in an extension: three to eight letters and digits. -/
def isValue (s : Subtag) : Bool := consistsOf Char.isAlphanum 3 8 s

/-- A key of the Unicode extension: a letter or digit and a letter. -/
def isKey : Subtag → Bool
  | [c, d] => c.isAlphanum && d.isAlpha
  | _ => false

/-- A key of the transform extension: a letter and a digit. -/
def isTransformKey : Subtag → Bool
  | [c, d] => c.isAlpha && d.isDigit
  | _ => false

/-- The subtags without the first one, if it satisfies a predicate. -/
def dropFirst (p : Subtag → Bool) : List Subtag → List Subtag
  | [] => []
  | s :: rest => if p s then rest else s :: rest

/-- What follows the script, the region and the variants behind a language; the variants must be
different. -/
def afterLanguage? (subtags : List Subtag) : Option (List Subtag) :=
  let rest := dropFirst isRegion (dropFirst isScript subtags)
  let variants : List Subtag := (rest.takeWhile isVariant).map fun s => s.map Char.toLower
  if variants.Nodup then some (rest.dropWhile isVariant) else none

/-- What follows the keywords of the Unicode extension, given whether a keyword is being read. -/
def afterKeywords? (inKeyword : Bool) : List Subtag → Option (List Subtag)
  | [] => some []
  | s :: rest =>
    if s.length = 2 then
      if isKey s then afterKeywords? true rest else none
    else if inKeyword && isValue s then afterKeywords? true rest
    else some (s :: rest)

/-- What follows the attributes and keywords of the Unicode extension, of which there must be
some. -/
def afterUnicode? (subtags : List Subtag) : Option (List Subtag) :=
  (afterKeywords? false (subtags.dropWhile isValue)).filter fun rest =>
    rest.length < subtags.length

/-- How far the current field of the transform extension has been read. -/
inductive Field where
  | absent
  | key
  | valued
  deriving DecidableEq

/-- What follows the fields of the transform extension; every field needs a value. -/
def afterFields? (field : Field) : List Subtag → Option (List Subtag)
  | [] => if field = .key then none else some []
  | s :: rest =>
    if field ≠ .absent ∧ isValue s then afterFields? .valued rest
    else if field = .key then none
    else if isTransformKey s then afterFields? .key rest
    else some (s :: rest)

/-- What follows the language and the fields of the transform extension, one of which must be
there. -/
def afterTransform? (subtags : List Subtag) : Option (List Subtag) := do
  let rest ←
    match subtags with
    | s :: rest => if isLanguage s then afterLanguage? rest else some subtags
    | [] => some []
  let rest ← afterFields? .absent rest
  if rest.length < subtags.length then some rest else none

/-- What follows the subtags of another extension, of which there must be some. -/
def afterOther? (subtags : List Subtag) : Option (List Subtag) :=
  let rest := subtags.dropWhile (consistsOf Char.isAlphanum 2 8)
  if rest.length < subtags.length then some rest else none

/-- Whether subtags are extensions, each of which is introduced by a letter of its own. Private
use, introduced by `x`, takes everything that follows it. The first argument bounds the number of
extensions. -/
def areExtensions : Nat → List Char → List Subtag → Bool
  | _, _, [] => true
  | 0, _, _ => false
  | bound + 1, seen, [c] :: rest =>
    let c := c.toLower
    if !c.isAlpha || seen.contains c then false
    else if c = 'x' then rest ≠ [] && rest.all (consistsOf Char.isAlphanum 1 8)
    else
      let after :=
        if c = 'u' then afterUnicode? rest
        else if c = 't' then afterTransform? rest
        else afterOther? rest
      match after with
      | some rest => areExtensions bound (c :: seen) rest
      | none => false
  | _, _, _ => false

/-- The parts of a text between hyphens or underscores. -/
def subtags : List Char → List Subtag
  | [] => [[]]
  | c :: cs =>
    if c = '-' ∨ c = '_' then [] :: subtags cs
    else
      match subtags cs with
      | s :: rest => (c :: s) :: rest
      | [] => [[c]]

/-- The language of a well-formed locale, in lower case. -/
def language? (locale : String) : Option String :=
  match subtags locale.toList with
  | language :: rest =>
    if isLanguage language then
      match afterLanguage? rest with
      | some rest =>
        if areExtensions rest.length [] rest then
          some (String.ofList (language.map Char.toLower))
        else none
      | none => none
    else none
  | [] => none

end Phrasebook.Locale
