import Phrasebook.Dictionary
import Phrasebook.Json.Number

/-!
# Reading data documents

A document is one value with blanks around it. Containers are nested at most one hundred and
twenty-seven levels deep.
-/

namespace Phrasebook.Json

/-- The blanks between the parts of a document. -/
def isBlank (c : Char) : Bool := c == ' ' || c == '\t' || c == '\n' || c == '\r'

/-- The rest of a document without the blanks in front. -/
def skipBlanks (cs : List Char) : List Char := cs.dropWhile isBlank

/-- The value of a hexadecimal digit. -/
def hexValue? (c : Char) : Option Nat :=
  if c.isDigit then some (c.toNat - '0'.toNat)
  else if 'a' ≤ c ∧ c ≤ 'f' then some (c.toNat - 'a'.toNat + 10)
  else if 'A' ≤ c ∧ c ≤ 'F' then some (c.toNat - 'A'.toNat + 10)
  else none

/-- The number that four hexadecimal digits spell. -/
def hexNumber? (a b c d : Char) : Option Nat := do
  return (← hexValue? a) * 4096 + (← hexValue? b) * 256 + (← hexValue? c) * 16 + (← hexValue? d)

/-- Whether a number is the first of two that stand for one character. -/
def isHighSurrogate (n : Nat) : Bool := 0xd800 ≤ n && n ≤ 0xdbff

/-- Whether a number is the second of two that stand for one character. -/
def isLowSurrogate (n : Nat) : Bool := 0xdc00 ≤ n && n ≤ 0xdfff

/-- The character of a one-letter escape. -/
def escaped? : Char → Option Char
  | '"' => some '"'
  | '\\' => some '\\'
  | '/' => some '/'
  | 'b' => some '\x08'
  | 'f' => some '\x0c'
  | 'n' => some '\n'
  | 'r' => some '\r'
  | 't' => some '\t'
  | _ => none

/-- Reads the rest of a string behind the characters read so far, which are kept in reverse. -/
def readStringFrom (before : List Char) : List Char → Option (String × List Char)
  | '"' :: cs => some (String.ofList before.reverse, cs)
  | '\\' :: 'u' :: a :: b :: c :: d :: cs =>
    match hexNumber? a b c d with
    | none => none
    | some n =>
      if isHighSurrogate n then
        match cs with
        | '\\' :: 'u' :: e :: f :: g :: h :: cs =>
          match hexNumber? e f g h with
          | none => none
          | some m =>
            if isLowSurrogate m then
              let code := 0x10000 + (n - 0xd800) * 0x400 + (m - 0xdc00)
              readStringFrom (Char.ofNat code :: before) cs
            else none
        | _ => none
      else if isLowSurrogate n then none
      else readStringFrom (Char.ofNat n :: before) cs
  | '\\' :: c :: cs =>
    match escaped? c with
    | some c => readStringFrom (c :: before) cs
    | none => none
  | c :: cs => if c == '\\' || c.toNat < 0x20 then none else readStringFrom (c :: before) cs
  | [] => none

/-- Reads a string behind its opening quote. -/
def readString? (cs : List Char) : Option (String × List Char) := readStringFrom [] cs

/-- A way to read a value. -/
abbrev ReadValue := List Char → Option (Json × List Char)

/-- Reads the items of an array from one of them on, with blanks in front. The first argument
bounds their number. -/
def readItems (value : ReadValue) : Nat → List Char → Option (List Json × List Char)
  | 0, _ => none
  | bound + 1, cs => do
    let (item, cs) ← value cs
    match skipBlanks cs with
    | ',' :: cs =>
      let (items, cs) ← readItems value bound cs
      return (item :: items, cs)
    | ']' :: cs => return ([item], cs)
    | _ => none

/-- Reads the members of an object from one of them on, with blanks in front. The first argument
bounds their number. -/
def readMembers (value : ReadValue) : Nat → List Char → Option (List (String × Json) × List Char)
  | 0, _ => none
  | bound + 1, cs =>
    match skipBlanks cs with
    | '"' :: cs => do
      let (name, cs) ← readString? cs
      match skipBlanks cs with
      | ':' :: cs =>
        let (item, cs) ← value cs
        match skipBlanks cs with
        | ',' :: cs =>
          let (members, cs) ← readMembers value bound cs
          return ((name, item) :: members, cs)
        | '}' :: cs => return ([(name, item)], cs)
        | _ => none
      | _ => none
    | _ => none

/-- Reads an array behind its opening bracket. -/
def readArray (value : ReadValue) (cs : List Char) : Option (Json × List Char) :=
  match skipBlanks cs with
  | ']' :: cs => some (.array [], cs)
  | cs => (readItems value cs.length cs).map fun (items, cs) => (.array items, cs)

/-- Reads an object behind its opening brace. -/
def readObject (value : ReadValue) (cs : List Char) : Option (Json × List Char) :=
  match skipBlanks cs with
  | '}' :: cs => some (.object [], cs)
  | cs =>
    (readMembers value cs.length cs).map fun (members, cs) =>
      (.object (Dictionary.ofList members).entries, cs)

/-- Reads a value, given a way to read the values inside of containers, if there may be any. -/
def readWith (inner : Option ReadValue) (cs : List Char) : Option (Json × List Char) :=
  match skipBlanks cs with
  | 'n' :: 'u' :: 'l' :: 'l' :: cs => some (.null, cs)
  | 't' :: 'r' :: 'u' :: 'e' :: cs => some (.bool true, cs)
  | 'f' :: 'a' :: 'l' :: 's' :: 'e' :: cs => some (.bool false, cs)
  | '"' :: cs => (readString? cs).map fun (s, cs) => (.string s, cs)
  | '[' :: cs => inner.bind (readArray · cs)
  | '{' :: cs => inner.bind (readObject · cs)
  | cs => (readNumber? cs).map fun (n, cs) => (.number n, cs)

/-- The deepest nesting of containers. -/
def maxContainers : Nat := 127

/-- Reads a value with room for the given number of nested containers. -/
def readValue : Nat → List Char → Option (Json × List Char)
  | 0 => readWith none
  | room + 1 => readWith (some (readValue room))

/-- The value of a document, if it is one. -/
def read? (document : String) : Option Json :=
  match readValue maxContainers document.toList with
  | some (value, rest) => if skipBlanks rest = [] then some value else none
  | none => none

end Phrasebook.Json
