import Phrasebook.Plural.Locale

/-!
# Plural categories

Languages distinguish up to six forms of a noun behind a number. The form depends on the magnitude
of the number and mostly on its last digits.
-/

namespace Phrasebook

/-- The forms of a noun behind a number. -/
inductive PluralCategory where
  | zero
  | one
  | two
  | few
  | many
  | other
  deriving DecidableEq, Repr

namespace PluralCategory

/-- The name of a category. -/
def name : PluralCategory → String
  | zero => "zero"
  | one => "one"
  | two => "two"
  | few => "few"
  | many => "many"
  | other => "other"

/-- The first category whose condition holds, or `other`. -/
def firstOf (cases : List (Bool × PluralCategory)) : PluralCategory :=
  ((cases.find? (·.1)).map (·.2)).getD other

/-- Whether a number lies between two others. -/
def between (n low high : Nat) : Bool := low ≤ n && n ≤ high

/-- Whether a number is a whole number of millions. -/
def isMillions (n : Nat) : Bool := n != 0 && n % 1000000 == 0

/-- One against more, as in English. -/
def oneOrOther (n : Nat) : PluralCategory := firstOf [(n == 1, one)]

/-- Whether the last digits ask for the paucal form of Slavic languages: two to four, but not
twelve to fourteen. -/
def isPaucal (n : Nat) : Bool := between (n % 10) 2 4 && !between (n % 100) 12 14

/-- Whether the last digit is one, but not of eleven. -/
def endsInOne (n : Nat) : Bool := n % 10 == 1 && n % 100 != 11

/-- The rule of a language for the magnitude of a number, if the language is supported. -/
def rule? (language : String) : Option (Nat → PluralCategory) :=
  match language with
  | "id" | "ja" | "ko" | "th" | "zh" => some fun _ => other
  | "vi" | "bn" | "fa" | "hi" => some fun n => firstOf [(n ≤ 1, one)]
  | "bg" | "da" | "de" | "el" | "en" | "et" | "fi" | "hu" | "nb" | "nl" | "sv" | "tr" =>
    some oneOrOther
  | "fr" | "pt" => some fun n => firstOf [(n ≤ 1, one), (isMillions n, many)]
  | "ca" | "es" | "it" => some fun n => firstOf [(n == 1, one), (isMillions n, many)]
  | "ar" =>
    some fun n =>
      firstOf [(n == 0, zero), (n == 1, one), (n == 2, two), (between (n % 100) 3 10, few),
        (between (n % 100) 11 99, many)]
  | "he" => some fun n => firstOf [(n == 1, one), (n == 2, two)]
  | "ga" =>
    some fun n =>
      firstOf [(n == 1, one), (n == 2, two), (between n 3 6, few), (between n 7 10, many)]
  | "cs" | "sk" => some fun n => firstOf [(n == 1, one), (between n 2 4, few)]
  | "hr" | "sr" => some fun n => firstOf [(endsInOne n, one), (isPaucal n, few)]
  | "ru" | "uk" => some fun n => firstOf [(endsInOne n, one), (isPaucal n, few), (true, many)]
  | "pl" => some fun n => firstOf [(n == 1, one), (isPaucal n, few), (true, many)]
  | "lt" =>
    some fun n =>
      let teen := between (n % 100) 11 19
      firstOf [(n % 10 == 1 && !teen, one), (between (n % 10) 2 9 && !teen, few)]
  | "lv" =>
    some fun n =>
      firstOf [(n % 10 == 0 || between (n % 100) 11 19, zero), (endsInOne n, one)]
  | "ro" => some fun n => firstOf [(n == 1, one), (n == 0 || between (n % 100) 1 19, few)]
  | "sl" =>
    some fun n =>
      firstOf [(n % 100 == 1, one), (n % 100 == 2, two), (between (n % 100) 3 4, few)]
  | _ => none

/-- The category of an integer in a locale. A locale that is not well-formed or whose language is
not supported is treated like English. -/
def ofInt (locale : String) (n : Int64) : PluralCategory :=
  ((Locale.language? locale).bind rule?).getD oneOrOther n.toInt.natAbs

end PluralCategory

end Phrasebook
