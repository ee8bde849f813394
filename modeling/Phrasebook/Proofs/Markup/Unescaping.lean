import Mathlib
import Phrasebook.Proofs.Markup.Script

/-!
# Escaping can be undone

Escaped text is read from left to right by a reader that knows nothing of how it was written: HTML
text by replacing the entities that it meets, the body of a script string by the rules for such
strings, which it may also break. What escaping writes for a character is read as that character
and never as a part of something longer, so the whole text is read back (`escaping_is_lossless`).
Only the null character is lost in HTML, where it is written as the replacement character.
-/

namespace Phrasebook.Markup

/-- HTML text with its entities replaced by the characters that they stand for, from left to right.
An ampersand that starts none of them stands for itself. -/
def unescapeHtmlChars : List Char → List Char
  | '&' :: 'a' :: 'm' :: 'p' :: ';' :: rest => '&' :: unescapeHtmlChars rest
  | '&' :: '#' :: '3' :: '9' :: ';' :: rest => '\'' :: unescapeHtmlChars rest
  | '&' :: 'l' :: 't' :: ';' :: rest => '<' :: unescapeHtmlChars rest
  | '&' :: 'g' :: 't' :: ';' :: rest => '>' :: unescapeHtmlChars rest
  | '&' :: '#' :: '3' :: '4' :: ';' :: rest => '"' :: unescapeHtmlChars rest
  | c :: rest => c :: unescapeHtmlChars rest
  | [] => []

/-- The text that HTML text stands for. -/
def unescapeHtml (s : String) : String := .ofList (unescapeHtmlChars s.toList)

/-- A character as HTML can have it: the null character is replaced. -/
def displayable (c : Char) : Char := if c = '\x00' then '\ufffd' else c

theorem unescapeHtmlChars_cons {c : Char} (h : c ≠ '&') (rest : List Char) :
    unescapeHtmlChars (c :: rest) = c :: unescapeHtmlChars rest := by
  rw [unescapeHtmlChars] <;> intros <;> contradiction

theorem unescapeHtmlChars_escapeHtmlChar (c : Char) (rest : List Char) :
    unescapeHtmlChars (escapeHtmlChar c ++ rest) = displayable c :: unescapeHtmlChars rest := by
  rw [escapeHtmlChar.eq_def]
  split
  case h_7 c hamp _ _ _ _ hnull =>
    -- A character that is written as it is starts no entity.
    rw [displayable, if_neg hnull]
    exact unescapeHtmlChars_cons hamp rest
  all_goals rfl

/-- Escaped text is read back, but for the null characters in it. -/
theorem unescapeHtml_escapeHtml (s : String) :
    unescapeHtml (escapeHtml s) = .ofList (s.toList.map displayable) := by
  rw [unescapeHtml, escapeHtml, String.toList_ofList, escapeHtmlChars]
  congr 1
  induction s.toList with
  | nil => rfl
  | cons c cs ih => rw [List.flatMap_cons, unescapeHtmlChars_escapeHtmlChar, ih, List.map_cons]

/-- The null character is written as the replacement character is, and all others as they are. -/
theorem escapeHtmlChar_displayable (c : Char) :
    escapeHtmlChar (displayable c) = escapeHtmlChar c := by
  rw [displayable]
  split
  · next h => rw [h]; rfl
  · rfl

/-- The value of a hexadecimal digit of either case. -/
def hexValue? (c : Char) : Option Nat :=
  if c.isDigit then some (c.toNat - 48)
  else if 'A' ≤ c ∧ c ≤ 'F' then some (c.toNat - 55)
  else if 'a' ≤ c ∧ c ≤ 'f' then some (c.toNat - 87)
  else none

/-- The character whose number four hexadecimal digits are. -/
def charOfHex? (a b c d : Char) : Option Char := do
  let n := ((← hexValue? a) * 16 + (← hexValue? b)) * 256 + (← hexValue? c) * 16 + (← hexValue? d)
  if n.isValidChar then some (Char.ofNat n) else none

/-- What the body of a script string stands for, read from left to right. A backslash may only stand
in front of a quote, a backslash, or `u` and the number of a character in four hexadecimal digits;
quotes, controls and line separators may not stand alone. -/
def unescapeScriptChars? : List Char → Option (List Char)
  | '\\' :: 'u' :: a :: b :: c :: d :: rest => do
    let char ← charOfHex? a b c d
    return char :: (← unescapeScriptChars? rest)
  | '\\' :: c :: rest =>
    if isStringQuote c ∨ c = '\\' then (unescapeScriptChars? rest).map (c :: ·) else none
  | c :: rest =>
    if c = '\\' ∨ isStringQuote c ∨ isUnsafe c then none
    else (unescapeScriptChars? rest).map (c :: ·)
  | [] => some []

/-- The text that the body of a script string stands for, if it is one. -/
def unescapeScript? (s : String) : Option String := (unescapeScriptChars? s.toList).map .ofList

theorem hexValue?_hexDigit {n : Nat} (h : n < 16) : hexValue? (hexDigit n) = some n := by
  decide +revert

/-- The digits that are written are those of the character. -/
theorem charOfHex?_of_lt {c : Char} (h : c.toNat < 65536) :
    charOfHex? (hexDigit (c.toNat / 4096 % 16)) (hexDigit (c.toNat / 256 % 16))
      (hexDigit (c.toNat / 16 % 16)) (hexDigit (c.toNat % 16)) = some c := by
  have hdigit : ∀ m, hexValue? (hexDigit (m % 16)) = some (m % 16) := fun m =>
    hexValue?_hexDigit (Nat.mod_lt m (by decide))
  have hsum : (c.toNat / 4096 % 16 * 16 + c.toNat / 256 % 16) * 256 + c.toNat / 16 % 16 * 16 +
      c.toNat % 16 = c.toNat := by omega
  have hvalid : c.toNat.isValidChar := c.valid
  simp [charOfHex?, hdigit, hsum, hvalid]

theorem toNat_lt_of_isScriptSpecial {c : Char} (h : isScriptSpecial c) : c.toNat < 65536 := by
  simp only [isScriptSpecial, Bool.or_eq_true, decide_eq_true_eq, beq_iff_eq] at h
  rcases h with ((((((h | h) | rfl) | rfl) | rfl) | rfl) | h) | h
  all_goals first | omega | decide

theorem unescapeScriptChars?_cons {c : Char} (hslash : c ≠ '\\') (hquote : isStringQuote c = false)
    (hsafe : isUnsafe c = false) (rest : List Char) :
    unescapeScriptChars? (c :: rest) = (unescapeScriptChars? rest).map (c :: ·) := by
  have hplain : ¬ (c = '\\' ∨ isStringQuote c ∨ isUnsafe c) := by simp [hslash, hquote, hsafe]
  rw [unescapeScriptChars?, if_neg hplain] <;> intros <;> contradiction

theorem unescapeScriptChars?_escapeScriptChar (c : Char) (rest : List Char) :
    unescapeScriptChars? (escapeScriptChar c ++ rest) =
      (unescapeScriptChars? rest).map (c :: ·) := by
  rw [escapeScriptChar]
  split
  · next h => rcases h with rfl | rfl | rfl <;> rfl
  split
  · next h =>
      have hchar := charOfHex?_of_lt (toNat_lt_of_isScriptSpecial h)
      show unescapeScriptChars? ('\\' :: 'u' :: _ :: _ :: _ :: _ :: rest) = _
      rw [unescapeScriptChars?, hchar]
      cases unescapeScriptChars? rest <;> rfl
  · next hescape hspecial =>
      simp only [not_or] at hescape
      simp only [isScriptSpecial, Bool.or_eq_true, not_or] at hspecial
      apply unescapeScriptChars?_cons hescape.1
      · simp [isStringQuote, hescape]
      · simp [isUnsafe, hspecial]

/-- Escaped text is read back as it was. -/
theorem unescapeScript?_escapeScript (s : String) : unescapeScript? (escapeScript s) = some s := by
  have hchars : unescapeScriptChars? (escapeScriptChars s.toList) = some s.toList := by
    rw [escapeScriptChars]
    induction s.toList with
    | nil => rfl
    | cons c cs ih =>
        rw [List.flatMap_cons, unescapeScriptChars?_escapeScriptChar, ih, Option.map_some]
  rw [unescapeScript?, escapeScript, String.toList_ofList, hchars, Option.map_some,
    String.ofList_toList]

theorem escapeHtml_eq_iff {s t : String} :
    escapeHtml s = escapeHtml t ↔ s.toList.map displayable = t.toList.map displayable := by
  constructor
  · intro h
    have hread := congrArg unescapeHtml h
    rwa [unescapeHtml_escapeHtml, unescapeHtml_escapeHtml, String.ofList_inj] at hread
  · intro h
    have hchars : ∀ cs, escapeHtmlChars cs = escapeHtmlChars (cs.map displayable) := by
      intro cs
      simp [escapeHtmlChars, List.flatMap_map, escapeHtmlChar_displayable]
    rw [escapeHtml, escapeHtml, hchars, h, ← hchars]

theorem map_displayable {cs : List Char} (h : '\x00' ∉ cs) : cs.map displayable = cs := by
  have hsame : ∀ c ∈ cs, displayable c = id c := by
    intro c hc
    refine if_neg ?_
    rintro rfl
    exact h hc
  rw [List.map_congr_left hsame, List.map_id]

/-- Reading escaped text from left to right gives back the text: in HTML with the replacement
character in the place of each null character, and for a script exactly. So no two texts are
escaped alike for a script, nor are two in HTML that have no null characters, whether or not they
have replacement characters. -/
theorem escaping_is_lossless :
    (∀ s, unescapeHtml (escapeHtml s) = .ofList (s.toList.map displayable)) ∧
      (∀ s, unescapeScript? (escapeScript s) = some s) ∧
      Function.Injective escapeScript ∧
      Set.InjOn escapeHtml {s | '\x00' ∉ s.toList} := by
  refine ⟨unescapeHtml_escapeHtml, unescapeScript?_escapeScript, ?_, ?_⟩
  · intro s t h
    have hread := congrArg unescapeScript? h
    rw [unescapeScript?_escapeScript, unescapeScript?_escapeScript] at hread
    exact Option.some.inj hread
  · intro s hs t ht h
    have hchars := escapeHtml_eq_iff.mp h
    rw [map_displayable hs, map_displayable ht] at hchars
    exact String.toList_inj.mp hchars

/-- Text that looks like escaped text already. -/
theorem escaping_is_lossless_of_lookalike :
    escapeHtml "&lt;\x00" = "&amp;lt;\ufffd" ∧
      unescapeHtml "&amp;lt;\ufffd" = "&lt;\ufffd" ∧
      escapeScript "\\u003C=" = "\\\\u003C\\u003D" ∧
      unescapeScript? "\\\\u003C\\u003D" = some "\\u003C=" ∧
      '\x00' ∉ "&lt;".toList ∧ escapeHtml "&lt;" ≠ escapeHtml "<" := by
  obtain ⟨hhtml, hscript, -, hinjective⟩ := escaping_is_lossless
  have hnull : '\x00' ∉ "&lt;".toList := by decide
  refine ⟨rfl, hhtml "&lt;\x00", rfl, hscript "\\u003C=", hnull, fun h => ?_⟩
  exact absurd (hinjective hnull (show '\x00' ∉ "<".toList by decide) h) (by decide)

end Phrasebook.Markup
