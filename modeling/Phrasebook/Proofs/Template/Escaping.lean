import Mathlib
import Phrasebook.Proofs.Template.Tiling

/-!
# Escapes

Literal text and quoted literals are written with the same escapes: a backslash in front of the
character that would end them and in front of each backslash. What is written in this way is read up
to its end and no further, and its value is what was to be written, however many backslashes stand
in front of one another or of an end.
-/

namespace Phrasebook.Token

/-- Characters with a backslash in front of each occurrence of a given one and each backslash. -/
def escaped (mark : Char) : List Char → List Char
  | [] => []
  | c :: cs =>
    if c = mark ∨ c = '\\' then '\\' :: c :: escaped mark cs else c :: escaped mark cs

theorem textSpan_escaped (cs : List Char) : textSpan (escaped '{' cs) = (escaped '{' cs, []) := by
  induction cs with
  | nil => rfl
  | cons c cs ih =>
      rw [escaped]
      split
      · next h => rcases h with rfl | rfl <;> rw [textSpan, ih]
      · next h =>
          obtain ⟨hbrace, hslash⟩ := not_or.mp h
          rw [textSpan_cons hbrace fun hc => absurd hc hslash, ih]

theorem decodeText_escaped (cs : List Char) : decodeText (escaped '{' cs) = cs := by
  induction cs with
  | nil => rfl
  | cons c cs ih =>
      rw [escaped]
      split
      · next h => rcases h with rfl | rfl <;> rw [decodeText, ih]
      · next h => rw [decodeText_cons fun hc => absurd hc (not_or.mp h).2, ih]

/-- A character that needs no escape stays in front of what follows. -/
theorem quotedSpan_cons {quote c : Char} (hquote : c ≠ quote) (hslash : c ≠ '\\')
    {rest : List Char} (hne : rest ≠ []) :
    quotedSpan quote (c :: rest) = (c :: (quotedSpan quote rest).1, (quotedSpan quote rest).2) := by
  cases rest with
  | nil => exact absurd rfl hne
  | cons d rest => simp [quotedSpan, hquote, hslash]

theorem decodeQuoted_cons {quote c : Char} (hquote : c ≠ quote) (hslash : c ≠ '\\')
    {rest : List Char} (hne : rest ≠ []) :
    decodeQuoted quote (c :: rest) = c :: decodeQuoted quote rest := by
  cases rest with
  | nil => exact absurd rfl hne
  | cons d rest => simp [decodeQuoted, hquote, hslash]

section Quote

variable {quote : Char} (hquote : quote ≠ '\\')

include hquote

theorem quotedSpan_escaped (cs : List Char) (next : Char) (tail : List Char) :
    quotedSpan quote (escaped quote cs ++ quote :: next :: tail) =
      (escaped quote cs ++ [quote], next :: tail) := by
  induction cs with
  | nil => simp [escaped, quotedSpan]
  | cons c cs ih =>
      rw [escaped]
      split
      · next h => simp [quotedSpan, h, hquote.symm, ih]
      · next h =>
          obtain ⟨hc, hslash⟩ := not_or.mp h
          rw [List.cons_append, quotedSpan_cons hc hslash (by simp), ih, List.cons_append]

theorem decodeQuoted_escaped (cs : List Char) :
    decodeQuoted quote (escaped quote cs ++ [quote]) = cs := by
  induction cs with
  | nil => simp [escaped, decodeQuoted]
  | cons c cs ih =>
      rw [escaped]
      split
      · next h => simp [decodeQuoted, h, hquote.symm, ih]
      · next h =>
          obtain ⟨hc, hslash⟩ := not_or.mp h
          rw [List.cons_append, decodeQuoted_cons hc hslash (by simp), ih]

end Quote

theorem not_special_of_isQuote {quote : Char} (h : isQuote quote) :
    isBlank quote = false ∧ quote ≠ '}' ∧ quote ≠ '\\' := by
  simp only [isQuote, Bool.or_eq_true, beq_iff_eq] at h
  rcases h with (rfl | rfl) | rfl <;> decide

/-- A quoted literal is cut off as it is written. -/
theorem cutExpr_escaped {quote : Char} (h : isQuote quote) (cs : List Char) (next : Char)
    (tail : List Char) :
    cutExpr quote (escaped quote cs ++ quote :: next :: tail) =
      ⟨.string, quote :: (escaped quote cs ++ [quote]), next :: tail⟩ := by
  obtain ⟨-, hbrace, hslash⟩ := not_special_of_isQuote h
  rw [cutExpr, if_neg hbrace, if_pos h, quotedSpan_escaped hslash]

end Phrasebook.Token
