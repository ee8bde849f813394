import Mathlib
import Phrasebook.Proofs.Template.Lexeme
import Phrasebook.Template.Scan

/-!
# The tokens of a source

What reading a template relies on: there is one token for the end of the input, which is the last
one, and the symbols and keywords among the tokens are spelled as they should be.
-/

namespace Phrasebook

/-- Whether all tokens of a category have the same text. -/
def Token.Kind.isFixed : Token.Kind → Bool
  | eof | unexpected | text | ident | int | float | string => false
  | _ => true

/-- A list of tokens as reading expects it: it ends with the only token for the end of the input,
and the tokens of symbols and keywords are spelled as these are. -/
inductive Token.Stream : List Token → Prop where
  | eof (offset : Nat) : Stream [endOfInput offset]
  | cons {t : Token} {ts : List Token} : t.kind ≠ .eof →
      (t.kind.isFixed → t.toLexeme = .symbol t.kind) → Stream ts → Stream (t :: ts)

namespace Token

namespace Stream

theorem ne_nil {ts : List Token} (h : Stream ts) : ts ≠ [] := by
  cases h <;> simp

theorem of_suffix {ts us : List Token} (h : Stream ts) (hsuffix : us <:+ ts) (hne : us ≠ []) :
    Stream us := by
  induction h with
  | eof offset =>
      rcases List.suffix_cons_iff.mp hsuffix with rfl | hnil
      · exact .eof offset
      · exact absurd (List.suffix_nil.mp hnil) hne
  | cons hkind hfixed h ih =>
      rcases List.suffix_cons_iff.mp hsuffix with rfl | hsuffix
      · exact .cons hkind hfixed h
      · exact ih hsuffix

/-- What stands behind a token that is not the end of the input. -/
theorem tail {t : Token} {ts : List Token} (h : Stream (t :: ts)) (hkind : t.kind ≠ .eof) :
    Stream ts := by
  cases h with
  | eof => simp at hkind
  | cons _ _ h => exact h

theorem toLexeme {t : Token} {ts : List Token} (h : Stream (t :: ts)) (hfixed : t.kind.isFixed) :
    t.toLexeme = .symbol t.kind := by
  cases h with
  | eof => simp [Kind.isFixed] at hfixed
  | cons _ h _ => exact h hfixed

theorem eq_eof {t : Token} {ts : List Token} (h : Stream (t :: ts)) (hkind : t.kind = .eof) :
    ts = [] ∧ t.toLexeme = ⟨.eof, ""⟩ := by
  cases h with
  | eof => exact ⟨rfl, rfl⟩
  | cons h _ _ => exact absurd hkind h

end Stream

/-- A cut is never the end of the input, and takes exactly the spelling of a symbol or keyword. -/
structure Cut.Regular (cut : Cut) : Prop where
  ne_eof : cut.kind ≠ .eof
  span : cut.kind.isFixed → cut.span = cut.kind.spelling.toList

private theorem regular_of_not_fixed {kind : Kind} {span rest : List Char} (hkind : kind ≠ .eof)
    (hfixed : kind.isFixed = false) : Cut.Regular ⟨kind, span, rest⟩ :=
  ⟨hkind, by simp [hfixed]⟩

private theorem regular_ofWord (word rest : List Char) :
    Cut.Regular ⟨.ofWord word, word, rest⟩ := by
  unfold Kind.ofWord
  split
  · next h => exact ⟨by simp, by simp [h, Kind.spelling]⟩
  split
  · next h => exact ⟨by simp, by simp [h, Kind.spelling]⟩
  · exact regular_of_not_fixed (by simp) rfl

private theorem regular_cutNumber (cs : List Char) : (cutNumber cs).Regular := by
  unfold cutNumber
  split
  · split <;> exact regular_of_not_fixed (by simp) rfl
  · exact regular_of_not_fixed (by simp) rfl

theorem regular_cutExpr (c : Char) (rest : List Char) : (cutExpr c rest).Regular := by
  unfold cutExpr
  split
  · next h => exact ⟨by simp, by simp [h, Kind.spelling]⟩
  split
  · exact regular_of_not_fixed (by simp) rfl
  split
  · exact regular_ofWord _ _
  split
  · exact regular_cutNumber _
  split
  · next kind h =>
      have hmem := List.mem_of_find?_eq_some h
      exact ⟨by rintro rfl; simp [Kind.symbols] at hmem, fun _ => rfl⟩
  · exact regular_of_not_fixed (by simp) rfl

theorem regular_cut (mode : Mode) (c : Char) (rest : List Char) : (mode.cut c rest).Regular := by
  cases mode with
  | expr => exact regular_cutExpr c rest
  | text =>
      change (cutText c rest).Regular
      unfold cutText
      split
      · next h => exact ⟨by simp, by simp [h, Kind.spelling]⟩
      · exact regular_of_not_fixed (by simp) rfl

/-- Only literal text and quoted literals have escapes. -/
theorem decode_of_isFixed {kind : Kind} (h : kind.isFixed) (span : List Char) :
    decode kind span = span := by
  cases kind <;> first | rfl | simp [Kind.isFixed] at h

theorem stream_scanFrom (bound : Nat) (mode : Mode) (offset : Nat) (cs : List Char) :
    Stream (scanFrom bound mode offset cs) := by
  induction bound generalizing mode offset cs with
  | zero => exact .eof offset
  | succ bound ih =>
      rw [scanFrom]
      split
      · exact .eof _
      · next c rest _ =>
          have h := regular_cut mode c rest
          refine .cons h.ne_eof (fun hfixed => ?_) (ih _ _ _)
          simp [toLexeme, Lexeme.symbol, decode_of_isFixed hfixed, h.span hfixed]

/-- The tokens of every source are fit for reading. -/
theorem stream_scan (source : String) : Stream (scan source) := stream_scanFrom _ _ _ _

end Token

end Phrasebook
