import Mathlib
import Phrasebook.Proofs.Template.Recovery
import Phrasebook.Proofs.Text.Position

/-!
# The order of errors

An error is left out if the latest one is at the same token. Since reading never goes back, that is
enough for every token to have at most one error, and for the errors to be in the order of the
source. The invariant is that no error is behind the current token (`Reader.Ordered`): moving on
leaves the errors behind, and a new error is either behind all others or at the token of the latest
one.

Tokens start between two characters, so the errors are at increasing places too
(`errors_in_order`).
-/

namespace Phrasebook.Template

namespace Reader

/-- Reading has come to some token of the input. The errors are at different tokens up to that one,
the latest first. -/
structure Ordered (ts : List Token) (s : Reader) : Prop where
  tokens : s.tokens <:+ ts
  reported : ∀ e ∈ s.errors, e.token ∈ ts ∧ e.token.offset ≤ s.current.offset
  decreasing : s.errors.Pairwise fun e f => f.token.offset < e.token.offset

theorem ordered_start {ts : List Token} (hne : ts ≠ []) : (Reader.start ts).Ordered ts :=
  ⟨by rw [tokens_start hne], by simp, by simp⟩

namespace Ordered

variable {ts : List Token} {s t : Reader}

/-- The token at which an error is reported is one of the input. -/
theorem current_mem (h : s.Ordered ts) : s.current ∈ ts :=
  h.tokens.mem (by simp [Reader.tokens])

/-- An error that is not left out is behind the latest one, and so behind all of them. -/
theorem report (h : s.Ordered ts) (cause : SyntaxError.Cause) : (s.report cause).Ordered ts := by
  rw [Reader.report]
  split
  · exact h
  · next hnew =>
      have hbefore : ∀ e ∈ s.errors, e.token.offset < s.current.offset := by
        obtain ⟨current, upcoming, _ | ⟨latest, earlier⟩⟩ := s
        · simp
        · have hlatest : latest.token.offset < current.offset :=
            Nat.lt_of_le_of_ne (h.reported latest List.mem_cons_self).2 (by simpa using hnew)
          refine List.forall_mem_cons.mpr ⟨hlatest, fun e he => ?_⟩
          exact (List.rel_of_pairwise_cons h.decreasing he).trans hlatest
      refine ⟨h.tokens, ?_, List.pairwise_cons.mpr ⟨hbefore, h.decreasing⟩⟩
      exact List.forall_mem_cons.mpr ⟨⟨h.current_mem, Nat.le_refl _⟩, h.reported⟩

variable (hts : ts.Pairwise fun t u => t.offset < u.offset)

include hts

/-- Moving on leaves all errors at the current token or in front of it. -/
theorem advance (h : s.Ordered ts) : s.advance.Ordered ts := by
  have hsorted : s.tokens.Pairwise fun t u => t.offset < u.offset := hts.sublist h.tokens.sublist
  have hoffset : s.current.offset ≤ s.advance.current.offset := by
    obtain ⟨current, _ | ⟨next, rest⟩, errors⟩ := s
    · exact Nat.le_refl _
    · exact Nat.le_of_lt (List.rel_of_pairwise_cons hsorted (by simp [Reader.advance]))
  refine ⟨s.leads_advance.tokens.trans h.tokens, ?_, by simpa using h.decreasing⟩
  rw [advance_errors]
  intro e he
  exact ⟨(h.reported e he).1, (h.reported e he).2.trans hoffset⟩

theorem within (h : s.Ordered ts) (hmoves : s.Within t) : t.Ordered ts := by
  induction hmoves with
  | refl => exact h
  | tail _ hmove ih =>
      cases hmove with
      | report cause => exact ih.report cause
      | advance => exact ih.advance hts

theorem closeExpr (h : s.Ordered ts) : (closeExpr s).Ordered ts := by
  have leave : ∀ {t : Reader}, t.Ordered ts →
      (if t.at? .leaveExpr then t.advance else t).Ordered ts := by
    intro t ht
    split
    · exact ht.advance hts
    · exact ht
  apply leave
  split
  · exact h
  · exact (h.report _).within hts (within_skipToBoundary _)

theorem readFragment (h : s.Ordered ts) : (readFragment s).2.Ordered ts := by
  rw [Template.readFragment]
  split
  · exact h.advance hts
  · exact ((h.advance hts).within hts (within_readExpr _)).closeExpr hts
  · exact (h.report _).advance hts

theorem readFragments (bound : Nat) (h : s.Ordered ts) : (readFragments bound s).2.Ordered ts := by
  induction bound generalizing s with
  | zero => exact h
  | succ bound ih =>
      rw [Template.readFragments]
      split
      · exact h
      · exact ih (h.readFragment hts)

end Ordered

end Reader

open Reader

/-- The errors of a source are at different tokens of it, in its order. Their offsets are boundaries
of characters, and their places increase. In general, the place of the start is the first column of
the first line, a line break leads to the first column of the next line, any other character to the
next column, and places increase with offsets. -/
theorem errors_in_order (source : String) :
    ((read source).2.Pairwise fun e f => e.token.offset < f.token.offset) ∧
      (∀ e ∈ (read source).2, e.token ∈ Token.scan source ∧
        e.token.offset ≤ source.utf8ByteSize ∧ String.Pos.Raw.IsValid source ⟨e.token.offset⟩) ∧
      ((read source).2.Pairwise fun e f => toLex (e.position source) < toLex (f.position source)) ∧
      StrictMonoOn (fun offset => toLex (Text.lineColumn source offset))
        {offset | String.Pos.Raw.IsValid source ⟨offset⟩} ∧
      Text.lineColumn source 0 = (1, 1) ∧
      ∀ front c back, source = String.push front c ++ back →
        Text.lineColumn source (front.push c).utf8ByteSize =
          if c = '\n' then ((Text.lineColumn source front.utf8ByteSize).1 + 1, 1)
          else ((Text.lineColumn source front.utf8ByteSize).1,
            (Text.lineColumn source front.utf8ByteSize).2 + 1) := by
  have hsorted := (Token.tiles_scan source).pairwise_offset
  have h : (readFragments (Token.scan source).length
      (.start (Token.scan source))).2.Ordered (Token.scan source) :=
    (ordered_start (Token.sectioned_scan source).ne_nil).readFragments hsorted _
  have horder : (read source).2.Pairwise fun e f => e.token.offset < f.token.offset :=
    List.pairwise_reverse.mpr h.decreasing
  have hplace : ∀ e ∈ (read source).2, e.token ∈ Token.scan source ∧
      e.token.offset ≤ source.utf8ByteSize ∧ String.Pos.Raw.IsValid source ⟨e.token.offset⟩ := by
    intro e he
    have hmem := (h.reported e (List.mem_reverse.mp he)).1
    have hvalid := Token.isValid_of_mem_scan hmem
    exact ⟨hmem, hvalid.le_rawEndPos, hvalid⟩
  refine ⟨horder, hplace, ?_, Text.strictMonoOn_lineColumn source, ?_, ?_⟩
  · refine horder.imp_of_mem fun he hf hlt => ?_
    exact Text.strictMonoOn_lineColumn source (hplace _ he).2.2 (hplace _ hf).2.2 hlt
  · simpa using Text.lineColumn_append "" source
  · rintro front c back rfl
    exact Text.lineColumn_next front back c

/-- An operand is missing in the first line, and nothing is to close in the second one. -/
theorem errors_in_order_of_lines :
    let source := "\x7b+\x7d\n\x7b)\x7d"
    let brace : SyntaxError := ⟨⟨.leaveExpr, "\x7d", 2⟩, .unexpected⟩
    let paren : SyntaxError := ⟨⟨.rParen, ")", 5⟩, .unexpected⟩
    (read source).2 = [brace, paren] ∧ brace.token ∈ Token.scan source ∧
      brace.token.offset < paren.token.offset ∧
      toLex (brace.position source) < toLex (paren.position source) ∧
      source = "\x7b+\x7d".push '\n' ++ "\x7b)\x7d" ∧
      Text.lineColumn source ("\x7b+\x7d".push '\n').utf8ByteSize = (2, 1) := by
  intro source brace paren
  have hread : (read source).2 = [brace, paren] := by decide +kernel
  obtain ⟨horder, hplace, hplaces, -, -, hnext⟩ := errors_in_order source
  rw [hread] at horder hplace hplaces
  have hsplit : source = "\x7b+\x7d".push '\n' ++ "\x7b)\x7d" := rfl
  refine ⟨hread, (hplace brace (by simp)).1, ?_, ?_, hsplit, ?_⟩
  · exact List.rel_of_pairwise_cons horder (by simp)
  · exact List.rel_of_pairwise_cons hplaces (by simp)
  · exact (hnext _ '\n' _ hsplit).trans (by decide +kernel)

end Phrasebook.Template
