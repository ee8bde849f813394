import Mathlib
import Phrasebook.Proofs.Template.Soundness

/-!
# Sources with the same lexemes

Where no error is reported, reading goes by the lexemes of a source and not by the places of its
tokens. Two states with the same lexemes left are alike (`Reader.Alike`), and the lemmas below say
for one function after the other that it reads the same from both of them (`Repeats`), as long as it
reports nothing from the first one. So of two sources with the same lexemes either both are
accepted, as the same template, or neither is.
-/

namespace Phrasebook.Template

namespace Reader

/-- Two states have the same lexemes left, and nothing was reported before the second one. -/
structure Alike (s s' : Reader) : Prop where
  lexemes : s'.lexemes = s.lexemes
  errors : s'.errors = []

namespace Alike

variable {s s' : Reader}

theorem toLexeme (h : s.Alike s') : s'.current.toLexeme = s.current.toLexeme :=
  (List.cons.inj h.lexemes).1

theorem kind (h : s.Alike s') : s'.current.kind = s.current.kind :=
  congrArg Lexeme.kind h.toLexeme

theorem lexeme (h : s.Alike s') : s'.current.lexeme = s.current.lexeme :=
  congrArg Lexeme.text h.toLexeme

theorem at? (h : s.Alike s') (kind : Token.Kind) : s'.at? kind = s.at? kind := by
  rw [Reader.at?, Reader.at?, h.kind]

theorem atBoundary (h : s.Alike s') : s'.atBoundary = s.atBoundary := by
  rw [Reader.atBoundary, Reader.atBoundary, h.at?, h.at?]

theorem atListEnd (h : s.Alike s') : Template.atListEnd s' = Template.atListEnd s := by
  rw [Template.atListEnd, Template.atListEnd, h.at?, h.atBoundary]

theorem length_upcoming (h : s.Alike s') : s'.upcoming.length = s.upcoming.length := by
  simpa [Reader.lexemes, tokens] using congrArg List.length h.lexemes

theorem advance (h : s.Alike s') : s.advance.Alike s'.advance := by
  refine ⟨?_, by simpa using h.errors⟩
  have hupcoming : s'.upcoming.map Token.toLexeme = s.upcoming.map Token.toLexeme :=
    (List.cons.inj h.lexemes).2
  unfold Reader.advance
  cases hs : s.upcoming with
  | nil =>
      rw [hs, List.map_nil, List.map_eq_nil_iff] at hupcoming
      rw [hupcoming]
      exact h.lexemes
  | cons t ts =>
      rw [hs] at hupcoming
      obtain ⟨t', ts', hs', htail⟩ := List.map_eq_cons_iff.mp hupcoming
      rw [hs'] at hupcoming ⊢
      exact hupcoming

/-- What is expected without an error from one state is there in the other one too. -/
theorem expect (h : s.Alike s') {kind : Token.Kind} (herrors : (s.expect kind).errors = []) :
    (s.expect kind).Alike (s'.expect kind) := by
  obtain ⟨hkind, hexpect⟩ := expect_of_errors_eq_nil herrors
  have hat : s'.at? kind := at?_iff.mpr (h.kind.trans hkind)
  rw [hexpect, expect_eq, if_pos hat]
  exact h.advance

end Alike

end Reader

open Reader

/-- From two states that are alike, reading has the same result, and ends at two states that are
alike, unless it reports an error from the first one. -/
def Repeats {α : Type} (read : Reader → α × Reader) : Prop :=
  ∀ {s s' : Reader}, s.Alike s' → (read s).2.errors = [] →
    (read s').1 = (read s).1 ∧ (read s).2.Alike (read s').2

/-- A way to read expressions repeats what it reads. -/
def Repeatable (sub : ReadExpr) : Prop := ∀ power, Repeats (sub power)

theorem repeats_giveUp (cause : SyntaxError.Cause) : Repeats (·.giveUp cause) :=
  fun _ herrors => absurd herrors (giveUp_errors_ne_nil _ cause)

theorem repeats_readLiteral (kind : LiteralKind) : Repeats (readLiteral kind) := by
  intro s s' h _
  exact ⟨congrArg (Expr.literal kind) h.lexeme, h.advance⟩

theorem alike_readComma {s s' : Reader} (h : s.Alike s') (herrors : (readComma s).errors = []) :
    (readComma s).Alike (readComma s') := by
  unfold readComma at herrors ⊢
  rw [h.at?]
  split at herrors
  · next hat =>
      rw [if_pos hat, if_pos hat]
      exact h
  · next hat =>
      rw [if_neg hat, if_neg hat]
      exact h.expect herrors

/-- Lists are bounded by the number of tokens that are left, which is the same in both states. -/
theorem repeats_readItems {α : Type} {item : Reader → α × Reader}
    (hforward : ∀ s : Reader, s.Leads (item s).2) (hitem : Repeats item) :
    Repeats fun s => readItems item s.upcoming.length s := by
  suffices hbounded : ∀ bound, Repeats (readItems item bound) by
    intro s s' h herrors
    dsimp only
    rw [h.length_upcoming]
    exact hbounded _ h herrors
  intro bound
  induction bound with
  | zero => exact fun h _ => ⟨rfl, h⟩
  | succ bound ih =>
      intro s s' h herrors
      by_cases hend : atListEnd s
      · rw [readItems_of_atListEnd hend, readItems_of_atListEnd (h.atListEnd ▸ hend)]
        exact ⟨rfl, h⟩
      · rw [readItems_succ hend] at herrors ⊢
        rw [readItems_succ (h.atListEnd ▸ hend)]
        have hcomma := (leads_readItems hforward bound _).errors_eq_nil herrors
        obtain ⟨hfirst, hbehind⟩ := hitem h ((leads_readComma _).errors_eq_nil hcomma)
        obtain ⟨hothers, hrest⟩ := ih (alike_readComma hbehind hcomma) herrors
        exact ⟨by rw [hfirst, hothers], hrest⟩

section Parts

variable {sub : ReadExpr} (hforward : Forward sub) (hsub : Repeatable sub)

include hsub

theorem repeats_readStop (start : Expr) : Repeats (readStop sub start) := by
  intro s s' h herrors
  unfold readStop at herrors ⊢
  rw [h.at?]
  split at herrors
  · next hat =>
      rw [if_pos hat, if_pos hat]
      exact ⟨rfl, h⟩
  · next hat =>
      rw [if_neg hat, if_neg hat]
      obtain ⟨hstop, hrest⟩ := hsub .range h herrors
      exact ⟨congrArg (fun stop => Expr.range start (some stop)) hstop, hrest⟩

theorem repeats_readUnary (op : UnaryOp) : Repeats (readUnary sub op) := by
  intro s s' h herrors
  obtain ⟨hoperand, hrest⟩ := hsub .unary h.advance herrors
  exact ⟨congrArg (Expr.unary op) hoperand, hrest⟩

theorem repeats_readOperand : Repeats (readOperand sub) := by
  intro s s' h herrors
  unfold readOperand at herrors ⊢
  rw [h.kind]
  split at herrors
  · exact repeats_readLiteral .int h herrors
  · exact repeats_readLiteral .float h herrors
  · exact repeats_readLiteral .string h herrors
  · exact ⟨congrArg Expr.ofName h.lexeme, h.advance⟩
  · exact repeats_readUnary hsub .not h herrors
  · exact repeats_readUnary hsub .plus h herrors
  · exact repeats_readUnary hsub .minus h herrors
  · exact repeats_readStop hsub _ h.advance herrors
  · obtain ⟨hinner, hbehind⟩ := hsub .none h.advance ((leads_expect _ _).errors_eq_nil herrors)
    exact ⟨hinner, hbehind.expect herrors⟩
  · exact absurd herrors (giveUp_errors_ne_nil s _)

include hforward

theorem repeats_readOption : Repeats (readOption sub) := by
  intro s s' h herrors
  have hequal := (hforward .none _).errors_eq_nil herrors
  obtain ⟨hpattern, hbehind⟩ := hsub .none h ((leads_expect _ _).errors_eq_nil hequal)
  obtain ⟨hresult, hrest⟩ := hsub .none (hbehind.expect hequal) herrors
  exact ⟨Prod.ext hpattern hresult, hrest⟩

theorem repeats_readArgs : Repeats fun s => readArgs sub s.upcoming.length s := by
  rw [readArgs_eq]
  exact repeats_readItems (fun s => hforward .none s) (hsub .none)

theorem repeats_readOptions : Repeats fun s => readOptions sub s.upcoming.length s := by
  rw [readOptions_eq]
  exact repeats_readItems (leads_readOption hforward) (repeats_readOption hforward hsub)

theorem repeats_readExtension (ext : Extension) (lhs : Expr) :
    Repeats (readExtension sub ext lhs) := by
  intro s s' h herrors
  have hbehind := h.advance
  cases ext with
  | binary op =>
      obtain ⟨hrhs, hrest⟩ := hsub op.power hbehind herrors
      exact ⟨congrArg (Expr.binary op lhs) hrhs, hrest⟩
  | range => exact repeats_readStop hsub lhs hbehind herrors
  | select =>
      have hclose := (leads_expect _ .rParen).errors_eq_nil herrors
      have hopen := hbehind.expect ((leads_readOptions hforward _ _).errors_eq_nil hclose)
      obtain ⟨hoptions, hrest⟩ := repeats_readOptions hforward hsub hopen hclose
      exact ⟨congrArg (Expr.select lhs) hoptions, hrest.expect herrors⟩
  | index =>
      obtain ⟨hposition, hrest⟩ :=
        hsub .none hbehind ((leads_expect _ .rBrack).errors_eq_nil herrors)
      exact ⟨congrArg (indexed lhs) hposition, hrest.expect herrors⟩
  | call =>
      have hclose := (leads_expect _ .rParen).errors_eq_nil herrors
      obtain ⟨hargs, hrest⟩ := repeats_readArgs hforward hsub hbehind hclose
      exact ⟨congrArg (Expr.call lhs) hargs, hrest.expect herrors⟩

end Parts

/-- Reading an expression and extending an operand are repeated, whatever the room. -/
theorem repeats_level (room : Nat) : Repeatable (level room).expr ∧
    ∀ power lhs, Repeats ((level room).climb power lhs) := by
  have extension?_eq : ∀ {s s' : Reader}, s.Alike s' → ∀ power,
      extension? power s' = extension? power s := by
    intro s s' h power
    rw [extension?, extension?, h.kind]
  induction room with
  | zero =>
      refine ⟨fun power => repeats_giveUp .nestedTooDeeply, fun power lhs s s' h herrors => ?_⟩
      cases hext : extension? power s with
      | none =>
          rw [level_climb_of_none hext, level_climb_of_none ((extension?_eq h power).trans hext)]
          exact ⟨rfl, h⟩
      | some ext =>
          rw [level_climb_zero_of_some hext] at herrors
          exact absurd herrors (giveUp_errors_ne_nil s _)
  | succ room ih =>
      obtain ⟨hsub, hclimb⟩ := ih
      have hforward := (leads_level room).2
      have expr : Repeatable (level (room + 1)).expr := by
        intro power s s' h herrors
        rw [level_expr_succ] at herrors ⊢
        obtain ⟨hoperand, hbehind⟩ :=
          repeats_readOperand hsub h ((hforward _ _ _).errors_eq_nil herrors)
        rw [level_expr_succ, hoperand]
        exact hclimb _ _ hbehind herrors
      refine ⟨expr, fun power lhs s s' h herrors => ?_⟩
      cases hext : extension? power s with
      | none =>
          rw [level_climb_of_none hext, level_climb_of_none ((extension?_eq h power).trans hext)]
          exact ⟨rfl, h⟩
      | some ext =>
          rw [level_climb_succ_of_some hext] at herrors ⊢
          rw [level_climb_succ_of_some ((extension?_eq h power).trans hext)]
          obtain ⟨hlhs, hbehind⟩ := repeats_readExtension (leads_level (room + 1)).1 expr ext lhs h
            ((hforward _ _ _).errors_eq_nil herrors)
          rw [hlhs]
          exact hclimb _ _ hbehind herrors

theorem alike_closeExpr {s s' : Reader} (h : s.Alike s') (herrors : (closeExpr s).errors = []) :
    (closeExpr s).Alike (closeExpr s') := by
  obtain ⟨hkind, hclose⟩ := closeExpr_of_errors_eq_nil herrors
  have hat : s'.at? .leaveExpr := at?_iff.mpr (h.kind.trans hkind)
  have hclose' : closeExpr s' = s'.advance := by simp [closeExpr, hat]
  rw [hclose, hclose']
  exact h.advance

theorem repeats_readFragment : Repeats readFragment := by
  intro s s' h herrors
  unfold readFragment at herrors ⊢
  rw [h.kind]
  split at herrors
  · exact ⟨congrArg Fragment.text h.lexeme, h.advance⟩
  · have hread := (leads_closeExpr _).errors_eq_nil herrors
    obtain ⟨hexpr, hbehind⟩ := (repeats_level _).1 .none h.advance hread
    exact ⟨congrArg Fragment.expr hexpr, alike_closeExpr hbehind herrors⟩
  · exact absurd herrors (by simpa using report_errors_ne_nil s .unexpected)

theorem repeats_readFragments (bound : Nat) : Repeats (readFragments bound) := by
  induction bound with
  | zero => exact fun h _ => ⟨rfl, h⟩
  | succ bound ih =>
      intro s s' h herrors
      unfold readFragments at herrors ⊢
      rw [h.at?]
      split at herrors
      · next hat =>
          rw [if_pos hat, if_pos hat]
          exact ⟨rfl, h⟩
      · next hat =>
          rw [if_neg hat, if_neg hat]
          obtain ⟨hfragment, hbehind⟩ :=
            repeats_readFragment h ((leads_readFragments bound _).errors_eq_nil herrors)
          obtain ⟨hothers, hrest⟩ := ih hbehind herrors
          exact ⟨congrArg₂ List.cons hfragment hothers, hrest⟩

theorem parse_of_readFragments {source : String} {t : Template}
    (hread : (readFragments (Token.scan source).length (.start (Token.scan source))).1 = t)
    (herrors : (readFragments (Token.scan source).length
      (.start (Token.scan source))).2.errors = []) : parse source = .ok t := by
  have hsource : read source = (t, []) := by
    rw [read, ofTokens]
    exact Prod.ext hread (congrArg List.reverse herrors)
  rw [parse, hsource]

/-- A source with the same lexemes as an accepted one is accepted as the same template. -/
theorem parse_congr {source source' : String} {t : Template}
    (h : (Token.scan source').map Token.toLexeme = (Token.scan source).map Token.toLexeme)
    (ht : parse source = .ok t) : parse source' = .ok t := by
  obtain ⟨hread, herrors⟩ := read_of_parse_eq_ok ht
  have halike : (Reader.start (Token.scan source)).Alike (.start (Token.scan source')) := by
    refine ⟨?_, errors_start _⟩
    rw [Reader.lexemes, Reader.lexemes, tokens_start (Token.stream_scan source').ne_nil,
      tokens_start (Token.stream_scan source).ne_nil, h]
  have hlength : (Token.scan source').length = (Token.scan source).length := by
    simpa using congrArg List.length h
  obtain ⟨hsame, hend⟩ := repeats_readFragments _ halike herrors
  rw [← hlength] at hread hsame hend
  exact parse_of_readFragments (hsame.trans hread) hend.errors

end Phrasebook.Template
