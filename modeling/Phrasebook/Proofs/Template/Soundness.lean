import Mathlib
import Phrasebook.Proofs.Template.Reader
import Phrasebook.Proofs.Template.Spelling

/-!
# An accepted template is spelled by its source

If reading reports no error, the lexemes that it consumes spell the tree that it builds: nothing is
dropped on the way, and nothing is made up. The functions that read the parts of an expression are
treated one by one, given the same of the function by which they read the parts below; the room that
is left ties them together.
-/

namespace Phrasebook.Template

open Lexeme (symbol separated)

namespace Reader

variable {s t : Reader} {front : List Lexeme} {e : Expr}

/-- Behind the lexemes in front, reading has gone from one state to another, and all lexemes
together spell an expression. A range without an end stands in front of a closing bracket only. -/
def Completes (s : Reader) (front : List Lexeme) (e : Expr) (t : Reader) : Prop :=
  ∃ ls closed, s.lexemes = ls ++ t.lexemes ∧ e.Spelled (front ++ ls) closed ∧
    (closed = false → t.current.kind = .rBrack)

/-- In front of anything but a closing bracket, the expression ends with an operand. -/
theorem Completes.closed (h : s.Completes front e t) (hkind : t.current.kind ≠ .rBrack) :
    ∃ ls, s.lexemes = ls ++ t.lexemes ∧ e.Spelled (front ++ ls) true := by
  obtain ⟨ls, closed, hls, he, hopen⟩ := h
  cases closed with
  | true => exact ⟨ls, hls, he⟩
  | false => exact absurd (hopen rfl) hkind

theorem Completes.of_closed (ls : List Lexeme) (hls : s.lexemes = ls ++ t.lexemes)
    (he : e.Spelled (front ++ ls) true) : s.Completes front e t :=
  ⟨ls, true, hls, he, by simp⟩

/-- A symbol that is expected without an error is consumed. -/
theorem lexemes_expect {kind : Token.Kind} (hs : Token.Stream s.tokens) (hfixed : kind.isFixed)
    (h : (s.expect kind).errors = []) :
    s.current.kind = kind ∧ s.lexemes = symbol kind :: (s.expect kind).lexemes := by
  obtain ⟨hkind, hexpect⟩ := expect_of_errors_eq_nil h
  exact ⟨hkind, hexpect ▸ lexemes_advance_symbol hs hkind hfixed⟩

end Reader

open Reader

/-- What a way to read expressions consumes without an error spells what it returns. -/
def Sound (sub : ReadExpr) : Prop :=
  ∀ power (s : Reader), Token.Stream s.tokens → (sub power s).2.errors = [] →
    s.Completes [] (sub power s).1 (sub power s).2

/-- The token that starts an extension. -/
def Extension.token : Extension → Token.Kind
  | binary op => op.token
  | range => .colon
  | select => .equalGreater
  | index => .lBrack
  | call => .lParen

theorem Extension.token_of_ofKind? {kind : Token.Kind} {ext : Extension}
    (h : ofKind? kind = some ext) : kind = ext.token := by
  cases kind <;> cases h <;> rfl

theorem Extension.isFixed_token (ext : Extension) :
    ext.token.isFixed ∧ ext.token ≠ .rBrack ∧ ext.token ≠ .eof := by
  cases ext with
  | binary op => cases op <;> simp [token, BinaryOp.token, Token.Kind.isFixed]
  | _ => simp [token, Token.Kind.isFixed]

theorem extension?_eq_some {power : Power} {s : Reader} {ext : Extension}
    (h : extension? power s = some ext) : s.current.kind = ext.token ∧ power < ext.power := by
  obtain ⟨hext, hpower⟩ := Option.filter_eq_some_iff.mp h
  exact ⟨Extension.token_of_ofKind? hext, by simpa using hpower⟩

section Parts

variable {sub : ReadExpr} {s t : Reader} {front : List Lexeme}

/-- A range either has no end, in front of a bracket, or an end that is spelled by what is read. -/
theorem readStop_sound (hsub : Sound sub) (start : Expr) (hs : Token.Stream s.tokens)
    (h : (readStop sub start s).2.errors = []) :
    (readStop sub start s = (.range start none, s) ∧ s.current.kind = .rBrack) ∨
      ∃ stop, (readStop sub start s).1 = .range start (some stop) ∧
        s.Completes [] stop (readStop sub start s).2 := by
  unfold readStop at h ⊢
  split
  · next hat => exact .inl ⟨rfl, at?_iff.mp hat⟩
  · next hat =>
      rw [if_neg hat] at h
      exact .inr ⟨_, rfl, hsub .range s hs h⟩

theorem readUnary_sound (hsub : Sound sub) {op : UnaryOp} (hs : Token.Stream s.tokens)
    (hkind : s.current.kind = op.token) (h : (readUnary sub op s).2.errors = []) :
    s.Completes [] (readUnary sub op s).1 (readUnary sub op s).2 := by
  have hfixed : op.token.isFixed := by cases op <;> rfl
  have hlex := lexemes_advance_symbol hs hkind hfixed
  obtain ⟨ls, closed, hls, he, hopen⟩ := hsub .unary s.advance (s.leads_advance.stream hs) h
  exact ⟨symbol op.token :: ls, closed, by rw [hlex, hls]; rfl, .unary op he, hopen⟩

theorem readOperand_sound (hforward : Forward sub) (hsub : Sound sub) (hs : Token.Stream s.tokens)
    (h : (readOperand sub s).2.errors = []) :
    s.Completes [] (readOperand sub s).1 (readOperand sub s).2 := by
  have hadvance := s.leads_advance.stream hs
  have literal : ∀ kind : LiteralKind, s.current.kind = kind.token →
      s.Completes [] (.literal kind s.current.lexeme) s.advance := by
    intro kind hkind
    have hlex := lexemes_advance hs (by rw [hkind]; cases kind <;> simp [LiteralKind.token])
    refine .of_closed [s.current.toLexeme] hlex ?_
    rw [Token.toLexeme, hkind]
    exact .literal kind _
  unfold readOperand at h ⊢
  split at h
  · next hkind => exact literal .int hkind
  · next hkind => exact literal .float hkind
  · next hkind => exact literal .string hkind
  · next hkind =>
      refine .of_closed [s.current.toLexeme] (lexemes_advance hs (by simp [hkind])) ?_
      rw [Token.toLexeme, hkind]
      exact .name _
  · next hkind => exact readUnary_sound hsub hs hkind h
  · next hkind => exact readUnary_sound hsub hs hkind h
  · next hkind => exact readUnary_sound hsub hs hkind h
  · next hkind =>
      have hlex := lexemes_advance_symbol hs hkind rfl
      rcases readStop_sound hsub (.literal .int "0") hadvance h with
        ⟨hread, hbrack⟩ | ⟨stop, hread, ls, closed, hls, he, hopen⟩
      · rw [hread]
        exact ⟨[symbol .colon], false, hlex, .openRangeFromZero, fun _ => hbrack⟩
      · rw [hread]
        exact ⟨symbol .colon :: ls, closed, by rw [hlex, hls]; rfl, .rangeFromZero he, hopen⟩
  · next hkind =>
      have hlex := lexemes_advance_symbol hs hkind rfl
      have hinner := (leads_expect _ _).errors_eq_nil h
      obtain ⟨hparen, hclose⟩ := lexemes_expect ((hforward _ _).stream hadvance) rfl h
      obtain ⟨ls, hls, he⟩ := (hsub .none s.advance hadvance hinner).closed (by simp [hparen])
      refine .of_closed (symbol .lParen :: ls ++ [symbol .rParen]) ?_ (.group he)
      rw [hlex, hls, hclose]
      simp
  · exact absurd h (giveUp_errors_ne_nil s _)

theorem readComma_sound (hs : Token.Stream s.tokens) (h : (readComma s).errors = []) :
    (s.current.kind = .rParen ∧ readComma s = s) ∨
      (s.current.kind = .comma ∧ s.lexemes = symbol .comma :: (readComma s).lexemes) := by
  unfold readComma at h ⊢
  split
  · next hat => exact .inl ⟨at?_iff.mp hat, rfl⟩
  · next hat =>
      rw [if_neg hat] at h
      exact .inr (lexemes_expect hs rfl h)

theorem atListEnd_of_rParen (h : s.current.kind = .rParen) : atListEnd s := by
  simp [atListEnd, at?, h]

/-- An item in front of a list, either as its last one or with a comma behind it. -/
theorem separated_cons (item : List Lexeme) (items : List (List Lexeme)) (trailing : Bool) :
    ∃ trailing', item ++ symbol .comma :: separated trailing items =
      separated trailing' (item :: items) := by
  cases items with
  | nil => exact ⟨true, rfl⟩
  | cons next items => exact ⟨trailing, rfl⟩

/-- If each item is spelled by what is read for it, in one way or another, the list is spelled by
what is read for all of it. -/
theorem readItems_sound {α β : Type} {item : Reader → α × Reader} (spelled : α → β → Prop)
    (write : β → List Lexeme) (hforward : ∀ s : Reader, s.Leads (item s).2)
    (hitem : ∀ s : Reader, Token.Stream s.tokens → (item s).2.errors = [] →
      (item s).2.current.kind ≠ .rBrack →
      ∃ b, s.lexemes = write b ++ (item s).2.lexemes ∧ spelled (item s).1 b)
    (bound : Nat) (hs : Token.Stream s.tokens) (h : (readItems item bound s).2.errors = []) :
    ∃ (trailing : Bool) (items : List (α × β)), (readItems item bound s).1 = items.map (·.1) ∧
      (∀ i ∈ items, spelled i.1 i.2) ∧
      s.lexemes = separated trailing (items.map fun i => write i.2) ++
        (readItems item bound s).2.lexemes := by
  induction bound generalizing s with
  | zero => exact ⟨false, [], rfl, by simp, rfl⟩
  | succ bound ih =>
      by_cases hend : atListEnd s
      · rw [readItems_of_atListEnd hend]
        exact ⟨false, [], rfl, by simp, rfl⟩
      rw [readItems_succ hend] at h ⊢
      have hstream := (hforward s).stream hs
      have hcomma := (leads_readItems hforward _ _).errors_eq_nil h
      have hfirst := hitem s hs ((leads_readComma _).errors_eq_nil hcomma)
      rcases readComma_sound hstream hcomma with ⟨hparen, hstay⟩ | ⟨hkind, hlex⟩
      · obtain ⟨b, hb, hspelled⟩ := hfirst (by simp [hparen])
        rw [hstay, readItems_of_atListEnd (atListEnd_of_rParen hparen)]
        exact ⟨false, [((item s).1, b)], rfl, by simpa using hspelled, hb⟩
      · obtain ⟨b, hb, hspelled⟩ := hfirst (by simp [hkind])
        obtain ⟨trailing, items, hothers, hitems, hrest⟩ :=
          ih ((leads_readComma _).stream hstream) h
        obtain ⟨trailing', hsep⟩ :=
          separated_cons (write b) (items.map fun i => write i.2) trailing
        refine ⟨trailing', ((item s).1, b) :: items, by simp [hothers], ?_, ?_⟩
        · exact List.forall_mem_cons.mpr ⟨hspelled, hitems⟩
        · rw [List.map_cons, ← hsep, hb, hlex, hrest]
          simp

theorem readArgs_sound (hforward : Forward sub) (hsub : Sound sub) (bound : Nat)
    (hs : Token.Stream s.tokens) (h : (readArgs sub bound s).2.errors = []) :
    ∃ (trailing : Bool) (items : List (Expr × List Lexeme)),
      (readArgs sub bound s).1 = items.map (·.1) ∧ (∀ i ∈ items, i.1.Spelled i.2 true) ∧
      s.lexemes = separated trailing (items.map (·.2)) ++ (readArgs sub bound s).2.lexemes := by
  rw [readArgs_eq] at h ⊢
  have item : ∀ s : Reader, Token.Stream s.tokens → (sub .none s).2.errors = [] →
      (sub .none s).2.current.kind ≠ .rBrack →
      ∃ ls, s.lexemes = ls ++ (sub .none s).2.lexemes ∧ (sub .none s).1.Spelled ls true :=
    fun s hs h hkind => (hsub .none s hs h).closed hkind
  exact readItems_sound (fun e ls => e.Spelled ls true) (fun ls => ls) (hforward .none) item bound
    hs h

theorem readOptions_sound (hforward : Forward sub) (hsub : Sound sub) (bound : Nat)
    (hs : Token.Stream s.tokens) (h : (readOptions sub bound s).2.errors = []) :
    ∃ (trailing : Bool) (items : List ((Expr × Expr) × (List Lexeme × List Lexeme))),
      (readOptions sub bound s).1 = items.map (·.1) ∧
      (∀ i ∈ items, i.1.1.Spelled i.2.1 true ∧ i.1.2.Spelled i.2.2 true) ∧
      s.lexemes = separated trailing (items.map fun i => i.2.1 ++ symbol .equal :: i.2.2) ++
        (readOptions sub bound s).2.lexemes := by
  rw [readOptions_eq] at h ⊢
  have item : ∀ s : Reader, Token.Stream s.tokens → (readOption sub s).2.errors = [] →
      (readOption sub s).2.current.kind ≠ .rBrack →
      ∃ ls : List Lexeme × List Lexeme,
        s.lexemes = (ls.1 ++ symbol .equal :: ls.2) ++ (readOption sub s).2.lexemes ∧
        (readOption sub s).1.1.Spelled ls.1 true ∧ (readOption sub s).1.2.Spelled ls.2 true := by
    intro s hs h hkind
    have hpattern := hforward .none s
    have hequal := (hforward .none ((sub .none s).2.expect .equal)).errors_eq_nil h
    obtain ⟨hat, hlex⟩ := lexemes_expect (hpattern.stream hs) rfl hequal
    obtain ⟨ps, hps, hp⟩ :=
      (hsub .none s hs ((leads_expect _ _).errors_eq_nil hequal)).closed (by simp [hat])
    obtain ⟨rs, hrs, hr⟩ :=
      (hsub .none _ ((hpattern.trans (leads_expect _ _)).stream hs) h).closed hkind
    refine ⟨(ps, rs), ?_, hp, hr⟩
    rw [hps, hlex, hrs]
    simp [readOption]
  exact readItems_sound
    (fun (o : Expr × Expr) (ls : List Lexeme × List Lexeme) =>
      o.1.Spelled ls.1 true ∧ o.2.Spelled ls.2 true)
    (fun ls => ls.1 ++ symbol .equal :: ls.2) (leads_readOption hforward) item bound hs h

section Extensions

variable {lhs : Expr} {ls : List Lexeme} (hlhs : lhs.Spelled ls true)

include hlhs

theorem readBinary_sound (hsub : Sound sub) (op : BinaryOp) (hs : Token.Stream s.tokens)
    (h : (sub op.power s).2.errors = []) :
    s.Completes (ls ++ [symbol op.token]) (.binary op lhs (sub op.power s).1)
      (sub op.power s).2 := by
  obtain ⟨ms, closed, hms, hrhs, hopen⟩ := hsub op.power s hs h
  exact ⟨ms, closed, hms, by simpa using Expr.Spelled.binary op hlhs hrhs, hopen⟩

theorem readRange_sound (hsub : Sound sub) (hs : Token.Stream s.tokens)
    (h : (readStop sub lhs s).2.errors = []) :
    s.Completes (ls ++ [symbol .colon]) (readStop sub lhs s).1 (readStop sub lhs s).2 := by
  rcases readStop_sound hsub lhs hs h with
    ⟨hread, hbrack⟩ | ⟨stop, hread, ms, closed, hms, hstop, hopen⟩
  · rw [hread]
    exact ⟨[], false, rfl, by simpa using Expr.Spelled.openRange hlhs, fun _ => hbrack⟩
  · rw [hread]
    exact ⟨ms, closed, hms, by simpa using Expr.Spelled.range hlhs hstop, hopen⟩

theorem readSelect_sound (hforward : Forward sub) (hsub : Sound sub) (bound : Nat)
    (hs : Token.Stream s.tokens)
    (h : ((readOptions sub bound (s.expect .lParen)).2.expect .rParen).errors = []) :
    s.Completes (ls ++ [symbol .equalGreater])
      (.select lhs (readOptions sub bound (s.expect .lParen)).1)
      ((readOptions sub bound (s.expect .lParen)).2.expect .rParen) := by
  have hlist := (leads_expect _ _).errors_eq_nil h
  have hopen := (leads_readOptions hforward _ _).errors_eq_nil hlist
  obtain ⟨-, hlParen⟩ := lexemes_expect hs rfl hopen
  have hstream := (leads_expect s .lParen).stream hs
  obtain ⟨trailing, items, hoptions, hitems, hms⟩ :=
    readOptions_sound hforward hsub _ hstream hlist
  obtain ⟨-, hrParen⟩ := lexemes_expect ((leads_readOptions hforward _ _).stream hstream) rfl h
  have hspelled := Expr.Spelled.select trailing items hlhs (fun i hi => (hitems i hi).1)
    fun i hi => (hitems i hi).2
  refine .of_closed (symbol .lParen ::
    separated trailing (items.map fun i => i.2.1 ++ symbol .equal :: i.2.2) ++
      [symbol .rParen]) ?_ ?_
  · rw [hlParen, hms, hrParen]
    simp
  · simpa [hoptions] using hspelled

theorem readIndex_sound (hforward : Forward sub) (hsub : Sound sub) (hs : Token.Stream s.tokens)
    (h : ((sub .none s).2.expect .rBrack).errors = []) :
    s.Completes (ls ++ [symbol .lBrack]) (indexed lhs (sub .none s).1)
      ((sub .none s).2.expect .rBrack) := by
  have hposition := (leads_expect _ _).errors_eq_nil h
  obtain ⟨ms, closed, hms, hpos, -⟩ := hsub .none s hs hposition
  obtain ⟨-, hclose⟩ := lexemes_expect ((hforward _ _).stream hs) rfl h
  refine .of_closed (ms ++ [symbol .rBrack]) ?_ ?_
  · rw [hms, hclose]
    simp
  · simpa using Expr.Spelled.index hlhs hpos

theorem readCall_sound (hforward : Forward sub) (hsub : Sound sub) (bound : Nat)
    (hs : Token.Stream s.tokens) (h : ((readArgs sub bound s).2.expect .rParen).errors = []) :
    s.Completes (ls ++ [symbol .lParen]) (.call lhs (readArgs sub bound s).1)
      ((readArgs sub bound s).2.expect .rParen) := by
  have hlist := (leads_expect _ _).errors_eq_nil h
  obtain ⟨trailing, items, hargs, hitems, hms⟩ := readArgs_sound hforward hsub _ hs hlist
  obtain ⟨-, hrParen⟩ := lexemes_expect ((leads_readArgs hforward _ _).stream hs) rfl h
  refine .of_closed (separated trailing (items.map (·.2)) ++ [symbol .rParen]) ?_ ?_
  · rw [hms, hrParen]
    simp
  · simpa [hargs] using Expr.Spelled.call trailing items hlhs hitems

end Extensions

/-- An extension completes the operand to the left of it. -/
theorem readExtension_sound (hforward : Forward sub) (hsub : Sound sub) {ext : Extension}
    {lhs : Expr} (ht : Token.Stream t.tokens) (hkind : t.current.kind = ext.token)
    (hlhs : s.Completes front lhs t) (h : (readExtension sub ext lhs t).2.errors = []) :
    s.Completes front (readExtension sub ext lhs t).1 (readExtension sub ext lhs t).2 := by
  obtain ⟨hfixed, hbrack, -⟩ := ext.isFixed_token
  obtain ⟨ls, hls, he⟩ := hlhs.closed (by rw [hkind]; exact hbrack)
  have hadvance := t.leads_advance.stream ht
  have behind : t.advance.Completes ((front ++ ls) ++ [symbol ext.token])
      (readExtension sub ext lhs t).1 (readExtension sub ext lhs t).2 := by
    cases ext with
    | binary op => exact readBinary_sound he hsub op hadvance h
    | range => exact readRange_sound he hsub hadvance h
    | select => exact readSelect_sound he hforward hsub _ hadvance h
    | index => exact readIndex_sound he hforward hsub hadvance h
    | call => exact readCall_sound he hforward hsub _ hadvance h
  obtain ⟨ms, closed, hms, hspelled, hopen⟩ := behind
  refine ⟨ls ++ symbol ext.token :: ms, closed, ?_, by simpa using hspelled, hopen⟩
  rw [hls, lexemes_advance_symbol ht hkind hfixed, hms]
  simp

end Parts

/-- Reading an expression without an error consumes a spelling of it, and extending an operand
without an error consumes what completes the spelling of the operand, whatever the room. -/
theorem level_sound (room : Nat) : Sound (level room).expr ∧
    ∀ {power lhs front} {s t : Reader}, Token.Stream t.tokens → s.Completes front lhs t →
      ((level room).climb power lhs t).2.errors = [] →
      s.Completes front ((level room).climb power lhs t).1 ((level room).climb power lhs t).2 := by
  -- Below, both readers have one level less; an extension is read with the room of its operand.
  induction room with
  | zero =>
      refine ⟨fun power s _ h => absurd h (giveUp_errors_ne_nil s _), ?_⟩
      intro power lhs front s t _ hlhs h
      cases hext : extension? power t with
      | none =>
          rw [level_climb_of_none hext]
          exact hlhs
      | some ext =>
          rw [level_climb_zero_of_some hext] at h
          exact absurd h (giveUp_errors_ne_nil t _)
  | succ room ih =>
      obtain ⟨hsub, hclimb⟩ := ih
      have hforward := (leads_level room).1
      have sound : Sound (level (room + 1)).expr := by
        intro power s hs h
        rw [level_expr_succ] at h ⊢
        have hoperand := ((leads_level room).2 _ _ _).errors_eq_nil h
        exact hclimb ((leads_readOperand hforward s).stream hs)
          (readOperand_sound hforward hsub hs hoperand) h
      refine ⟨sound, ?_⟩
      intro power lhs front s t ht hlhs h
      have hforward' := (leads_level (room + 1)).1
      cases hext : extension? power t with
      | none =>
          rw [level_climb_of_none hext]
          exact hlhs
      | some ext =>
          rw [level_climb_succ_of_some hext] at h ⊢
          have hread := ((leads_level room).2 _ _ _).errors_eq_nil h
          exact hclimb ((leads_readExtension hforward' ext lhs t).stream ht)
            (readExtension_sound hforward' sound ht (extension?_eq_some hext).1 hlhs hread) h

theorem closeExpr_of_errors_eq_nil {s : Reader} (h : (closeExpr s).errors = []) :
    s.current.kind = .leaveExpr ∧ closeExpr s = s.advance := by
  by_cases hat : s.at? .leaveExpr
  · exact ⟨at?_iff.mp hat, by simp [closeExpr, hat]⟩
  · have hskip : ((s.report (.expected .leaveExpr)).skipToBoundary).errors = [] := by
      simp only [closeExpr, if_neg hat] at h
      split at h
      · simpa using h
      · exact h
    exact absurd ((leads_skipToBoundary _).errors_eq_nil hskip) (report_errors_ne_nil s _)

theorem readExpr_sound {s : Reader} (hs : Token.Stream s.tokens) (h : (readExpr s).2.errors = []) :
    s.Completes [] (readExpr s).1 (readExpr s).2 :=
  (level_sound _).1 .none s hs h

theorem readFragment_sound {s : Reader} (hs : Token.Stream s.tokens)
    (h : (readFragment s).2.errors = []) :
    ∃ ls, s.lexemes = ls ++ (readFragment s).2.lexemes ∧ (readFragment s).1.Spelled ls := by
  unfold readFragment at h ⊢
  split at h
  · next hkind =>
      refine ⟨[s.current.toLexeme], lexemes_advance hs (by simp [hkind]), ?_⟩
      rw [Token.toLexeme, hkind]
      exact .text _
  · next hkind =>
      have hadvance := s.leads_advance.stream hs
      have hread := (leads_closeExpr _).errors_eq_nil h
      obtain ⟨hclose, heq⟩ := closeExpr_of_errors_eq_nil h
      obtain ⟨ls, hls, he⟩ := (readExpr_sound hadvance hread).closed (by rw [hclose]; simp)
      refine ⟨symbol .enterExpr :: ls ++ [symbol .leaveExpr], ?_, .expr he⟩
      have hleave := lexemes_advance_symbol ((leads_readExpr _).stream hadvance) hclose rfl
      rw [lexemes_advance_symbol hs hkind rfl, hls]
      change _ = _ ++ (closeExpr (readExpr s.advance).2).lexemes
      rw [heq]
      simpa using hleave
  · exact absurd h (by simpa using report_errors_ne_nil s .unexpected)

/-- With room for every token, reading fragments goes on to the end of the input. -/
theorem readFragments_sound (bound : Nat) {s : Reader} (hs : Token.Stream s.tokens)
    (hbound : s.lexemes.length ≤ bound) (h : (readFragments bound s).2.errors = []) :
    ∃ ls, s.lexemes = ls ++ [⟨.eof, ""⟩] ∧ (readFragments bound s).1.Spelled ls := by
  induction bound generalizing s with
  | zero => simp [Reader.lexemes, Reader.tokens] at hbound
  | succ bound ih =>
      unfold readFragments at h ⊢
      split
      · next hat =>
          obtain ⟨hrest, heof⟩ := hs.eq_eof (at?_iff.mp hat)
          exact ⟨[], by simp [Reader.lexemes, Reader.tokens, hrest, heof], .nil⟩
      · next hat =>
          rw [if_neg hat] at h
          obtain ⟨ls, hls, hfragment⟩ :=
            readFragment_sound hs ((leads_readFragments _ _).errors_eq_nil h)
          have hlength : (readFragment s).2.lexemes.length ≤ bound := by
            have hne := List.length_pos_iff.mpr hfragment.ne_nil
            have hsum := congrArg List.length hls
            rw [List.length_append] at hsum
            omega
          obtain ⟨ms, hms, hrest⟩ := ih ((leads_readFragment s).stream hs) hlength h
          exact ⟨ls ++ ms, by rw [hls, hms, List.append_assoc], .cons hfragment hrest⟩

/-- A template is accepted if no error is left after its last fragment. -/
theorem read_of_parse_eq_ok {source : String} {t : Template} (h : parse source = .ok t) :
    (readFragments (Token.scan source).length (.start (Token.scan source))).1 = t ∧
      (readFragments (Token.scan source).length (.start (Token.scan source))).2.errors = [] := by
  unfold parse at h
  split at h
  · next template hread =>
      cases h
      have herrors := congrArg Prod.snd hread
      exact ⟨congrArg Prod.fst hread, List.reverse_eq_nil_iff.mp herrors⟩
  · cases h

/-- The tokens of an accepted template spell it, up to the end of the input. -/
theorem exists_spelled_of_parse {source : String} {t : Template} (h : parse source = .ok t) :
    ∃ ls, (Token.scan source).map Token.toLexeme = ls ++ [⟨.eof, ""⟩] ∧ t.Spelled ls := by
  have hstream := Token.stream_scan source
  obtain ⟨hread, herrors⟩ := read_of_parse_eq_ok h
  have hlength : (Reader.start (Token.scan source)).lexemes.length ≤
      (Token.scan source).length := by
    simp [Reader.lexemes, tokens_start hstream.ne_nil]
  obtain ⟨ls, hls, hspelled⟩ :=
    readFragments_sound _ (tokens_start hstream.ne_nil ▸ hstream) hlength herrors
  rw [Reader.lexemes, tokens_start hstream.ne_nil] at hls
  rw [hread] at hspelled
  exact ⟨ls, hls, hspelled⟩

/-- No token of an accepted template is dropped or made up. Without the parentheses that only group,
without trailing commas, and with the zero at which a range starts if it has no start, the lexemes
of the source are exactly those of the tree, in order; and nothing changes in those of the tree. -/
theorem parse_lexemes {source : String} {t : Template} (h : parse source = .ok t) :
    ∃ ls, (Token.scan source).map Token.toLexeme = ls ++ [⟨.eof, ""⟩] ∧ t.Spelled ls ∧
      Lexeme.normal [] false ls = t.lexemes ∧ Lexeme.normal [] false t.lexemes = t.lexemes := by
  obtain ⟨ls, hls, hspelled⟩ := exists_spelled_of_parse h
  exact ⟨ls, hls, hspelled, hspelled.normal, hspelled.lexemes.normal⟩

/-- A call of a slice, with parentheses that group, a trailing comma and a range from zero. -/
def greeting : Template :=
  [.text "Hi ",
    .expr (.call (.slice (.ident "name") .zero (some (.literal .int "2")))
      [.ident "x", .binary .add (.literal .int "1") (.ident "y")])]

/-- A source of the call. -/
def greetingSource : String := "Hi \x7b(name)[:2](x, (1 + y),)\x7d"

theorem parse_lexemes_of_greeting : parse greetingSource = .ok greeting ∧
    ∃ ls, (Token.scan greetingSource).map Token.toLexeme = ls ++ [⟨.eof, ""⟩] ∧
      greeting.Spelled ls ∧ Lexeme.normal [] false ls = greeting.lexemes ∧
      Lexeme.normal [] false greeting.lexemes = greeting.lexemes :=
  ⟨rfl, parse_lexemes rfl⟩

end Phrasebook.Template
