import Mathlib
import Phrasebook.Proofs.Template.Scanner

/-!
# What reading does to its state

Reading only moves forward through the tokens and only adds errors. So if no error is left at the
end, none was reported on the way, and every token that was expected was there. The lemmas below say
so for each function that reads a part of an expression, given the same of the function by which it
reads the parts below it.
-/

namespace Phrasebook.Template

namespace Reader

/-- The tokens that are not read yet. -/
def tokens (s : Reader) : List Token := s.current :: s.upcoming

/-- The lexemes that are not read yet. -/
def lexemes (s : Reader) : List Lexeme := s.tokens.map Token.toLexeme

theorem tokens_start {ts : List Token} (h : ts ≠ []) : (Reader.start ts).tokens = ts := by
  cases ts with
  | nil => exact absurd rfl h
  | cons => rfl

@[simp] theorem errors_start (ts : List Token) : (Reader.start ts).errors = [] := by
  cases ts <;> rfl

/-- A state comes later in reading than another one. -/
structure Leads (s s' : Reader) : Prop where
  tokens : s'.tokens <:+ s.tokens
  errors : s.errors <:+ s'.errors

namespace Leads

variable {s s' s'' : Reader}

theorem refl (s : Reader) : s.Leads s := ⟨List.suffix_rfl, List.suffix_rfl⟩

theorem trans (h : s.Leads s') (h' : s'.Leads s'') : s.Leads s'' :=
  ⟨h'.tokens.trans h.tokens, h.errors.trans h'.errors⟩

/-- Without an error at the end there was none before. -/
theorem errors_eq_nil (h : s.Leads s') (hnil : s'.errors = []) : s.errors = [] :=
  List.suffix_nil.mp (hnil ▸ h.errors)

theorem stream (h : s.Leads s') (hs : Token.Stream s.tokens) : Token.Stream s'.tokens :=
  hs.of_suffix h.tokens (by simp [Reader.tokens])

end Leads

@[simp] theorem advance_errors (s : Reader) : s.advance.errors = s.errors := by
  unfold advance
  split <;> rfl

theorem leads_advance (s : Reader) : s.Leads s.advance := by
  refine ⟨?_, by simp⟩
  unfold advance
  split
  · exact List.suffix_rfl
  · next next rest h => simp [Reader.tokens, h]

/-- In front of the end of the input, moving on takes exactly one token. -/
theorem tokens_advance {s : Reader} (h : Token.Stream s.tokens) (hkind : s.current.kind ≠ .eof) :
    s.tokens = s.current :: s.advance.tokens := by
  have hne := (h.tail hkind).ne_nil
  unfold advance
  split
  · next hnil => exact absurd hnil hne
  · next next rest hcons => simp [Reader.tokens, hcons]

theorem lexemes_advance {s : Reader} (h : Token.Stream s.tokens) (hkind : s.current.kind ≠ .eof) :
    s.lexemes = s.current.toLexeme :: s.advance.lexemes := by
  rw [lexemes, tokens_advance h hkind]
  rfl

/-- A symbol or keyword that is read has its own spelling. -/
theorem lexemes_advance_symbol {s : Reader} {kind : Token.Kind} (h : Token.Stream s.tokens)
    (hkind : s.current.kind = kind) (hfixed : kind.isFixed) :
    s.lexemes = .symbol kind :: s.advance.lexemes := by
  subst hkind
  rw [lexemes_advance h (by intro heof; simp [heof, Token.Kind.isFixed] at hfixed),
    h.toLexeme hfixed]

@[simp] theorem report_tokens (s : Reader) (cause : SyntaxError.Cause) :
    (s.report cause).tokens = s.tokens := by
  unfold report
  split <;> rfl

theorem leads_report (s : Reader) (cause : SyntaxError.Cause) : s.Leads (s.report cause) := by
  refine ⟨by simp, ?_⟩
  unfold report
  split
  · exact List.suffix_rfl
  · exact List.suffix_cons _ _

/-- An error that is left out is one behind another error. -/
theorem report_errors_ne_nil (s : Reader) (cause : SyntaxError.Cause) :
    (s.report cause).errors ≠ [] := by
  unfold report
  split
  · next h =>
      intro hnil
      simp [hnil] at h
  · simp

theorem leads_skipToBoundary (s : Reader) : s.Leads s.skipToBoundary := by
  have go : ∀ upcoming current errors,
      (Reader.mk current upcoming errors).Leads (skipToBoundary.go current upcoming errors) := by
    intro upcoming
    induction upcoming with
    | nil => intro current errors; exact .refl _
    | cons next rest ih =>
        intro current errors
        rw [skipToBoundary.go]
        split
        · exact .refl _
        · have step : (Reader.mk current (next :: rest) errors).Leads ⟨next, rest, errors⟩ :=
            ⟨List.suffix_cons _ _, List.suffix_rfl⟩
          exact step.trans (ih next errors)
  exact go s.upcoming s.current s.errors

theorem expect_eq (s : Reader) (kind : Token.Kind) :
    s.expect kind =
      if s.at? kind then s.advance
      else if (s.report (.expected kind)).atBoundary then s.report (.expected kind)
      else (s.report (.expected kind)).advance := rfl

theorem leads_expect (s : Reader) (kind : Token.Kind) : s.Leads (s.expect kind) := by
  rw [expect_eq]
  split
  · exact s.leads_advance
  split
  · exact s.leads_report _
  · exact (s.leads_report _).trans (leads_advance _)

theorem at?_iff {s : Reader} {kind : Token.Kind} : s.at? kind ↔ s.current.kind = kind := by
  simp [at?]

/-- What is expected without an error is there and is read. -/
theorem expect_of_errors_eq_nil {s : Reader} {kind : Token.Kind}
    (h : (s.expect kind).errors = []) : s.current.kind = kind ∧ s.expect kind = s.advance := by
  rw [expect_eq] at h ⊢
  split at h
  · next hat =>
      rw [if_pos hat]
      exact ⟨at?_iff.mp hat, rfl⟩
  · exfalso
    split at h
    · exact report_errors_ne_nil _ _ h
    · exact report_errors_ne_nil _ _ (by simpa using h)

theorem leads_giveUp (s : Reader) (cause : SyntaxError.Cause) : s.Leads (s.giveUp cause).2 :=
  (s.leads_report cause).trans (leads_skipToBoundary _)

theorem giveUp_errors_ne_nil (s : Reader) (cause : SyntaxError.Cause) :
    (s.giveUp cause).2.errors ≠ [] := fun h =>
  report_errors_ne_nil s cause ((leads_skipToBoundary _).errors_eq_nil h)

end Reader

open Reader

/-- A way to read expressions moves forward. -/
def Forward (sub : ReadExpr) : Prop := ∀ power (s : Reader), s.Leads (sub power s).2

variable {sub : ReadExpr}

theorem leads_readStop (hsub : Forward sub) (start : Expr) (s : Reader) :
    s.Leads (readStop sub start s).2 := by
  unfold readStop
  split
  · exact .refl _
  · exact hsub _ _

theorem leads_readOperand (hsub : Forward sub) (s : Reader) : s.Leads (readOperand sub s).2 := by
  have unary : ∀ op, s.Leads (readUnary sub op s).2 := fun _ => s.leads_advance.trans (hsub _ _)
  unfold readOperand
  split
  · exact s.leads_advance
  · exact s.leads_advance
  · exact s.leads_advance
  · exact s.leads_advance
  · exact unary .not
  · exact unary .plus
  · exact unary .minus
  · exact s.leads_advance.trans (leads_readStop hsub _ _)
  · exact s.leads_advance.trans ((hsub _ _).trans (leads_expect _ _))
  · exact s.leads_giveUp _

theorem leads_readComma (s : Reader) : s.Leads (readComma s) := by
  unfold readComma
  split
  · exact .refl _
  · exact s.leads_expect _

/-- Reads at most the given number of items of a list, which are arguments or options. Between them
stand commas, and perhaps one behind the last item, as long as the list does not end. -/
def readItems {α : Type} (item : Reader → α × Reader) : Nat → Reader → List α × Reader
  | 0, s => ([], s)
  | bound + 1, s =>
    if atListEnd s then ([], s)
    else
      let first := item s
      let others := readItems item bound (readComma first.2)
      (first.1 :: others.1, others.2)

/-- Reads a pattern and the result that belongs to it. -/
def readOption (sub : ReadExpr) (s : Reader) : (Expr × Expr) × Reader :=
  let pattern := sub .none s
  let result := sub .none (pattern.2.expect .equal)
  ((pattern.1, result.1), result.2)

theorem readArgs_eq (sub : ReadExpr) : readArgs sub = readItems (sub .none) := by
  funext bound
  induction bound with
  | zero => rfl
  | succ bound ih =>
      funext s
      rw [readArgs, readItems, ih]

theorem readOptions_eq (sub : ReadExpr) : readOptions sub = readItems (readOption sub) := by
  funext bound
  induction bound with
  | zero => rfl
  | succ bound ih =>
      funext s
      rw [readOptions, readItems, ih]
      rfl

section Items

variable {α : Type} {item : Reader → α × Reader} {s : Reader}

theorem readItems_of_atListEnd (h : atListEnd s) (bound : Nat) :
    readItems item bound s = ([], s) := by
  cases bound <;> simp [readItems, h]

theorem readItems_succ (h : ¬ atListEnd s) (bound : Nat) :
    readItems item (bound + 1) s =
      ((item s).1 :: (readItems item bound (readComma (item s).2)).1,
        (readItems item bound (readComma (item s).2)).2) := by
  rw [readItems, if_neg h]

/-- What holds of each item holds of all items of a list. -/
theorem forall_mem_readItems {P : α → Prop} (hitem : ∀ s, P (item s).1) (bound : Nat)
    (s : Reader) : ∀ a ∈ (readItems item bound s).1, P a := by
  induction bound generalizing s with
  | zero => exact List.forall_mem_nil _
  | succ bound ih =>
      by_cases hend : atListEnd s
      · rw [readItems_of_atListEnd hend]
        exact List.forall_mem_nil _
      · rw [readItems_succ hend]
        exact List.forall_mem_cons.mpr ⟨hitem s, ih _⟩

theorem leads_readItems (hitem : ∀ s : Reader, s.Leads (item s).2) (bound : Nat) (s : Reader) :
    s.Leads (readItems item bound s).2 := by
  induction bound generalizing s with
  | zero => exact .refl _
  | succ bound ih =>
      unfold readItems
      split
      · exact .refl _
      · exact (hitem s).trans ((leads_readComma _).trans (ih _))

end Items

theorem leads_readOption (hsub : Forward sub) (s : Reader) : s.Leads (readOption sub s).2 :=
  (hsub _ _).trans ((leads_expect _ _).trans (hsub _ _))

theorem leads_readArgs (hsub : Forward sub) (bound : Nat) (s : Reader) :
    s.Leads (readArgs sub bound s).2 :=
  readArgs_eq sub ▸ leads_readItems (fun s => hsub .none s) bound s

theorem leads_readOptions (hsub : Forward sub) (bound : Nat) (s : Reader) :
    s.Leads (readOptions sub bound s).2 :=
  readOptions_eq sub ▸ leads_readItems (leads_readOption hsub) bound s

theorem leads_readExtension (hsub : Forward sub) (ext : Extension) (lhs : Expr) (s : Reader) :
    s.Leads (readExtension sub ext lhs s).2 := by
  refine s.leads_advance.trans ?_
  cases ext with
  | binary op => exact hsub _ _
  | range => exact leads_readStop hsub _ _
  | select =>
      exact (leads_expect _ _).trans ((leads_readOptions hsub _ _).trans (leads_expect _ _))
  | index => exact (hsub _ _).trans (leads_expect _ _)
  | call => exact (leads_readArgs hsub _ _).trans (leads_expect _ _)

theorem level_expr_succ (room : Nat) (power : Power) (s : Reader) :
    (level (room + 1)).expr power s =
      (level room).climb power (readOperand (level room).expr s).1
        (readOperand (level room).expr s).2 := rfl

theorem level_climb_of_none {power : Power} {s : Reader} (h : extension? power s = none)
    (room : Nat) (lhs : Expr) : (level room).climb power lhs s = (lhs, s) := by
  cases room <;> simp [level, h]

theorem level_climb_zero_of_some {power : Power} {s : Reader} {ext : Extension}
    (h : extension? power s = some ext) (lhs : Expr) :
    (level 0).climb power lhs s = s.giveUp .nestedTooDeeply := by
  simp [level, h]

theorem level_climb_succ_of_some {power : Power} {s : Reader} {ext : Extension}
    (h : extension? power s = some ext) (room : Nat) (lhs : Expr) :
    (level (room + 1)).climb power lhs s =
      (level room).climb power (readExtension (level (room + 1)).expr ext lhs s).1
        (readExtension (level (room + 1)).expr ext lhs s).2 := by
  rw [level]
  simp only [h]

/-- Reading an expression and extending an operand move forward, whatever the room. -/
theorem leads_level (room : Nat) : Forward (level room).expr ∧
    ∀ power lhs (s : Reader), s.Leads ((level room).climb power lhs s).2 := by
  induction room with
  | zero =>
      refine ⟨fun power s => s.leads_giveUp _, fun power lhs s => ?_⟩
      cases h : extension? power s with
      | none => rw [level_climb_of_none h]; exact .refl _
      | some ext => rw [level_climb_zero_of_some h]; exact s.leads_giveUp _
  | succ room ih =>
      have expr : Forward (level (room + 1)).expr := fun power s =>
        (leads_readOperand ih.1 s).trans (ih.2 _ _ _)
      refine ⟨expr, fun power lhs s => ?_⟩
      cases h : extension? power s with
      | none => rw [level_climb_of_none h]; exact .refl _
      | some ext =>
          rw [level_climb_succ_of_some h]
          exact (leads_readExtension expr ext lhs s).trans (ih.2 _ _ _)

theorem leads_readExpr (s : Reader) : s.Leads (readExpr s).2 := (leads_level _).1 _ _

theorem leads_closeExpr (s : Reader) : s.Leads (closeExpr s) := by
  have close : ∀ t : Reader, t.Leads (if t.at? .leaveExpr then t.advance else t) := by
    intro t
    split
    · exact t.leads_advance
    · exact .refl t
  refine Leads.trans ?_ (close _)
  split
  · exact .refl _
  · exact (s.leads_report _).trans (leads_skipToBoundary _)

theorem leads_readFragment (s : Reader) : s.Leads (readFragment s).2 := by
  unfold readFragment
  split
  · exact s.leads_advance
  · exact s.leads_advance.trans ((leads_readExpr _).trans (leads_closeExpr _))
  · exact (s.leads_report _).trans (leads_advance _)

theorem leads_readFragments (bound : Nat) (s : Reader) : s.Leads (readFragments bound s).2 := by
  induction bound generalizing s with
  | zero => exact .refl _
  | succ bound ih =>
      unfold readFragments
      split
      · exact .refl _
      · exact (leads_readFragment s).trans (ih _)

/-- What holds of each fragment holds of all fragments of a template. -/
theorem forall_mem_readFragments {P : Fragment → Prop} (h : ∀ s, P (readFragment s).1)
    (bound : Nat) (s : Reader) : ∀ f ∈ (readFragments bound s).1, P f := by
  induction bound generalizing s with
  | zero => exact List.forall_mem_nil _
  | succ bound ih =>
      rw [readFragments]
      split
      · exact List.forall_mem_nil _
      · exact List.forall_mem_cons.mpr ⟨h s, ih _⟩

/-- An accepted template is what was read. -/
theorem read_of_parse {source : String} {t : Template} (h : parse source = .ok t) :
    (read source).1 = t := by
  unfold parse at h
  split at h
  · next template hread =>
      cases h
      rw [hread]
  · cases h

end Phrasebook.Template
