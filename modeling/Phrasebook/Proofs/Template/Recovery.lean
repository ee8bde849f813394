import Mathlib
import Phrasebook.Proofs.Template.Reader
import Phrasebook.Proofs.Template.Tiling

/-!
# Recovery stays inside of the braces

However malformed an expression is, reading it never goes beyond the brace that closes it. All that
the functions that read parts of an expression do to the state is to report errors and to move on
from tokens that do not end the expression (`Reader.Move`); that is shown for one function after the
other, and what a single move keeps is then kept by all of them.

So the fragments of a template are where its texts and open braces are, and each of them ends where
the next one starts (`read_fragments`).
-/

namespace Phrasebook

/-- Whether a token starts a fragment of a template. -/
def Token.startsFragment (t : Token) : Bool := t.kind == .text || t.kind == .enterExpr

/-- A fragment is the one that a token starts: the text of the token, or an expression behind an
open brace. -/
def Fragment.StartsAt (f : Fragment) (t : Token) : Prop :=
  match t.kind with
  | .text => f = .text t.lexeme
  | .enterExpr => ∃ e, f = .expr e
  | _ => False

namespace Token

/-- Whether a token stands between the braces of an expression. -/
def Inner (t : Token) : Prop := Mode.expr.Admits t.kind ∧ t.kind ≠ .leaveExpr

/-- The tokens of whole fragments: texts, and expressions with both of their braces. -/
inductive Balanced : List Token → Prop where
  | nil : Balanced []
  | text {t : Token} {ts : List Token} : t.kind = .text → Balanced ts → Balanced (t :: ts)
  | braces {enter leave : Token} {inner ts : List Token} : enter.kind = .enterExpr →
      (∀ t ∈ inner, t.Inner) → leave.kind = .leaveExpr → Balanced ts →
      Balanced (enter :: inner ++ leave :: ts)

/-- The tokens behind the last whole fragment: the end of the input, perhaps with an expression in
front of it that is not closed. -/
inductive Ending : List Token → Prop where
  | eof (offset : Nat) : Ending [endOfInput offset]
  | unclosed {enter : Token} {inner : List Token} (offset : Nat) : enter.kind = .enterExpr →
      (∀ t ∈ inner, t.Inner) → Ending (enter :: inner ++ [endOfInput offset])

/-- Tokens fall into whole fragments and what is behind the last of them. -/
def Sectioned (ts : List Token) : Prop :=
  ∃ front tail, ts = front ++ tail ∧ Balanced front ∧ Ending tail

namespace Sectioned

variable {t : Token} {ts : List Token}

theorem eof (offset : Nat) : Sectioned [endOfInput offset] := ⟨[], _, rfl, .nil, .eof offset⟩

theorem text (ht : t.kind = .text) (h : Sectioned ts) : Sectioned (t :: ts) := by
  obtain ⟨front, tail, rfl, hfront, htail⟩ := h
  exact ⟨t :: front, tail, rfl, .text ht hfront, htail⟩

theorem ne_nil (h : Sectioned ts) : ts ≠ [] := by
  obtain ⟨front, tail, rfl, -, htail⟩ := h
  cases htail <;> simp

end Sectioned

/-- A token ends an expression: the brace that closes it, with fragments behind it again, or the end
of the input. -/
inductive Stops : Token → List Token → Prop where
  | brace {stop : Token} {rest : List Token} : stop.kind = .leaveExpr → Sectioned rest →
      Stops stop rest
  | eof (offset : Nat) : Stops (endOfInput offset) []

namespace Stops

variable {stop : Token} {rest : List Token}

theorem kind (h : Stops stop rest) : stop.kind = .leaveExpr ∨ stop.kind = .eof := by
  cases h with
  | brace hleave => exact .inl hleave
  | eof offset => exact .inr rfl

theorem rest_ne_nil (h : Stops stop rest) (hleave : stop.kind = .leaveExpr) : rest ≠ [] := by
  cases h with
  | brace _ hrest => exact hrest.ne_nil
  | eof offset => cases hleave

/-- What is read behind an expression starts with a fragment or is the end of the input. -/
theorem sectioned (h : Stops stop rest) :
    Sectioned (if stop.kind = .leaveExpr then rest else stop :: rest) := by
  cases h with
  | brace hleave hrest =>
      rw [if_pos hleave]
      exact hrest
  | eof offset => exact .eof offset

end Stops

/-- The tokens of an expression behind its open brace: those inside, and the one that ends it. -/
def Enclosed (ts : List Token) : Prop :=
  ∃ inner stop rest, ts = inner ++ stop :: rest ∧ (∀ t ∈ inner, t.Inner) ∧ Stops stop rest

/-- A fragment starts with a text or an open brace; behind the last one is the end of the input. -/
theorem Sectioned.of_cons {t : Token} {ts : List Token} (h : Sectioned (t :: ts)) :
    t.kind = .eof ∧ ts = [] ∨ t.kind = .text ∧ Sectioned ts ∨
      t.kind = .enterExpr ∧ Enclosed ts := by
  obtain ⟨front, tail, hts, hfront, htail⟩ := h
  cases hfront with
  | nil =>
      cases htail with
      | eof offset =>
          obtain ⟨rfl, rfl⟩ := List.cons.inj hts
          exact .inl ⟨rfl, rfl⟩
      | unclosed offset henter hinner =>
          obtain ⟨rfl, rfl⟩ := List.cons.inj hts
          exact .inr (.inr ⟨henter, _, _, [], rfl, hinner, .eof offset⟩)
  | text hkind hfront =>
      obtain ⟨rfl, rfl⟩ := List.cons.inj hts
      exact .inr (.inl ⟨hkind, _, _, rfl, hfront, htail⟩)
  | braces henter hinner hleave hfront =>
      obtain ⟨rfl, rfl⟩ := List.cons.inj hts
      exact .inr (.inr ⟨henter, _, _, _, by simp, hinner,
        .brace hleave ⟨_, _, rfl, hfront, htail⟩⟩)

theorem Enclosed.sectioned {enter : Token} {ts : List Token} (h : Enclosed ts)
    (henter : enter.kind = .enterExpr) : Sectioned (enter :: ts) := by
  obtain ⟨inner, stop, rest, rfl, hinner, hstop⟩ := h
  cases hstop with
  | brace hleave hrest =>
      obtain ⟨front, tail, rfl, hfront, htail⟩ := hrest
      exact ⟨enter :: inner ++ stop :: front, tail, by simp,
        .braces henter hinner hleave hfront, htail⟩
  | eof offset => exact ⟨[], _, rfl, .nil, .unclosed offset henter hinner⟩

/-- How the tokens that are read in a mode fall into parts. -/
def Mode.Parts : Mode → List Token → Prop
  | .text => Sectioned
  | .expr => Enclosed

/-- The tokens that tile an input fall into fragments. -/
theorem Tiles.parts {mode : Mode} {offset : Nat} {cs : List Char} {ts : List Token}
    (h : Tiles mode offset cs ts) : mode.Parts ts := by
  induction h with
  | @eof mode =>
      cases mode with
      | text => exact .eof _
      | expr => exact ⟨[], _, [], rfl, by simp, .eof _⟩
  | @token mode _ _ _ _ t ts _ _ hadmits _ _ _ ih =>
      cases mode with
      | text =>
          rcases hadmits with hkind | hkind
          · rw [hkind] at ih
            exact ih.text hkind
          · rw [hkind] at ih
            exact Enclosed.sectioned ih hkind
      | expr =>
          by_cases hclose : t.kind = .leaveExpr
          · rw [hclose] at ih
            exact ⟨[], t, ts, rfl, by simp, .brace hclose ih⟩
          · rw [Mode.after_expr hclose] at ih
            obtain ⟨inner, stop, rest, rfl, hinner, hstop⟩ := ih
            exact ⟨t :: inner, stop, rest, rfl,
              List.forall_mem_cons.mpr ⟨⟨hadmits, hclose⟩, hinner⟩, hstop⟩

theorem sectioned_scan (source : String) : Sectioned (scan source) :=
  (tiles_scan source).parts

end Token

namespace Template

namespace Reader

/-- One move inside of an expression: reporting an error, or moving on from a token that does not
end the expression. -/
inductive Move : Reader → Reader → Prop where
  | report (s : Reader) (cause : SyntaxError.Cause) : Move s (s.report cause)
  | advance {s : Reader} : s.atBoundary = false → Move s s.advance

/-- A state that is reached from another one inside of an expression. -/
abbrev Within : Reader → Reader → Prop := Relation.ReflTransGen Move

theorem atBoundary_iff {s : Reader} :
    s.atBoundary ↔ s.current.kind = .leaveExpr ∨ s.current.kind = .eof := by
  simp [atBoundary, at?]

theorem mem_errors_report {s : Reader} {cause : SyntaxError.Cause} {e : SyntaxError}
    (h : e ∈ (s.report cause).errors) : e ∈ s.errors ∨ e.token = s.current := by
  unfold report at h
  split at h
  · exact .inl h
  · rcases List.mem_cons.mp h with rfl | h
    · exact .inr rfl
    · exact .inl h

theorem within_report (s : Reader) (cause : SyntaxError.Cause) : s.Within (s.report cause) :=
  .single (.report s cause)

theorem within_advance {s : Reader} (h : s.current.kind ≠ .leaveExpr ∧ s.current.kind ≠ .eof) :
    s.Within s.advance := by
  refine .single (.advance ?_)
  rw [← Bool.not_eq_true, atBoundary_iff]
  exact not_or.mpr h

theorem within_skipToBoundary (s : Reader) : s.Within s.skipToBoundary := by
  have go : ∀ upcoming current errors,
      Within ⟨current, upcoming, errors⟩ (skipToBoundary.go current upcoming errors) := by
    intro upcoming
    induction upcoming with
    | nil => intro current errors; exact .refl
    | cons next rest ih =>
        intro current errors
        rw [skipToBoundary.go]
        split
        · exact .refl
        · next h =>
            have step := Move.advance (Bool.eq_false_of_not_eq_true h)
            exact .head step (ih next errors)
  exact go s.upcoming s.current s.errors

/-- What is expected inside of an expression does not end it. -/
theorem within_expect (s : Reader) {kind : Token.Kind} (h : kind ≠ .leaveExpr ∧ kind ≠ .eof) :
    s.Within (s.expect kind) := by
  rw [expect_eq]
  split
  · next hat =>
      rw [at?_iff] at hat
      exact within_advance (hat ▸ h)
  split
  · exact within_report s _
  · next hboundary =>
      exact (within_report s _).tail (.advance (Bool.eq_false_of_not_eq_true hboundary))

theorem within_giveUp (s : Reader) (cause : SyntaxError.Cause) : s.Within (s.giveUp cause).2 :=
  (within_report s cause).trans (within_skipToBoundary _)

end Reader

open Reader

/-- A way to read expressions stays inside of the braces. -/
def Contained (sub : ReadExpr) : Prop := ∀ power (s : Reader), s.Within (sub power s).2

section Parts

variable {sub : ReadExpr} (hsub : Contained sub)

include hsub

theorem within_readStop (start : Expr) (s : Reader) : s.Within (readStop sub start s).2 := by
  unfold readStop
  split
  · exact .refl
  · exact hsub _ _

/-- An operand is given up, or the token that starts it is inside of the expression and read
first. -/
theorem within_advance_readOperand (s : Reader) : readOperand sub s = s.giveUp .unexpected ∨
    s.atBoundary = false ∧ s.advance.Within (readOperand sub s).2 := by
  have inside : ∀ kind, kind ≠ .leaveExpr ∧ kind ≠ .eof → s.current.kind = kind →
      s.atBoundary = false := by
    rintro kind h rfl
    rw [← Bool.not_eq_true, atBoundary_iff]
    exact not_or.mpr h
  unfold readOperand
  split
  · next h => exact .inr ⟨inside _ (by simp) h, .refl⟩
  · next h => exact .inr ⟨inside _ (by simp) h, .refl⟩
  · next h => exact .inr ⟨inside _ (by simp) h, .refl⟩
  · next h => exact .inr ⟨inside _ (by simp) h, .refl⟩
  · next h => exact .inr ⟨inside _ (by simp) h, hsub _ _⟩
  · next h => exact .inr ⟨inside _ (by simp) h, hsub _ _⟩
  · next h => exact .inr ⟨inside _ (by simp) h, hsub _ _⟩
  · next h => exact .inr ⟨inside _ (by simp) h, within_readStop hsub _ _⟩
  · next h =>
      exact .inr ⟨inside _ (by simp) h, (hsub _ _).trans (within_expect _ (by simp))⟩
  · exact .inl rfl

theorem within_readOperand (s : Reader) : s.Within (readOperand sub s).2 := by
  rcases within_advance_readOperand hsub s with h | ⟨hinside, h⟩
  · rw [h]
    exact within_giveUp s _
  · exact .head (.advance hinside) h

omit hsub in
theorem within_readComma (s : Reader) : s.Within (readComma s) := by
  unfold readComma
  split
  · exact .refl
  · exact within_expect s (by simp)

omit hsub in
theorem within_readItems {α : Type} {item : Reader → α × Reader}
    (hitem : ∀ s : Reader, s.Within (item s).2) (bound : Nat) (s : Reader) :
    s.Within (readItems item bound s).2 := by
  induction bound generalizing s with
  | zero => exact .refl
  | succ bound ih =>
      unfold readItems
      split
      · exact .refl
      · exact (hitem s).trans ((within_readComma _).trans (ih _))

theorem within_readArgs (bound : Nat) (s : Reader) : s.Within (readArgs sub bound s).2 :=
  readArgs_eq sub ▸ within_readItems (fun s => hsub .none s) bound s

theorem within_readOption (s : Reader) : s.Within (readOption sub s).2 :=
  (hsub _ _).trans ((within_expect _ (by simp)).trans (hsub _ _))

theorem within_readOptions (bound : Nat) (s : Reader) : s.Within (readOptions sub bound s).2 :=
  readOptions_eq sub ▸ within_readItems (within_readOption hsub) bound s

omit hsub in
/-- The end of an expression extends nothing. -/
theorem atBoundary_of_extension? {ext : Extension} {power : Power} {s : Reader}
    (hext : extension? power s = some ext) : s.atBoundary = false := by
  rw [← Bool.not_eq_true, atBoundary_iff]
  rintro (h | h) <;> simp [extension?, h, Extension.ofKind?, BinaryOp.ofKind?] at hext

/-- The token that starts an extension is read first. -/
theorem within_advance_readExtension (ext : Extension) (lhs : Expr) (s : Reader) :
    s.advance.Within (readExtension sub ext lhs s).2 := by
  cases ext with
  | binary op => exact hsub _ _
  | range => exact within_readStop hsub _ _
  | select =>
      exact (within_expect _ (by simp)).trans
        ((within_readOptions hsub _ _).trans (within_expect _ (by simp)))
  | index => exact (hsub _ _).trans (within_expect _ (by simp))
  | call => exact (within_readArgs hsub _ _).trans (within_expect _ (by simp))

theorem within_readExtension {ext : Extension} {power : Power} {s : Reader}
    (hext : extension? power s = some ext) (lhs : Expr) :
    s.Within (readExtension sub ext lhs s).2 :=
  .head (.advance (atBoundary_of_extension? hext)) (within_advance_readExtension hsub ext lhs s)

end Parts

/-- Reading an expression and extending an operand stay inside of the braces, whatever the room. -/
theorem within_level (room : Nat) : Contained (level room).expr ∧
    ∀ power lhs (s : Reader), s.Within ((level room).climb power lhs s).2 := by
  induction room with
  | zero =>
      refine ⟨fun power s => within_giveUp s _, fun power lhs s => ?_⟩
      cases h : extension? power s with
      | none => rw [level_climb_of_none h]
      | some ext => rw [level_climb_zero_of_some h]; exact within_giveUp s _
  | succ room ih =>
      have expr : Contained (level (room + 1)).expr := fun power s =>
        (within_readOperand ih.1 s).trans (ih.2 _ _ _)
      refine ⟨expr, fun power lhs s => ?_⟩
      cases h : extension? power s with
      | none => rw [level_climb_of_none h]
      | some ext =>
          rw [level_climb_succ_of_some h]
          exact (within_readExtension expr h lhs).trans (ih.2 _ _ _)

theorem within_readExpr (s : Reader) : s.Within (readExpr s).2 := (within_level _).1 _ _

namespace Reader

theorem tokens_advance_of_cons {s : Reader} {t : Token} {ts : List Token}
    (h : s.tokens = t :: ts) (hne : ts ≠ []) : s.advance.tokens = ts := by
  have htail : s.upcoming = ts := (List.cons.inj h).2
  unfold advance
  split
  · next hnil => exact absurd (htail.symm.trans hnil) hne
  · next next rest hcons => exact hcons.symm.trans htail

theorem skipToBoundary_eq (s : Reader) :
    s.skipToBoundary = if s.atBoundary then s else s.advance.skipToBoundary := by
  obtain ⟨current, _ | ⟨next, rest⟩, errors⟩ := s
  · simp [skipToBoundary, skipToBoundary.go, advance]
  · rfl

/-- The tokens from a state on are those inside of an expression, the token that ends it, and the
rest. -/
structure Faces (s : Reader) (inner : List Token) (stop : Token) (rest : List Token) : Prop where
  tokens : s.tokens = inner ++ stop :: rest
  inner : ∀ t ∈ inner, t.Inner
  stop : stop.kind = .leaveExpr ∨ stop.kind = .eof

namespace Faces

variable {s t : Reader} {inner rest : List Token} {stop : Token}

theorem atBoundary_iff (h : s.Faces inner stop rest) : s.atBoundary ↔ inner = [] := by
  rw [Reader.atBoundary_iff]
  cases inner with
  | nil =>
      obtain ⟨hcurrent, -⟩ := List.cons.inj h.tokens
      simpa [hcurrent] using h.stop
  | cons u inner =>
      obtain ⟨hcurrent, -⟩ := List.cons.inj h.tokens
      obtain ⟨⟨-, -, heof⟩, hleave⟩ := h.inner u (by simp)
      simp [hcurrent, heof, hleave]

theorem report (h : s.Faces inner stop rest) (cause : SyntaxError.Cause) :
    (s.report cause).Faces inner stop rest :=
  ⟨(report_tokens s cause).trans h.tokens, h.inner, h.stop⟩

theorem advance {u : Token} (h : s.Faces (u :: inner) stop rest) :
    s.advance.Faces inner stop rest :=
  ⟨tokens_advance_of_cons h.tokens (by simp), fun v hv => h.inner v (by simp [hv]), h.stop⟩

/-- Moves read tokens inside of the expression only. -/
theorem within (h : s.Faces inner stop rest) (hmoves : s.Within t) :
    ∃ left, left <:+ inner ∧ t.Faces left stop rest := by
  induction hmoves with
  | refl => exact ⟨inner, List.suffix_rfl, h⟩
  | tail _ hmove ih =>
      obtain ⟨left, hleft, hfaces⟩ := ih
      cases hmove with
      | report cause => exact ⟨left, hleft, hfaces.report cause⟩
      | advance hboundary =>
          cases left with
          | nil => simp [hfaces.atBoundary_iff.mpr rfl] at hboundary
          | cons u left => exact ⟨left, (List.suffix_cons u left).trans hleft, hfaces.advance⟩

theorem skipToBoundary (h : s.Faces inner stop rest) : s.skipToBoundary.Faces [] stop rest := by
  induction inner generalizing s with
  | nil =>
      rw [skipToBoundary_eq, if_pos (h.atBoundary_iff.mpr rfl)]
      exact h
  | cons u inner ih =>
      rw [skipToBoundary_eq, if_neg (by simp [h.atBoundary_iff])]
      exact ih h.advance

/-- The brace that closes an expression is read behind it, and nothing else. -/
theorem tokens_closeExpr (h : s.Faces inner stop rest)
    (hrest : stop.kind = .leaveExpr → rest ≠ []) :
    (closeExpr s).tokens = if stop.kind = .leaveExpr then rest else stop :: rest := by
  have close : ∀ {t : Reader}, t.Faces [] stop rest →
      (if t.at? .leaveExpr then t.advance else t).tokens =
        if stop.kind = .leaveExpr then rest else stop :: rest := by
    intro t ht
    have hcurrent : t.current = stop := (List.cons.inj ht.tokens).1
    by_cases hstop : stop.kind = .leaveExpr
    · rw [if_pos hstop, if_pos (at?_iff.mpr (by rw [hcurrent, hstop]))]
      exact tokens_advance_of_cons ht.tokens (hrest hstop)
    · rw [if_neg hstop, if_neg (by rwa [at?_iff, hcurrent])]
      exact ht.tokens
  unfold closeExpr
  split
  · next hat =>
      have hboundary : s.atBoundary := Reader.atBoundary_iff.mpr (.inl (at?_iff.mp hat))
      obtain rfl : inner = [] := h.atBoundary_iff.mp hboundary
      exact close h
  · exact close (h.report _).skipToBoundary

/-- Errors that are reported inside of an expression are at its tokens. -/
theorem errors_within (h : s.Faces inner stop rest) (hmoves : s.Within t) :
    ∀ e ∈ t.errors, e ∈ s.errors ∨ e.token ∈ inner ++ [stop] := by
  induction hmoves with
  | refl => exact fun e he => .inl he
  | @tail u v hmoves hmove ih =>
      cases hmove with
      | advance => rwa [advance_errors]
      | report cause =>
          -- An error is reported at the current token, which is one of those that are left.
          obtain ⟨left, hleft, hfaces⟩ := h.within hmoves
          have hcurrent : u.current ∈ inner ++ [stop] := by
            have hmem : u.current ∈ left ++ [stop] := by
              have htokens := hfaces.tokens
              cases left with
              | nil => simp [(List.cons.inj htokens).1]
              | cons v left => simp [(List.cons.inj htokens).1]
            exact (List.IsSuffix.sublist hleft).append_right [stop] |>.subset hmem
          intro e he
          rcases mem_errors_report he with he | he
          · exact ih e he
          · exact .inr (he ▸ hcurrent)

end Faces

theorem errors_leave (s : Reader) :
    (if s.at? .leaveExpr then s.advance else s).errors = s.errors := by
  split
  · exact advance_errors s
  · rfl

/-- All that is reported while an expression is closed is reported inside of it. -/
theorem exists_within_closeExpr (s : Reader) :
    ∃ t, s.Within t ∧ (closeExpr s).errors = t.errors := by
  unfold closeExpr
  split
  · exact ⟨s, .refl, errors_leave s⟩
  · exact ⟨_, (within_report s _).trans (within_skipToBoundary _), errors_leave _⟩

end Reader

/-- The errors of an expression in braces are at its tokens. -/
theorem errors_readFragment_braces {s : Reader} (hkind : s.current.kind = .enterExpr)
    {inner rest : List Token} {stop : Token} (h : s.advance.Faces inner stop rest) :
    ∀ e ∈ (readFragment s).2.errors, e ∈ s.errors ∨ e.token ∈ inner ++ [stop] := by
  obtain ⟨t, hclose, herrors⟩ := exists_within_closeExpr (readExpr s.advance).2
  have hwithin := h.errors_within ((within_readExpr s.advance).trans hclose)
  simp only [readFragment, hkind, herrors]
  rwa [advance_errors] at hwithin

/-- An expression is read up to the brace that closes it, or to the end of the input, and the next
fragment is read from behind that. -/
theorem readFragment_enclosed {s : Reader} (hkind : s.current.kind = .enterExpr)
    (h : Token.Enclosed s.upcoming) :
    ∃ inner stop rest left, s.upcoming = inner ++ stop :: rest ∧ (∀ t ∈ inner, t.Inner) ∧
      Token.Stops stop rest ∧ left <:+ inner ∧
      (readExpr s.advance).2.tokens = left ++ stop :: rest ∧
      (readFragment s).2.tokens = if stop.kind = .leaveExpr then rest else stop :: rest := by
  obtain ⟨inner, stop, rest, hupcoming, hinner, hstop⟩ := h
  have hadvance : s.advance.tokens = s.upcoming :=
    tokens_advance_of_cons rfl (by simp [hupcoming])
  have hfaces : s.advance.Faces inner stop rest := ⟨hadvance.trans hupcoming, hinner, hstop.kind⟩
  obtain ⟨left, hleft, hread⟩ := hfaces.within (within_readExpr s.advance)
  have hfragment : (readFragment s).2 = closeExpr (readExpr s.advance).2 := by
    simp only [readFragment, hkind]
  refine ⟨inner, stop, rest, left, hupcoming, hinner, hstop, hleft, hread.tokens, ?_⟩
  rw [hfragment]
  exact hread.tokens_closeExpr hstop.rest_ne_nil

theorem filter_startsFragment_enclosed {inner rest : List Token} {stop : Token}
    (hinner : ∀ t ∈ inner, t.Inner) (hstop : stop.kind = .leaveExpr ∨ stop.kind = .eof) :
    (inner ++ stop :: rest).filter Token.startsFragment = rest.filter Token.startsFragment := by
  have hnone : inner.filter Token.startsFragment = [] := by
    refine List.filter_eq_nil_iff.mpr fun t ht => ?_
    obtain ⟨⟨htext, henter, -⟩, -⟩ := hinner t ht
    simp [Token.startsFragment, htext, henter]
  have hend : Token.startsFragment stop = false := by
    rcases hstop with h | h <;> simp [Token.startsFragment, h]
  simp [hnone, hend]

/-- A fragment takes the token that starts it and no other one that starts a fragment. -/
theorem readFragment_sectioned {s : Reader} (hs : Token.Sectioned s.tokens)
    (hne : s.current.kind ≠ .eof) :
    (readFragment s).1.StartsAt s.current ∧ Token.Sectioned (readFragment s).2.tokens ∧
      s.tokens.filter Token.startsFragment =
        s.current :: (readFragment s).2.tokens.filter Token.startsFragment := by
  rcases hs.of_cons with ⟨heof, -⟩ | ⟨hkind, hupcoming⟩ | ⟨hkind, henclosed⟩
  · exact absurd heof hne
  · have hread : readFragment s = (.text s.current.lexeme, s.advance) := by
      simp only [readFragment, hkind]
    have htokens := tokens_advance_of_cons rfl hupcoming.ne_nil
    rw [hread, htokens]
    refine ⟨by simp [Fragment.StartsAt, hkind], hupcoming, ?_⟩
    simp [Reader.tokens, Token.startsFragment, hkind]
  · have hexpr : ∃ e, (readFragment s).1 = .expr e := by simp [readFragment, hkind]
    obtain ⟨inner, stop, rest, -, hupcoming, hinner, hstop, -, -, htokens⟩ :=
      readFragment_enclosed hkind henclosed
    have hfilter : s.tokens.filter Token.startsFragment =
        s.current :: s.upcoming.filter Token.startsFragment := by
      simp [Reader.tokens, Token.startsFragment, hkind]
    have hnext : (readFragment s).2.tokens.filter Token.startsFragment =
        rest.filter Token.startsFragment := by
      rw [htokens]
      split
      · rfl
      · exact filter_startsFragment_enclosed (List.forall_mem_nil _) hstop.kind
    rw [hfilter, hupcoming, filter_startsFragment_enclosed hinner hstop.kind, hnext, htokens]
    exact ⟨by simpa [Fragment.StartsAt, hkind] using hexpr, hstop.sectioned, rfl⟩

/-- Between any two fragments, the tokens that are left fall into fragments. -/
theorem sectioned_readFragments (bound : Nat) {s : Reader} (hs : Token.Sectioned s.tokens) :
    Token.Sectioned (readFragments bound s).2.tokens := by
  induction bound generalizing s with
  | zero => exact hs
  | succ bound ih =>
      unfold readFragments
      split
      · exact hs
      · next hat =>
          rw [at?_iff] at hat
          exact ih (readFragment_sectioned hs hat).2.1

/-- With room for every token, there is one fragment for each token that starts one. -/
theorem readFragments_startsAt {bound : Nat} {s : Reader} (hs : Token.Sectioned s.tokens)
    (hbound : (s.tokens.filter Token.startsFragment).length ≤ bound) :
    List.Forall₂ Fragment.StartsAt (readFragments bound s).1
      (s.tokens.filter Token.startsFragment) := by
  induction bound generalizing s with
  | zero =>
      rw [List.length_eq_zero_iff.mp (Nat.le_zero.mp hbound)]
      exact .nil
  | succ bound ih =>
      unfold readFragments
      split
      · next hat =>
          rw [at?_iff] at hat
          rcases hs.of_cons with ⟨-, hnil⟩ | ⟨hkind, -⟩ | ⟨hkind, -⟩
          · simp [Reader.tokens, hnil, Token.startsFragment, hat]
          · simp [hat] at hkind
          · simp [hat] at hkind
      · next hat =>
          rw [at?_iff] at hat
          obtain ⟨hstart, hrest, hfilter⟩ := readFragment_sectioned hs hat
          rw [hfilter] at hbound ⊢
          exact .cons hstart (ih hrest (Nat.le_of_succ_le_succ hbound))

/-- Recovery stays inside of the braces, in every source. There is one fragment for each text and
each open brace among the tokens, in their order, and a text has the content of its token. Whatever
the number of fragments already read, the next token starts a fragment or is the end of the input;
and reading an expression stops in front of the brace that closes it, or of the end of the input,
and what follows that brace is what the next fragment is read from. -/
theorem read_fragments (source : String) :
    List.Forall₂ Fragment.StartsAt (read source).1
        ((Token.scan source).filter Token.startsFragment) ∧
      ∀ (bound : Nat) (s : Reader), s = (readFragments bound (.start (Token.scan source))).2 →
        (s.current.kind = .text ∨ s.current.kind = .enterExpr ∨ s.current.kind = .eof) ∧
        (s.current.kind = .enterExpr → ∃ inner stop rest left,
          s.tokens = s.current :: inner ++ stop :: rest ∧ (∀ t ∈ inner, t.Inner) ∧
          (stop.kind = .leaveExpr ∨ stop.kind = .eof ∧ rest = []) ∧
          left <:+ inner ∧ (readExpr s.advance).2.tokens = left ++ stop :: rest ∧
          (readFragment s).2.tokens = if stop.kind = .leaveExpr then rest else stop :: rest) := by
  have hsections := Token.sectioned_scan source
  have hstart : Token.Sectioned (Reader.start (Token.scan source)).tokens := by
    rwa [tokens_start hsections.ne_nil]
  constructor
  · have htokens := tokens_start hsections.ne_nil
    have hcount : ((Reader.start (Token.scan source)).tokens.filter Token.startsFragment).length ≤
        (Token.scan source).length := by
      rw [htokens]
      exact List.length_filter_le _ _
    have hfragments := readFragments_startsAt hstart hcount
    rwa [htokens] at hfragments
  · rintro bound s rfl
    rcases (sectioned_readFragments bound hstart).of_cons with
      ⟨heof, -⟩ | ⟨hkind, -⟩ | ⟨hkind, henclosed⟩
    · exact ⟨.inr (.inr heof), fun h => by simp [heof] at h⟩
    · exact ⟨.inl hkind, fun h => by simp [hkind] at h⟩
    · refine ⟨.inr (.inl hkind), fun _ => ?_⟩
      obtain ⟨inner, stop, rest, left, hupcoming, hinner, hstop, hleft, hread, hnext⟩ :=
        readFragment_enclosed hkind henclosed
      refine ⟨inner, stop, rest, left, ?_, hinner, ?_, hleft, hread, hnext⟩
      · rw [Reader.tokens, hupcoming]
        rfl
      · cases hstop with
        | brace hleave => exact .inl hleave
        | eof offset => exact .inr ⟨rfl, rfl⟩

end Template

end Phrasebook
