import Mathlib
import Phrasebook.Proofs.Template.Recovery

/-!
# Expressions do not depend on their place

What is read for an expression depends on the tokens up to its end only, and not on where in a
template it stands: not on what follows it, not on the errors in front of it, and on the offsets of
its tokens only in that they are the offsets in the result. Two readings of the same expression at
two places are related by `Relocation.Relates`, and the lemmas below say for one function after the
other that it takes related states to related states with corresponding results.

The lengths of lists are bounded by the number of all tokens that are left, which is not the same
at the two places. So the relation keeps a number of tokens in front of the end of the expression as
well; every expression takes one of them, and that many items are enough for each list.
-/

namespace Phrasebook

namespace Token

/-- A token of a source that is moved by a number of bytes. -/
def shift (bytes : Nat) (t : Token) : Token := { t with offset := t.offset + bytes }

@[simp] theorem shift_kind (bytes : Nat) (t : Token) : (t.shift bytes).kind = t.kind := rfl

@[simp] theorem shift_lexeme (bytes : Nat) (t : Token) : (t.shift bytes).lexeme = t.lexeme := rfl

@[simp] theorem shift_offset (bytes : Nat) (t : Token) :
    (t.shift bytes).offset = t.offset + bytes := rfl

theorem map_shift_zero (ts : List Token) : ts.map (shift 0) = ts := List.map_id ts

end Token

namespace SyntaxError

/-- An error of a source that is moved by a number of bytes. -/
def shift (bytes : Nat) (e : SyntaxError) : SyntaxError := { e with token := e.token.shift bytes }

@[simp] theorem shift_token (bytes : Nat) (e : SyntaxError) :
    (e.shift bytes).token = e.token.shift bytes := rfl

theorem map_shift_zero (es : List SyntaxError) : es.map (shift 0) = es := List.map_id es

end SyntaxError

namespace Expr

/-- An expression of a source that is moved by a number of bytes. Only invalid expressions know
their place. -/
def shift (bytes : Nat) : Expr → Expr
  | .ident name => .ident name
  | .func function => .func function
  | .literal kind lexeme => .literal kind lexeme
  | .unary op operand => .unary op (operand.shift bytes)
  | .binary op lhs rhs => .binary op (lhs.shift bytes) (rhs.shift bytes)
  | .range start stop => .range (start.shift bytes) (shiftStop bytes stop)
  | .index base position => .index (base.shift bytes) (position.shift bytes)
  | .slice base start stop => .slice (base.shift bytes) (start.shift bytes) (shiftStop bytes stop)
  | .select value options => .select (value.shift bytes) (shiftOptions bytes options)
  | .call callee args => .call (callee.shift bytes) (shiftArgs bytes args)
  | .invalid start stop => .invalid (start.shift bytes) (stop.shift bytes)
where
  /-- The end of a range or slice of a source that is moved. -/
  shiftStop (bytes : Nat) : Option Expr → Option Expr
    | none => none
    | some stop => some (stop.shift bytes)
  /-- The arguments of a call of a source that is moved. -/
  shiftArgs (bytes : Nat) : List Expr → List Expr
    | [] => []
    | arg :: args => arg.shift bytes :: shiftArgs bytes args
  /-- The options of a selection of a source that is moved. -/
  shiftOptions (bytes : Nat) : List (Expr × Expr) → List (Expr × Expr)
    | [] => []
    | (pattern, result) :: options =>
      (pattern.shift bytes, result.shift bytes) :: shiftOptions bytes options

theorem shift.shiftArgs_eq_map (bytes : Nat) (args : List Expr) :
    shiftArgs bytes args = args.map (shift bytes) := by
  induction args with
  | nil => rfl
  | cons arg args ih => rw [shiftArgs, ih, List.map_cons]

theorem shift.shiftOptions_eq_map (bytes : Nat) (options : List (Expr × Expr)) :
    shiftOptions bytes options = options.map (Prod.map (shift bytes) (shift bytes)) := by
  induction options with
  | nil => rfl
  | cons option options ih => rw [shiftOptions, ih, List.map_cons]; rfl

theorem shift_zero (e : Expr) : e.shift 0 = e := by
  have stops : ∀ {stop : Option Expr}, (∀ e ∈ stop, e.shift 0 = e) →
      shift.shiftStop 0 stop = stop := by
    intro stop h
    cases stop with
    | none => rfl
    | some stop => exact congrArg some (h stop rfl)
  induction e with
  | ident | func | literal | invalid => rfl
  | unary op operand ih => rw [shift, ih]
  | binary op lhs rhs ihl ihr => rw [shift, ihl, ihr]
  | range start stop ihs ihe => rw [shift, ihs, stops ihe]
  | index base position ihb ihp => rw [shift, ihb, ihp]
  | slice base start stop ihb ihs ihe => rw [shift, ihb, ihs, stops ihe]
  | select value options ihv iho =>
      have hoptions : options.map (Prod.map (shift 0) (shift 0)) = options.map id :=
        List.map_congr_left fun o ho => Prod.ext (iho o ho).1 (iho o ho).2
      rw [shift, ihv, shift.shiftOptions_eq_map, hoptions, List.map_id]
  | call callee args ihc iha =>
      rw [shift, ihc, shift.shiftArgs_eq_map, List.map_congr_left iha, List.map_id']

theorem shift_ofName (bytes : Nat) (name : String) : (ofName name).shift bytes = ofName name := by
  unfold ofName
  split <;> rfl

theorem shift_indexed (bytes : Nat) (base position : Expr) :
    (Template.indexed base position).shift bytes =
      Template.indexed (base.shift bytes) (position.shift bytes) := by
  cases position <;> rfl

end Expr

/-- A fragment of a source that is moved by a number of bytes. -/
def Fragment.shift (bytes : Nat) : Fragment → Fragment
  | .text content => .text content
  | .expr content => .expr (content.shift bytes)

theorem Fragment.shift_zero (f : Fragment) : f.shift 0 = f := by
  cases f with
  | text => rfl
  | expr content => rw [shift, content.shift_zero]

namespace Template

open Reader

/-- An expression at two places: by how many bytes they differ, the token that ends it, what is
behind it at either place, and the errors that are reported at the second place only, all of them
in front of what is moved there. -/
structure Relocation where
  bytes : Nat
  stop : Token
  rest : List Token
  rest' : List Token
  older : List SyntaxError
  stop_kind : stop.kind = .leaveExpr ∨ stop.kind = .eof
  older_lt : ∀ e ∈ older, e.token.offset < bytes

namespace Relocation

/-- Two states between the same tokens of an expression at its two places. -/
structure Matches (r : Relocation) (inner : List Token) (s s' : Reader) : Prop where
  faces : s.Faces inner r.stop r.rest
  tokens : s'.tokens = inner.map (Token.shift r.bytes) ++ r.stop.shift r.bytes :: r.rest'
  errors : s'.errors = s.errors.map (SyntaxError.shift r.bytes) ++ r.older

/-- Two states between the same tokens of an expression, with no more than a number of tokens in
front of its end. -/
def Relates (r : Relocation) (count : Nat) (s s' : Reader) : Prop :=
  ∃ inner, inner.length ≤ count ∧ r.Matches inner s s'

variable {r : Relocation} {inner : List Token} {s s' : Reader} {count : Nat}

theorem inner_shift {bytes : Nat} {inner : List Token} (h : ∀ t ∈ inner, t.Inner) :
    ∀ t ∈ inner.map (Token.shift bytes), t.Inner := by
  rw [List.forall_mem_map]
  exact h

namespace Matches

theorem faces' (h : r.Matches inner s s') :
    s'.Faces (inner.map (Token.shift r.bytes)) (r.stop.shift r.bytes) r.rest' :=
  ⟨h.tokens, inner_shift h.faces.inner, r.stop_kind⟩

theorem current (h : r.Matches inner s s') : s'.current = s.current.shift r.bytes := by
  have hs := h.faces.tokens
  have hs' := h.tokens
  cases inner with
  | nil => rw [(List.cons.inj hs).1, (List.cons.inj hs').1]
  | cons t inner => rw [(List.cons.inj hs).1, (List.cons.inj hs').1]

theorem kind (h : r.Matches inner s s') : s'.current.kind = s.current.kind := by
  rw [h.current, Token.shift_kind]

theorem at? (h : r.Matches inner s s') (kind : Token.Kind) : s'.at? kind = s.at? kind := by
  rw [Reader.at?, Reader.at?, h.kind]

theorem atBoundary (h : r.Matches inner s s') : s'.atBoundary = s.atBoundary := by
  rw [Reader.atBoundary, Reader.atBoundary, h.at?, h.at?]

theorem advance {t : Token} (h : r.Matches (t :: inner) s s') :
    r.Matches inner s.advance s'.advance := by
  refine ⟨h.faces.advance, ?_, ?_⟩
  · exact tokens_advance_of_cons (by simpa using h.tokens) (by simp)
  · rw [advance_errors, advance_errors, h.errors]

/-- An error follows from the latest one at both places or at neither: an error in front of what is
moved is not at the same place. -/
theorem report (h : r.Matches inner s s') (cause : SyntaxError.Cause) :
    r.Matches inner (s.report cause) (s'.report cause) := by
  refine ⟨h.faces.report cause, (report_tokens s' cause).trans h.tokens, ?_⟩
  have hsame : s'.errors.head?.map (·.token.offset) = some s'.current.offset ↔
      s.errors.head?.map (·.token.offset) = some s.current.offset := by
    rw [h.errors, h.current]
    cases herrors : s.errors with
    | cons e es => simp
    | nil =>
        cases holder : r.older with
        | nil => simp
        | cons e es =>
            have hlt := r.older_lt e (by simp [holder])
            simp
            omega
  unfold Reader.report
  by_cases hlatest : s.errors.head?.map (·.token.offset) = some s.current.offset
  · rw [if_pos hlatest, if_pos (hsame.mpr hlatest)]
    exact h.errors
  · rw [if_neg hlatest, if_neg (mt hsame.mp hlatest)]
    simp [h.errors, h.current, SyntaxError.shift]

theorem skipToBoundary (h : r.Matches inner s s') :
    r.Matches [] s.skipToBoundary s'.skipToBoundary := by
  induction inner generalizing s s' with
  | nil =>
      have hend := h.faces.atBoundary_iff.mpr rfl
      rw [skipToBoundary_eq s, skipToBoundary_eq s', if_pos hend, if_pos (h.atBoundary ▸ hend)]
      exact h
  | cons t inner ih =>
      have hinside : ¬ s.atBoundary := by simp [h.faces.atBoundary_iff]
      rw [skipToBoundary_eq s, skipToBoundary_eq s', if_neg hinside,
        if_neg (h.atBoundary ▸ hinside)]
      exact ih h.advance

theorem length_le (h : r.Matches inner s s') : inner.length ≤ s.upcoming.length := by
  have hlength := congrArg List.length h.faces.tokens
  simp [Reader.tokens] at hlength
  omega

theorem length_le' (h : r.Matches inner s s') : inner.length ≤ s'.upcoming.length := by
  have hlength := congrArg List.length h.tokens
  simp [Reader.tokens] at hlength
  omega

theorem relates (h : r.Matches inner s s') : r.Relates inner.length s s' :=
  ⟨inner, Nat.le_refl _, h⟩

end Matches

namespace Relates

theorem mono {count' : Nat} (h : r.Relates count s s') (hle : count ≤ count') :
    r.Relates count' s s' := by
  obtain ⟨inner, hinner, h⟩ := h
  exact ⟨inner, Nat.le_trans hinner hle, h⟩

theorem kind (h : r.Relates count s s') : s'.current.kind = s.current.kind := by
  obtain ⟨inner, -, h⟩ := h
  exact h.kind

theorem current (h : r.Relates count s s') : s'.current = s.current.shift r.bytes := by
  obtain ⟨inner, -, h⟩ := h
  exact h.current

theorem at? (h : r.Relates count s s') (kind : Token.Kind) : s'.at? kind = s.at? kind := by
  obtain ⟨inner, -, h⟩ := h
  exact h.at? kind

theorem atBoundary (h : r.Relates count s s') : s'.atBoundary = s.atBoundary := by
  obtain ⟨inner, -, h⟩ := h
  exact h.atBoundary

theorem report (h : r.Relates count s s') (cause : SyntaxError.Cause) :
    r.Relates count (s.report cause) (s'.report cause) := by
  obtain ⟨inner, hinner, h⟩ := h
  exact ⟨inner, hinner, h.report cause⟩

/-- Without a token in front of the end of the expression, the end is reached. -/
theorem atBoundary_of_zero (h : r.Relates 0 s s') : s.atBoundary := by
  obtain ⟨inner, hinner, h⟩ := h
  exact h.faces.atBoundary_iff.mpr (List.length_eq_zero_iff.mp (Nat.le_zero.mp hinner))

theorem atListEnd (h : r.Relates count s s') : atListEnd s' = atListEnd s := by
  rw [Template.atListEnd, Template.atListEnd, h.at?, h.atBoundary]

/-- Moving on from a token inside of the expression takes one of those in front of its end. -/
theorem advance (h : r.Relates count s s') (hinside : s.atBoundary = false) :
    0 < count ∧ r.Relates (count - 1) s.advance s'.advance := by
  obtain ⟨inner, hinner, h⟩ := h
  cases inner with
  | nil => simp [h.faces.atBoundary_iff.mpr rfl] at hinside
  | cons t inner =>
      rw [List.length_cons] at hinner
      exact ⟨by omega, inner, by omega, h.advance⟩

theorem skipToBoundary (h : r.Relates count s s') :
    r.Relates 0 s.skipToBoundary s'.skipToBoundary := by
  obtain ⟨inner, -, h⟩ := h
  exact ⟨[], Nat.le_refl _, h.skipToBoundary⟩

/-- What is expected inside of an expression does not end it. -/
theorem expect (h : r.Relates count s s') (kind : Token.Kind)
    (hkind : kind ≠ .leaveExpr ∧ kind ≠ .eof) :
    r.Relates count (s.expect kind) (s'.expect kind) := by
  have hreport := h.report (.expected kind)
  rw [expect_eq, expect_eq, h.at?, hreport.atBoundary]
  split
  · next hat =>
      have hinside : s.atBoundary = false := by
        rw [← Bool.not_eq_true, atBoundary_iff, at?_iff.mp hat]
        exact not_or.mpr hkind
      exact (h.advance hinside).2.mono (Nat.sub_le _ _)
  split
  · exact hreport
  · next hinside =>
      exact (hreport.advance (Bool.eq_false_of_not_eq_true hinside)).2.mono (Nat.sub_le _ _)

theorem giveUp (h : r.Relates count s s') (cause : SyntaxError.Cause) :
    (s'.giveUp cause).1 = (s.giveUp cause).1.shift r.bytes ∧
      r.Relates 0 (s.giveUp cause).2 (s'.giveUp cause).2 := by
  have hskip := (h.report cause).skipToBoundary
  refine ⟨?_, hskip⟩
  simp only [Reader.giveUp, Expr.shift, h.current, hskip.current]

end Relates

end Relocation

/-- Two ways to read take related states to related states with corresponding results, and take a
number of tokens in front of the end of the expression. -/
def Carries {α : Type} (r : Relocation) (move : α → α) (cost : Nat)
    (read read' : Reader → α × Reader) : Prop :=
  ∀ {count : Nat} {s s' : Reader}, r.Relates count s s' →
    (read' s').1 = move (read s).1 ∧ r.Relates (count - cost) (read s).2 (read' s').2

/-- A way to read expressions is independent of the place of an expression. -/
def Portable (r : Relocation) (sub : ReadExpr) : Prop :=
  ∀ power, Carries r (Expr.shift r.bytes) 1 (sub power) (sub power)

section Parts

variable {r : Relocation} {sub : ReadExpr} (hsub : Portable r sub)

include hsub

theorem carries_readStop (start : Expr) :
    Carries r (Expr.shift r.bytes) 0 (readStop sub start)
      (readStop sub (start.shift r.bytes)) := by
  intro count s s' h
  unfold readStop
  rw [h.at?]
  split
  · exact ⟨rfl, h⟩
  · obtain ⟨hstop, hrest⟩ := hsub .range h
    refine ⟨?_, hrest.mono (by omega)⟩
    simp only [Expr.shift, Expr.shift.shiftStop, hstop]

theorem carries_readUnary (op : UnaryOp) {count : Nat} {s s' : Reader}
    (h : r.Relates count s.advance s'.advance) :
    (readUnary sub op s').1 = (readUnary sub op s).1.shift r.bytes ∧
      r.Relates count (readUnary sub op s).2 (readUnary sub op s').2 := by
  obtain ⟨hoperand, hrest⟩ := hsub .unary h
  refine ⟨?_, hrest.mono (by omega)⟩
  simp only [readUnary, Expr.shift, hoperand]

theorem carries_readOperand : Carries r (Expr.shift r.bytes) 1 (readOperand sub)
    (readOperand sub) := by
  intro count s s' h
  have advance : ∀ kind, kind ≠ .leaveExpr ∧ kind ≠ .eof → s.current.kind = kind →
      r.Relates (count - 1) s.advance s'.advance := by
    rintro kind hkind rfl
    refine (h.advance ?_).2
    rw [← Bool.not_eq_true, atBoundary_iff]
    exact not_or.mpr hkind
  have literal : ∀ kind, r.Relates (count - 1) s.advance s'.advance →
      (readLiteral kind s').1 = (readLiteral kind s).1.shift r.bytes ∧
        r.Relates (count - 1) (readLiteral kind s).2 (readLiteral kind s').2 := by
    intro kind hadvance
    refine ⟨?_, hadvance⟩
    simp only [readLiteral, Expr.shift, h.current, Token.shift_lexeme]
  unfold readOperand
  rw [h.kind]
  split
  · next hkind => exact literal _ (advance _ (by simp) hkind)
  · next hkind => exact literal _ (advance _ (by simp) hkind)
  · next hkind => exact literal _ (advance _ (by simp) hkind)
  · next hkind =>
      refine ⟨?_, advance _ (by simp) hkind⟩
      rw [Expr.shift_ofName, h.current, Token.shift_lexeme]
  · next hkind => exact carries_readUnary hsub _ (advance _ (by simp) hkind)
  · next hkind => exact carries_readUnary hsub _ (advance _ (by simp) hkind)
  · next hkind => exact carries_readUnary hsub _ (advance _ (by simp) hkind)
  · next hkind => exact carries_readStop hsub (.literal .int "0") (advance _ (by simp) hkind)
  · next hkind =>
      obtain ⟨hinner, hrest⟩ := hsub .none (advance _ (by simp) hkind)
      exact ⟨hinner, (hrest.expect _ (by simp)).mono (Nat.sub_le _ _)⟩
  · obtain ⟨hinvalid, hrest⟩ := h.giveUp .unexpected
    exact ⟨hinvalid, hrest.mono (Nat.zero_le _)⟩

omit hsub in
theorem relates_readComma {count : Nat} {s s' : Reader} (h : r.Relates count s s') :
    r.Relates count (readComma s) (readComma s') := by
  unfold readComma
  rw [h.at?]
  split
  · exact h
  · exact h.expect _ (by simp)

omit hsub in
/-- A list ends at the same token at both places, since each of its items takes a token. -/
theorem carries_readItems {α : Type} {move : α → α} {item : Reader → α × Reader}
    (hitem : Carries r move 1 item item) {count bound bound' : Nat} (hbound : count ≤ bound)
    (hbound' : count ≤ bound') {s s' : Reader} (h : r.Relates count s s') :
    (readItems item bound' s').1 = (readItems item bound s).1.map move ∧
      r.Relates count (readItems item bound s).2 (readItems item bound' s').2 := by
  -- On the tokens in front of the end, since the bounds at the two places differ.
  induction count generalizing bound bound' s s' with
  | zero =>
      have hend : atListEnd s := by simp [atListEnd, h.atBoundary_of_zero]
      rw [readItems_of_atListEnd hend, readItems_of_atListEnd (h.atListEnd ▸ hend)]
      exact ⟨rfl, h⟩
  | succ count ih =>
      by_cases hend : atListEnd s
      · rw [readItems_of_atListEnd hend, readItems_of_atListEnd (h.atListEnd ▸ hend)]
        exact ⟨rfl, h⟩
      · obtain ⟨bound, rfl⟩ := Nat.exists_eq_add_of_le' hbound
        obtain ⟨bound', rfl⟩ := Nat.exists_eq_add_of_le' hbound'
        obtain ⟨hfirst, hrest⟩ := hitem h
        obtain ⟨hothers, hrest⟩ :=
          ih (Nat.le_add_left count bound) (Nat.le_add_left count bound') (relates_readComma hrest)
        rw [← Nat.add_assoc, ← Nat.add_assoc, readItems_succ hend,
          readItems_succ (h.atListEnd ▸ hend)]
        refine ⟨?_, hrest.mono (Nat.le_succ _)⟩
        rw [hfirst, hothers, List.map_cons]

theorem carries_readArgs {count bound bound' : Nat} (hbound : count ≤ bound)
    (hbound' : count ≤ bound') {s s' : Reader} (h : r.Relates count s s') :
    (readArgs sub bound' s').1 = (readArgs sub bound s).1.map (Expr.shift r.bytes) ∧
      r.Relates count (readArgs sub bound s).2 (readArgs sub bound' s').2 := by
  rw [readArgs_eq]
  exact carries_readItems (hsub .none) hbound hbound' h

theorem carries_readOption : Carries r (Prod.map (Expr.shift r.bytes) (Expr.shift r.bytes)) 1
    (readOption sub) (readOption sub) := by
  intro count s s' h
  obtain ⟨hpattern, hbehind⟩ := hsub .none h
  obtain ⟨hresult, hrest⟩ := hsub .none (hbehind.expect .equal (by simp))
  exact ⟨Prod.ext hpattern hresult, hrest.mono (Nat.sub_le _ _)⟩

theorem carries_readOptions {count bound bound' : Nat} (hbound : count ≤ bound)
    (hbound' : count ≤ bound') {s s' : Reader} (h : r.Relates count s s') :
    (readOptions sub bound' s').1 =
        (readOptions sub bound s).1.map (Prod.map (Expr.shift r.bytes) (Expr.shift r.bytes)) ∧
      r.Relates count (readOptions sub bound s).2 (readOptions sub bound' s').2 := by
  rw [readOptions_eq]
  exact carries_readItems (carries_readOption hsub) hbound hbound' h

omit hsub in
theorem extension?_of_relates {count : Nat} {s s' : Reader} (h : r.Relates count s s')
    (power : Power) : extension? power s' = extension? power s := by
  rw [extension?, extension?, h.kind]

/-- An extension takes the token that starts it. -/
theorem carries_readExtension {ext : Extension} {power : Power} {count : Nat} {s s' : Reader}
    (h : r.Relates count s s') (hext : extension? power s = some ext) (lhs : Expr) :
    (readExtension sub ext (lhs.shift r.bytes) s').1 =
        (readExtension sub ext lhs s).1.shift r.bytes ∧
      r.Relates (count - 1) (readExtension sub ext lhs s).2
        (readExtension sub ext (lhs.shift r.bytes) s').2 := by
  obtain ⟨-, hbehind⟩ := h.advance (atBoundary_of_extension? hext)
  cases ext with
  | binary op =>
      obtain ⟨hrhs, hrest⟩ := hsub op.power hbehind
      exact ⟨congrArg (Expr.binary op _) hrhs, hrest.mono (Nat.sub_le _ _)⟩
  | range => exact carries_readStop hsub lhs hbehind
  | select =>
      have hopen := hbehind.expect .lParen (by simp)
      obtain ⟨left, hleft, hopen⟩ := hopen
      obtain ⟨hoptions, hrest⟩ := carries_readOptions hsub
        hopen.length_le hopen.length_le' hopen.relates
      refine ⟨?_, (hrest.expect _ (by simp)).mono hleft⟩
      simp only [readExtension, Expr.shift, Expr.shift.shiftOptions_eq_map, hoptions]
  | index =>
      obtain ⟨hposition, hrest⟩ := hsub .none hbehind
      refine ⟨?_, (hrest.expect _ (by simp)).mono (Nat.sub_le _ _)⟩
      simp only [readExtension, Expr.shift_indexed, hposition]
  | call =>
      obtain ⟨left, hleft, hbehind⟩ := hbehind
      obtain ⟨hargs, hrest⟩ := carries_readArgs hsub
        hbehind.length_le hbehind.length_le' hbehind.relates
      refine ⟨?_, (hrest.expect _ (by simp)).mono hleft⟩
      simp only [readExtension, Expr.shift, Expr.shift.shiftArgs_eq_map, hargs]

end Parts

/-- Reading an expression and extending an operand are independent of the place, whatever the
room. -/
theorem portable_level (r : Relocation) (room : Nat) : Portable r (level room).expr ∧
    ∀ power lhs, Carries r (Expr.shift r.bytes) 0 ((level room).climb power lhs)
      ((level room).climb power (lhs.shift r.bytes)) := by
  induction room with
  | zero =>
      constructor
      · intro power count s s' h
        obtain ⟨hinvalid, hrest⟩ := h.giveUp .nestedTooDeeply
        exact ⟨hinvalid, hrest.mono (Nat.zero_le _)⟩
      · intro power lhs count s s' h
        have hsame := extension?_of_relates h power
        cases hext : extension? power s with
        | none =>
            rw [level_climb_of_none hext, level_climb_of_none (hsame.trans hext)]
            exact ⟨rfl, h⟩
        | some ext =>
            rw [level_climb_zero_of_some hext, level_climb_zero_of_some (hsame.trans hext)]
            obtain ⟨hinvalid, hrest⟩ := h.giveUp .nestedTooDeeply
            exact ⟨hinvalid, hrest.mono (Nat.zero_le _)⟩
  | succ room ih =>
      have expr : Portable r (level (room + 1)).expr := by
        intro power count s s' h
        obtain ⟨hoperand, hbehind⟩ := carries_readOperand ih.1 h
        rw [level_expr_succ, level_expr_succ, hoperand]
        exact ih.2 power _ hbehind
      refine ⟨expr, ?_⟩
      intro power lhs count s s' h
      have hsame := extension?_of_relates h power
      cases hext : extension? power s with
      | none =>
          rw [level_climb_of_none hext, level_climb_of_none (hsame.trans hext)]
          exact ⟨rfl, h⟩
      | some ext =>
          obtain ⟨hlhs, hbehind⟩ := carries_readExtension expr h hext lhs
          rw [level_climb_succ_of_some hext, level_climb_succ_of_some (hsame.trans hext), hlhs]
          obtain ⟨hclimbed, hrest⟩ := ih.2 power _ hbehind
          exact ⟨hclimbed, hrest.mono (by omega)⟩

namespace Relocation

variable {r : Relocation} {inner : List Token} {s s' : Reader}

/-- What is left of an expression is skipped at both places, with the same error. -/
theorem Matches.errors_closeExpr (h : r.Matches inner s s') :
    (closeExpr s').errors = (closeExpr s).errors.map (SyntaxError.shift r.bytes) ++ r.older := by
  unfold closeExpr
  rw [errors_leave, errors_leave, h.at?]
  split
  · exact h.errors
  · exact (h.report (.expected .leaveExpr)).skipToBoundary.errors

/-- An expression in braces is the same fragment at both places, and the next fragment is read from
behind it. -/
theorem readFragment_braces {enter : Token} (henter : enter.kind = .enterExpr)
    (hinner : ∀ t ∈ inner, t.Inner) (hs : s.tokens = enter :: inner ++ r.stop :: r.rest)
    (hs' : s'.tokens =
      (enter :: inner).map (Token.shift r.bytes) ++ r.stop.shift r.bytes :: r.rest')
    (herrors : s'.errors = s.errors.map (SyntaxError.shift r.bytes) ++ r.older)
    (hrest : r.stop.kind = .leaveExpr → r.rest ≠ [] ∧ r.rest' ≠ []) :
    (readFragment s').1 = (readFragment s).1.shift r.bytes ∧
      (readFragment s').2.errors =
        (readFragment s).2.errors.map (SyntaxError.shift r.bytes) ++ r.older ∧
      (readFragment s).2.tokens =
        (if r.stop.kind = .leaveExpr then r.rest else r.stop :: r.rest) ∧
      (readFragment s').2.tokens =
        (if r.stop.kind = .leaveExpr then r.rest' else r.stop.shift r.bytes :: r.rest') := by
  have hmatches : r.Matches inner s.advance s'.advance := by
    refine ⟨⟨tokens_advance_of_cons hs (by simp), hinner, r.stop_kind⟩, ?_, ?_⟩
    · exact tokens_advance_of_cons hs' (by simp)
    · rw [advance_errors, advance_errors, herrors]
  obtain ⟨hexpr, left, -, hleft⟩ := (portable_level r _).1 .none hmatches.relates
  have hkind : s.current.kind = .enterExpr := (List.cons.inj hs).1 ▸ henter
  have hkind' : s'.current.kind = .enterExpr := (List.cons.inj hs').1 ▸ henter
  simp only [readFragment, hkind, hkind']
  exact ⟨congrArg Fragment.expr hexpr, hleft.errors_closeExpr,
    hleft.faces.tokens_closeExpr fun hstop => (hrest hstop).1,
    hleft.faces'.tokens_closeExpr fun hstop => (hrest hstop).2⟩

end Relocation

end Template

end Phrasebook
