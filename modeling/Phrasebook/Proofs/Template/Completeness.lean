import Mathlib
import Phrasebook.Proofs.Template.Reader
import Phrasebook.Proofs.Template.Rendering

/-!
# What is written as source is read back

An expression in its minimal writing is read back as it is, if it has few enough operators for the
bound on nesting. The left operand of an operator is never read on its own: reading it ends in the
state where it is the operand to extend. So the invariant that is carried through the expression
speaks of that state (`Reaches`), and of how much of the room is used up until then.
-/

namespace Phrasebook.Template

open Lexeme (symbol group separated)

namespace Reader

variable {s : Reader} {l : Lexeme} {rest : List Lexeme}

/-- From one state to another, an input is read without a new error. -/
structure Arrives (s : Reader) (rest : List Lexeme) (t : Reader) : Prop where
  lexemes : t.lexemes = rest
  errors : t.errors = s.errors

theorem Arrives.trans {t u : Reader} {rest rest' : List Lexeme} (h : s.Arrives rest t)
    (h' : t.Arrives rest' u) : s.Arrives rest' u :=
  ⟨h'.lexemes, h'.errors.trans h.errors⟩

theorem toLexeme_current (h : s.lexemes = l :: rest) : s.current.toLexeme = l :=
  (List.cons.inj h).1

theorem kind_current (h : s.lexemes = l :: rest) : s.current.kind = l.kind :=
  congrArg Lexeme.kind (toLexeme_current h)

/-- In front of another lexeme, moving on takes one lexeme. -/
theorem arrives_advance (h : s.lexemes = l :: rest) (hne : rest ≠ []) :
    s.Arrives rest s.advance := by
  refine ⟨?_, s.advance_errors⟩
  have htail := (List.cons.inj h).2
  unfold advance
  split
  · next hnil => exact absurd (by rw [← htail, hnil]; rfl) hne
  · next next more hcons => simpa [lexemes, tokens, hcons] using htail

theorem arrives_expect {kind : Token.Kind} (h : s.lexemes = symbol kind :: rest)
    (hne : rest ≠ []) : s.Arrives rest (s.expect kind) := by
  have hat : s.at? kind := at?_iff.mpr (kind_current h)
  rw [expect_eq, if_pos hat]
  exact arrives_advance h hne

theorem extension?_eq (h : s.lexemes = l :: rest) (power : Power) :
    extension? power s = (Extension.ofKind? l.kind).filter (power < ·.power) := by
  rw [extension?, kind_current h]

end Reader

open Reader

/-- If each item is read back in front of a comma or the end of the list, the list is read back. -/
theorem readItems_separated {α : Type} {item : Reader → α × Reader} (write : α → List Lexeme)
    {values : List α}
    (hstart : ∀ v ∈ values, Lexeme.StartsExpr (write v))
    (hitem : ∀ v ∈ values, ∀ (s : Reader) (l : Lexeme) (rest : List Lexeme),
      s.lexemes = write v ++ l :: rest → l.kind = .comma ∨ l.kind = .rParen →
      ∃ t, item s = (v, t) ∧ s.Arrives (l :: rest) t)
    {bound : Nat} (hbound : values.length ≤ bound) {s : Reader} {rest : List Lexeme}
    (hs : s.lexemes = separated false (values.map write) ++ symbol .rParen :: rest) :
    ∃ t, readItems item bound s = (values, t) ∧ s.Arrives (symbol .rParen :: rest) t := by
  induction values generalizing bound s with
  | nil =>
      have hend : atListEnd s := by simp [atListEnd, at?, kind_current hs]
      exact ⟨s, readItems_of_atListEnd hend bound, hs, rfl⟩
  | cons v values ih =>
      obtain ⟨hv, hvalues⟩ := List.forall_mem_cons.mp hitem
      obtain ⟨⟨l, ls, hl, hkind⟩, hstarts⟩ := List.forall_mem_cons.mp hstart
      obtain _ | bound := bound
      · simp at hbound
      have hend : ¬ atListEnd s := by
        have hcurrent : s.current.kind = l.kind := by
          cases values <;> exact kind_current (by simpa [separated, hl] using hs)
        have hne : l.kind ≠ .rParen ∧ l.kind ≠ .leaveExpr ∧ l.kind ≠ .eof := by
          refine ⟨?_, ?_, ?_⟩ <;> intro h <;> simp [h, Token.Kind.startsExpr] at hkind
        simp [atListEnd, atBoundary, at?, hcurrent, hne]
      rw [readItems_succ hend]
      cases values with
      | nil =>
          obtain ⟨t, hread, hrest⟩ := hv s _ rest hs (.inr rfl)
          have hparen := kind_current hrest.lexemes
          have hcomma : readComma t = t := by simp [readComma, at?, hparen]
          have hend : atListEnd t := by simp [atListEnd, at?, hparen]
          rw [hread, hcomma, readItems_of_atListEnd hend]
          exact ⟨t, rfl, hrest⟩
      | cons w values =>
          obtain ⟨t, hread, hrest⟩ := hv s (symbol .comma)
            (separated false ((w :: values).map write) ++ symbol .rParen :: rest)
            (by simpa [separated] using hs) (.inl rfl)
          have hcomma : readComma t = t.expect .comma := by
            simp [readComma, at?, kind_current hrest.lexemes]
          have hnext := arrives_expect hrest.lexemes (by simp)
          obtain ⟨u, hothers, hend⟩ :=
            ih hstarts hvalues (Nat.le_of_succ_le_succ hbound) hnext.lexemes
          rw [hread, hcomma, hothers]
          exact ⟨u, rfl, (hrest.trans hnext).trans hend⟩

theorem length_le_separated {items : List (List Lexeme)} (h : ∀ item ∈ items, item ≠ []) :
    items.length ≤ (separated false items).length := by
  induction items with
  | nil => simp
  | cons item items ih =>
      obtain ⟨hitem, hitems⟩ := List.forall_mem_cons.mp h
      have hpos := List.length_pos_iff.mpr hitem
      have hrest := ih hitems
      cases items with
      | nil => exact hpos
      | cons next items =>
          simp only [separated, List.length_append, List.length_cons] at hrest ⊢
          omega

/-- The tokens that are left are enough for all items. -/
theorem readItems_upcoming {α : Type} {item : Reader → α × Reader} (write : α → List Lexeme)
    {values : List α}
    (hstart : ∀ v ∈ values, Lexeme.StartsExpr (write v))
    (hitem : ∀ v ∈ values, ∀ (s : Reader) (l : Lexeme) (rest : List Lexeme),
      s.lexemes = write v ++ l :: rest → l.kind = .comma ∨ l.kind = .rParen →
      ∃ t, item s = (v, t) ∧ s.Arrives (l :: rest) t)
    {s : Reader} {rest : List Lexeme}
    (hs : s.lexemes = separated false (values.map write) ++ symbol .rParen :: rest) :
    ∃ t, readItems item s.upcoming.length s = (values, t) ∧
      s.Arrives (symbol .rParen :: rest) t := by
  have hbound : values.length ≤ s.upcoming.length := by
    have hne : ∀ ls ∈ values.map write, ls ≠ [] := by
      refine List.forall_mem_map.mpr fun v hv => ?_
      obtain ⟨l, ls, hl, -⟩ := hstart v hv
      simp [hl]
    have hle := length_le_separated hne
    have hlength := congrArg List.length hs
    simp only [Reader.lexemes, Reader.tokens, List.length_map, List.length_append,
      List.length_cons] at hle hlength
    omega
  exact readItems_separated write hstart hitem hbound hs

/-- Whether a lexeme does not extend an operand with more than a rank. -/
def Stops (rank : Nat) (l : Lexeme) : Prop :=
  ∀ ext ∈ Extension.ofKind? l.kind, ext.power.rank ≤ rank

theorem Stops.mono {rank rank' : Nat} {l : Lexeme} (h : Stops rank l) (hle : rank ≤ rank') :
    Stops rank' l := fun ext hext => Nat.le_trans (h ext hext) hle

theorem stops_of_ofKind?_eq_none {l : Lexeme} (h : Extension.ofKind? l.kind = none) (rank : Nat) :
    Stops rank l := by simp [Stops, h]

/-- What the symbol of an extension extends binds as tight as the extension. -/
theorem stops_of_ofKind? {l : Lexeme} {ext : Extension} (h : Extension.ofKind? l.kind = some ext) :
    Stops ext.power.rank l := by
  intro ext' h'
  obtain rfl := Option.some.inj (h.symm.trans h')
  exact Nat.le_refl _

/-- Reading from a state comes to where an expression is the operand to extend and the rest of the
input is not read yet. No more than a given part of the room is used up until then. -/
def Reaches (power : Power) (room : Nat) (s : Reader) (cost : Nat) (e : Expr)
    (rest : List Lexeme) : Prop :=
  ∃ room' t, room ≤ room' + cost ∧ (level room).expr power s = (level room').climb power e t ∧
    s.Arrives rest t

section Reaches

variable {power : Power} {room cost : Nat} {s : Reader} {e lhs : Expr} {l : Lexeme}
variable {rest rest' : List Lexeme}

theorem readOperand_of_lParen {sub : ReadExpr} (h : s.current.kind = .lParen) :
    readOperand sub s =
      ((sub .none s.advance).1, (sub .none s.advance).2.expect .rParen) := by
  unfold readOperand
  rw [h]

theorem readOperand_of_ident {sub : ReadExpr} {name : String}
    (h : s.current.toLexeme = ⟨.ident, name⟩) :
    readOperand sub s = (Expr.ofName name, s.advance) := by
  obtain ⟨hkind, hname⟩ := Lexeme.mk.inj h
  simp only [readOperand, hkind, hname]

theorem readOperand_of_literal {sub : ReadExpr} {kind : LiteralKind} {lexeme : String}
    (h : s.current.toLexeme = ⟨kind.token, lexeme⟩) :
    readOperand sub s = (.literal kind lexeme, s.advance) := by
  obtain ⟨hkind, hlexeme⟩ := Lexeme.mk.inj h
  cases kind <;> simp only [readOperand, hkind, LiteralKind.token, readLiteral, hlexeme]

theorem reaches_of_readOperand {t : Reader}
    (h : readOperand (level room).expr s = (e, t)) (ht : s.Arrives rest t) :
    Reaches power (room + 1) s 1 e rest :=
  ⟨room, t, Nat.le_refl _, by rw [level_expr_succ, h], ht⟩

theorem Reaches.mono {cost' : Nat} (h : Reaches power room s cost e rest) (hle : cost ≤ cost') :
    Reaches power room s cost' e rest := by
  obtain ⟨room', t, hroom, hread, ht⟩ := h
  exact ⟨room', t, by omega, hread, ht⟩

/-- In front of what does not extend it, the operand is the expression that is read. -/
theorem Reaches.done (h : Reaches power room s cost e (l :: rest)) (hstops : Stops power.rank l) :
    ∃ t, (level room).expr power s = (e, t) ∧ s.Arrives (l :: rest) t := by
  obtain ⟨room', t, -, hread, ht⟩ := h
  have hnone : extension? power t = none := by
    rw [extension?_eq ht.lexemes, Option.filter_eq_none_iff]
    intro ext hext
    exact fun h => Nat.not_lt.mpr (hstops ext hext) (of_decide_eq_true h)
  rw [hread, level_climb_of_none hnone]
  exact ⟨t, rfl, ht⟩

/-- An extension of the operand is read with the room that is left, and takes one level more. -/
theorem Reaches.extend {ext : Extension} (h : Reaches power room s cost lhs (l :: rest))
    (hext : Extension.ofKind? l.kind = some ext) (hpower : power < ext.power) (hcost : cost < room)
    (hread : ∀ (room' : Nat) (t : Reader), room ≤ room' + cost → t.lexemes = l :: rest →
      ∃ u, readExtension (level room').expr ext lhs t = (e, u) ∧ t.Arrives rest' u) :
    Reaches power room s (cost + 1) e rest' := by
  obtain ⟨room', t, hroom, heq, ht⟩ := h
  obtain ⟨u, hu, hrest⟩ := hread room' t hroom ht.lexemes
  obtain _ | room' := room'
  · omega
  have hsome : extension? power t = some ext := by
    rw [extension?_eq ht.lexemes, hext, Option.filter_some, if_pos (by simpa using hpower)]
  refine ⟨room', u, by omega, ?_, ht.trans hrest⟩
  rw [heq, level_climb_succ_of_some hsome, hu]

end Reaches

/-- Whether an expression that is not grouped can be the operand at a place where operators of a
power are left to what is in front of it. An operator in front of its operand is always read. -/
def Fits (power : Power) : Expr → Prop
  | .unary _ _ => True
  | e => power.rank < e.power.rank

/-- An expression is read back in its minimal writing, in front of everything that does not bind
tighter than its outermost operator. Three levels of room for each operation are enough: one for its
operand, one for the parentheses around that, and one for the operation as an extension. -/
def ReadBack (e : Expr) : Prop :=
  ∀ (power room) (s : Reader) (l rest), s.lexemes = e.written ++ l :: rest →
    3 * e.operations + 1 ≤ room → Fits power e → Stops e.power.rank l →
    Reaches power room s (e.operations + 1) e (l :: rest)

namespace ReadBack

variable {s : Reader} {e : Expr} {l : Lexeme} {rest : List Lexeme}

theorem fits_none (e : Expr) : Fits .none e := by
  cases e with
  | binary op =>
      change 0 < op.power.rank
      cases op <;> simp [BinaryOp.power, Power.rank]
  | _ => first | trivial | simp [Fits, Expr.power, Power.rank]

/-- In front of what extends nothing, an expression that stands on its own is read. -/
theorem all (h : ReadBack e) (room : Nat) (hs : s.lexemes = e.written ++ l :: rest)
    (hroom : 3 * e.operations + 1 ≤ room) (hl : Extension.ofKind? l.kind = none) :
    ∃ t, (level room).expr .none s = (e, t) ∧ s.Arrives (l :: rest) t := by
  have hstops := stops_of_ofKind?_eq_none hl
  exact (h .none room s l rest hs hroom (fits_none e) (hstops _)).done (hstops _)

/-- An operand is read with or without the parentheses that its place asks for. -/
theorem operand (h : ReadBack e) (power : Power) (room place : Nat)
    (hs : s.lexemes = group (e.weaker place) e.written ++ l :: rest)
    (hroom : 3 * e.operations + 2 ≤ room) (hfits : ¬ e.weaker place → Fits power e)
    (hstops : Stops place l) : Reaches power room s (e.operations + 1) e (l :: rest) := by
  cases hgroup : e.weaker place with
  | false =>
      rw [hgroup, Lexeme.group_false] at hs
      have hplace : place ≤ e.power.rank := by simpa [Expr.weaker] using hgroup
      exact h _ _ _ _ _ hs (by omega) (hfits (by simp [hgroup])) (hstops.mono hplace)
  | true =>
      rw [hgroup, Lexeme.group_true] at hs
      obtain _ | room := room
      · omega
      have hopen := arrives_advance hs (by simp)
      have hinner : s.advance.lexemes = e.written ++ symbol .rParen :: l :: rest := by
        simpa using hopen.lexemes
      obtain ⟨t, hread, ht⟩ := h.all room hinner (by omega) rfl
      have hclose := arrives_expect ht.lexemes (by simp)
      have hparen : readOperand (level room).expr s = (e, t.expect .rParen) := by
        rw [readOperand_of_lParen (kind_current hs), hread]
      exact (reaches_of_readOperand hparen ((hopen.trans ht).trans hclose)).mono (by omega)

end ReadBack

theorem fits_of_lt {power : Power} {place : Nat} {e : Expr} (h : power.rank < place)
    (hplace : ¬ e.weaker place) : Fits power e := by
  have hle : place ≤ e.power.rank := by simpa [Expr.weaker] using hplace
  have hlt := Nat.lt_of_lt_of_le h hle
  cases e with
  | unary => trivial
  | _ => exact hlt

/-- Only what binds as tight as an operator in front of its operand can be the operand. -/
theorem fits_unary {e : Expr} (h : ¬ e.weaker Power.unary.rank) : Fits .unary e := by
  have hle : Power.unary.rank ≤ e.power.rank := by simpa [Expr.weaker] using h
  cases e with
  | unary => trivial
  | binary op => cases op <;> simp [Expr.power, BinaryOp.power, Power.rank] at hle
  | range | select => simp [Expr.power, Power.rank] at hle
  | _ => simp [Fits, Expr.power, Power.rank]

theorem readBack_of_token {e : Expr} (token : Lexeme) (hlex : e.written = [token])
    (hread : ∀ (sub : ReadExpr) (s : Reader), s.current.toLexeme = token →
      readOperand sub s = (e, s.advance)) : ReadBack e := by
  intro power room s l rest hs hroom _ _
  obtain _ | room := room
  · omega
  rw [hlex] at hs
  exact (reaches_of_readOperand (hread _ s (toLexeme_current hs))
    (arrives_advance hs (by simp))).mono (by omega)

theorem readOperand_unary (op : UnaryOp) {operand : Expr} (h : ReadBack operand) (room : Nat)
    (hroom : 3 * operand.operations + 2 ≤ room) {s : Reader} {l : Lexeme} {rest : List Lexeme}
    (hs : s.lexemes = (Expr.unary op operand).written ++ l :: rest)
    (hstops : Stops Power.unary.rank l) :
    ∃ t, readOperand (level room).expr s = (.unary op operand, t) ∧ s.Arrives (l :: rest) t := by
  have hop := arrives_advance hs (by simp)
  obtain ⟨t, hread, ht⟩ := (h.operand .unary room Power.unary.rank hop.lexemes hroom fits_unary
    hstops).done hstops
  refine ⟨t, ?_, hop.trans ht⟩
  have hkind := kind_current hs
  unfold readOperand
  cases op <;> simp only [hkind, Lexeme.symbol_kind, UnaryOp.token, readUnary, hread]

theorem ReadBack.unary (op : UnaryOp) {operand : Expr} (h : ReadBack operand) :
    ReadBack (.unary op operand) := by
  intro power room s l rest hs hroom _ hstops
  obtain _ | room := room
  · omega
  simp only [Expr.operations] at hroom ⊢
  obtain ⟨t, hread, ht⟩ := readOperand_unary op h room (by omega) hs hstops
  exact (reaches_of_readOperand hread ht).mono (by omega)

theorem ReadBack.binary (op : BinaryOp) {lhs rhs : Expr} (hl : ReadBack lhs) (hr : ReadBack rhs) :
    ReadBack (.binary op lhs rhs) := by
  intro power room s l rest hs hroom hfits hstops
  simp only [Expr.operations] at hroom ⊢
  have hext : Extension.ofKind? (symbol op.token).kind = some (.binary op) := by
    cases op <;> rfl
  have left := hl.operand power room op.power.rank (by simpa [Expr.lexemesWith] using hs)
    (by omega) (fits_of_lt hfits) (stops_of_ofKind? hext)
  refine (left.extend hext hfits (by omega) ?_).mono (by omega)
  -- The right operand is read with the room that the left one has not used up.
  intro room' t hroom' ht
  have hop := arrives_advance ht (by simp)
  obtain ⟨u, hread, hu⟩ := (hr.operand op.power room' (op.power.rank + 1) hop.lexemes (by omega)
    (fits_of_lt (Nat.lt_succ_self _)) (hstops.mono (Nat.le_succ _))).done hstops
  exact ⟨u, by simp only [readExtension, hread], hop.trans hu⟩

theorem ReadBack.index {base position : Expr} (hb : ReadBack base) (hp : ReadBack position)
    (hindex : indexed base position = .index base position) :
    ReadBack (.index base position) := by
  intro power room s l rest hs hroom hfits _
  simp only [Expr.operations] at hroom ⊢
  have hown : Extension.ofKind? (symbol .lBrack).kind = some .index := rfl
  have left := hb.operand power room Power.call.rank (by simpa [Expr.lexemesWith] using hs)
    (by omega) (fits_of_lt hfits) (stops_of_ofKind? hown)
  refine (left.extend hown hfits (by omega) ?_).mono (by omega)
  intro room' t hroom' ht
  have hopen := arrives_advance ht (by simp)
  obtain ⟨u, hread, hu⟩ := hp.all room' hopen.lexemes (by omega) rfl
  have hclose := arrives_expect hu.lexemes (by simp)
  exact ⟨_, by simp only [readExtension, hread, hindex], (hopen.trans hu).trans hclose⟩

/-- A range in brackets is read back with more room than its parts need. -/
theorem range_all {start : Expr} {stop : Option Expr} (hs : ReadBack start)
    (he : ∀ e ∈ stop, ReadBack e) (hstart : ∀ e ∈ stop, Lexeme.StartsExpr e.written)
    (room : Nat) {s : Reader} {rest : List Lexeme}
    (hlex : s.lexemes =
      group (start.weaker Power.range.rank) start.written ++ symbol .colon ::
        (Expr.lexemesWith.ofStop Expr.weaker stop ++ symbol .rBrack :: rest))
    (hroom : 3 * (start.operations + Expr.operations.ofStop stop) + 3 ≤ room) :
    ∃ t, (level room).expr .none s = (.range start stop, t) ∧
      s.Arrives (symbol .rBrack :: rest) t := by
  have hown : Extension.ofKind? (symbol .colon).kind = some .range := rfl
  have left := hs.operand .none room Power.range.rank hlex (by omega)
    (fits_of_lt (by decide)) (stops_of_ofKind? hown)
  refine (left.extend hown (by decide) (by omega) ?_).done (stops_of_ofKind?_eq_none rfl _)
  intro room' t hroom' ht
  have hcolon := arrives_advance ht (by simp)
  cases stop with
  | none =>
      have hbrack : t.advance.at? .rBrack := at?_iff.mpr (kind_current hcolon.lexemes)
      exact ⟨t.advance, by simp only [readExtension, readStop, if_pos hbrack], hcolon⟩
  | some stop =>
      simp only [Expr.operations.ofStop] at hroom
      have hstops : Stops Power.range.rank (symbol .rBrack) := stops_of_ofKind?_eq_none rfl _
      obtain ⟨u, hread, hu⟩ := ((he stop rfl).operand .range room' (Power.range.rank + 1)
        hcolon.lexemes (by omega) (fits_of_lt (Nat.lt_succ_self _))
        (hstops.mono (Nat.le_succ _))).done hstops
      have hbrack : ¬ t.advance.at? .rBrack := by
        obtain ⟨first, more, hfirst, hkind⟩ :=
          (hstart stop rfl).group_append (stop.weaker (Power.range.rank + 1))
            (symbol .rBrack :: rest)
        rw [at?_iff, kind_current (hcolon.lexemes.trans hfirst)]
        intro h
        simp [h, Token.Kind.startsExpr] at hkind
      exact ⟨u, by simp only [readExtension, readStop, if_neg hbrack, hread], hcolon.trans hu⟩

theorem ReadBack.slice {base start : Expr} {stop : Option Expr} (hb : ReadBack base)
    (hs : ReadBack start) (he : ∀ e ∈ stop, ReadBack e)
    (hstart : ∀ e ∈ stop, Lexeme.StartsExpr e.written) :
    ReadBack (.slice base start stop) := by
  intro power room s l rest hlex hroom hfits _
  simp only [Expr.operations] at hroom ⊢
  have hown : Extension.ofKind? (symbol .lBrack).kind = some .index := rfl
  have left := hb.operand power room Power.call.rank (by simpa [Expr.lexemesWith] using hlex)
    (by omega) (fits_of_lt hfits) (stops_of_ofKind? hown)
  refine (left.extend hown hfits (by omega) ?_).mono (by omega)
  intro room' t hroom' ht
  have hopen := arrives_advance ht (by simp)
  obtain ⟨u, hread, hu⟩ := range_all hs he hstart room' hopen.lexemes (by omega)
  have hclose := arrives_expect hu.lexemes (by simp)
  exact ⟨_, by simp only [readExtension, hread, indexed], (hopen.trans hu).trans hclose⟩

theorem ReadBack.call {callee : Expr} {args : List Expr} (hc : ReadBack callee)
    (ha : ∀ a ∈ args, ReadBack a) (hstart : ∀ a ∈ args, Lexeme.StartsExpr a.written) :
    ReadBack (.call callee args) := by
  intro power room s l rest hs hroom hfits _
  simp only [Expr.operations] at hroom ⊢
  have hown : Extension.ofKind? (symbol .lParen).kind = some .call := rfl
  have left := hc.operand power room Power.call.rank
    (by simpa [Expr.lexemesWith, Expr.lexemesWith.ofArgs_eq_map] using hs) (by omega)
    (fits_of_lt hfits) (stops_of_ofKind? hown)
  refine (left.extend hown hfits (by omega) ?_).mono (by omega)
  intro room' t hroom' ht
  have hopen := arrives_advance ht (by simp)
  have item : ∀ a ∈ args, ∀ (s : Reader) (l : Lexeme) (rest : List Lexeme),
      s.lexemes = a.written ++ l :: rest → l.kind = .comma ∨ l.kind = .rParen →
      ∃ t, (level room').expr .none s = (a, t) ∧ s.Arrives (l :: rest) t := by
    intro a hmem s l rest hs hl
    have hle := Expr.operations_le_ofArgs hmem
    exact (ha a hmem).all room' hs (by omega) (by rcases hl with hl | hl <;> rw [hl] <;> rfl)
  obtain ⟨u, hread, hu⟩ := readItems_upcoming _ hstart item hopen.lexemes
  have hclose := arrives_expect hu.lexemes (by simp)
  exact ⟨_, by simp only [readExtension, readArgs_eq, hread], (hopen.trans hu).trans hclose⟩

theorem readOption_all {pattern result : Expr} (hp : ReadBack pattern) (hr : ReadBack result)
    (room : Nat) (hroom : 3 * (pattern.operations + result.operations) + 1 ≤ room) {s : Reader}
    {l : Lexeme} {rest : List Lexeme}
    (hs : s.lexemes = (pattern.written ++ symbol .equal ::
      result.written) ++ l :: rest)
    (hl : Extension.ofKind? l.kind = none) :
    ∃ t, readOption (level room).expr s = ((pattern, result), t) ∧ s.Arrives (l :: rest) t := by
  rw [List.append_assoc, List.cons_append] at hs
  obtain ⟨t, hpattern, ht⟩ := hp.all room hs (by omega) rfl
  have hequal := arrives_expect ht.lexemes (by simp)
  obtain ⟨u, hresult, hu⟩ := hr.all room hequal.lexemes (by omega) hl
  exact ⟨u, by simp only [readOption, hpattern, hresult], (ht.trans hequal).trans hu⟩

theorem ReadBack.select {value : Expr} {options : List (Expr × Expr)} (hv : ReadBack value)
    (ho : ∀ o ∈ options, ReadBack o.1 ∧ ReadBack o.2)
    (hstart : ∀ o ∈ options, Lexeme.StartsExpr o.1.written) :
    ReadBack (.select value options) := by
  intro power room s l rest hs hroom hfits _
  simp only [Expr.operations] at hroom ⊢
  have hown : Extension.ofKind? (symbol .equalGreater).kind = some .select := rfl
  have left := hv.operand power room Power.select.rank
    (by simpa [Expr.lexemesWith, Expr.lexemesWith.ofOptions_eq_map] using hs) (by omega)
    (fits_of_lt hfits) (stops_of_ofKind? hown)
  refine (left.extend hown hfits (by omega) ?_).mono (by omega)
  intro room' t hroom' ht
  have harrow := arrives_advance ht (by simp)
  have hopen := arrives_expect harrow.lexemes (by simp)
  have item : ∀ o ∈ options, ∀ (s : Reader) (l : Lexeme) (rest : List Lexeme),
      s.lexemes = (o.1.written ++ symbol .equal :: o.2.written) ++ l :: rest →
      l.kind = .comma ∨ l.kind = .rParen →
      ∃ t, readOption (level room').expr s = (o, t) ∧ s.Arrives (l :: rest) t := by
    intro o hmem s l rest hs hl
    have hle := Expr.operations_le_ofOptions hmem
    exact readOption_all (ho o hmem).1 (ho o hmem).2 room' (by omega) hs
      (by rcases hl with hl | hl <;> rw [hl] <;> rfl)
  have starts : ∀ o ∈ options,
      Lexeme.StartsExpr (o.1.written ++ symbol .equal :: o.2.written) := fun o hmem =>
    (hstart o hmem).group_append false _
  obtain ⟨u, hread, hu⟩ := readItems_upcoming _ starts item hopen.lexemes
  have hclose := arrives_expect hu.lexemes (by simp)
  exact ⟨_, by simp only [readExtension, readOptions_eq, hread],
    ((harrow.trans hopen).trans hu).trans hclose⟩

/-- Every expression that can be written is read back from what is written for it. -/
theorem readBack_of_writable {e : Expr} (h : e.Writable) : ReadBack e := by
  induction h with
  | @ident name _ _ hbuiltin =>
      refine readBack_of_token ⟨.ident, name⟩ rfl fun sub s hs => ?_
      have hname : Expr.ofName name = .ident name := by simp [Expr.ofName, hbuiltin]
      rw [readOperand_of_ident hs, hname]
  | func function =>
      refine readBack_of_token ⟨.ident, function.name⟩ rfl fun sub s hs => ?_
      have hname : Expr.ofName function.name = .func function := by cases function <;> rfl
      rw [readOperand_of_ident hs, hname]
  | @literal kind lexeme _ =>
      exact readBack_of_token ⟨kind.token, lexeme⟩ rfl fun sub s hs => readOperand_of_literal hs
  | unary op _ ih => exact .unary op ih
  | binary op _ _ ihl ihr => exact .binary op ihl ihr
  | index _ hp ihb ihp => exact .index ihb ihp (by cases hp <;> rfl)
  | slice _ _ he ihb ihs ihe => exact .slice ihb ihs ihe fun e hmem => (he e hmem).startsExpr
  | select _ hp _ ihv ihp ihr =>
      exact .select ihv (fun o hmem => ⟨ihp o hmem, ihr o hmem⟩) fun o hmem =>
        (hp o hmem).startsExpr
  | call _ ha ihc iha => exact .call ihc iha fun a hmem => (ha a hmem).startsExpr

/-- An expression is read as a whole from what is written for it, in front of what extends
nothing. -/
def ReadsWhole (e : Expr) : Prop :=
  ∀ (s : Reader) (l : Lexeme) (rest : List Lexeme), s.lexemes = e.written ++ l :: rest →
    Extension.ofKind? l.kind = none → ∃ t, readExpr s = (e, t) ∧ s.Arrives (l :: rest) t

theorem readFragment_written {e : Expr} (h : ReadsWhole e) {s : Reader} {l : Lexeme}
    {rest : List Lexeme}
    (hs : s.lexemes = symbol .enterExpr :: e.written ++ symbol .leaveExpr :: l :: rest) :
    ∃ t, readFragment s = (.expr e, t) ∧ s.Arrives (l :: rest) t := by
  have hopen := arrives_advance hs (by simp)
  obtain ⟨t, hread, ht⟩ := h _ _ _ hopen.lexemes rfl
  have hat : t.at? .leaveExpr := at?_iff.mpr (kind_current ht.lexemes)
  have hclose : closeExpr t = t.advance := by simp [closeExpr, hat]
  refine ⟨t.advance, ?_, (hopen.trans ht).trans (arrives_advance ht.lexemes (by simp))⟩
  have hkind := kind_current hs
  unfold readFragment
  simp only [hkind, Lexeme.symbol_kind, hread, hclose]

/-- A template of one expression is accepted if the expression is read as a whole. -/
theorem parse_source_of_readsWhole {e : Expr} (h : e.Writable) (hread : ReadsWhole e) :
    parse e.source = .ok [.expr e] := by
  have hscan := Token.scan_source h
  have hne := (Token.stream_scan e.source).ne_nil
  have hstart : (Reader.start (Token.scan e.source)).lexemes =
      symbol .enterExpr :: e.written ++ symbol .leaveExpr :: ⟨.eof, ""⟩ :: [] := by
    rw [Reader.lexemes, tokens_start hne, hscan]
  obtain ⟨t, hread, ht⟩ := readFragment_written hread hstart
  obtain ⟨bound, hbound⟩ : ∃ bound, (Token.scan e.source).length = bound + 2 := by
    have hlength := congrArg List.length hscan
    simp only [List.length_map, List.length_cons, List.length_append] at hlength
    exact ⟨_, hlength⟩
  have hbegin : ¬ (Reader.start (Token.scan e.source)).at? .eof := by
    simp [at?, kind_current hstart]
  have hend : t.at? .eof := at?_iff.mpr (kind_current ht.lexemes)
  have herrors : t.errors = [] := ht.errors.trans (errors_start _)
  have hfragments : readFragments (bound + 2) (.start (Token.scan e.source)) = ([.expr e], t) := by
    simp only [readFragments, if_neg hbegin, hread, if_pos hend]
  simp only [parse, read, ofTokens, hbound, hfragments, herrors, List.reverse_nil]

/-- Every expression that can be written, with at most forty operations, is read back from its
source as it is, and nothing else is read. -/
theorem parse_source {e : Expr} (h : e.Writable) (hsize : e.operations ≤ 40) :
    parse e.source = .ok [.expr e] := by
  refine parse_source_of_readsWhole h fun s l rest hs hl => ?_
  exact (readBack_of_writable h).all (maxNesting - 1) hs (by simp only [maxNesting]; omega) hl

/-- An expression that needs parentheses around one of its operands only. -/
def discount : Expr :=
  .binary .mul (.unary .minus (.binary .add (.ident "a") (.literal .int "1")))
    (.select (.slice (.ident "xs") (.literal .int "1") (some (.ident "n")))
      [(.literal .string "say \"hi\"", .call (.func .len) [.literal .float "2.5"])])

theorem writable_discount : discount.Writable := by
  have one : (Expr.literal .int "1").Writable := .literal ⟨'1', [], rfl, rfl, rfl⟩
  have rate : (Expr.literal .float "2.5").Writable :=
    .literal ⟨['2'], ['5'], rfl, ⟨'2', [], rfl, rfl, rfl⟩, ⟨'5', [], rfl, rfl, rfl⟩⟩
  have a : (Expr.ident "a").Writable := .ident ⟨'a', [], rfl, rfl, rfl⟩ rfl rfl
  have n : (Expr.ident "n").Writable := .ident ⟨'n', [], rfl, rfl, rfl⟩ rfl rfl
  have xs : (Expr.ident "xs").Writable := .ident ⟨'x', ['s'], rfl, rfl, rfl⟩ rfl rfl
  refine .binary .mul (.unary .minus (.binary .add a one)) (.select ?_ ?_ ?_)
  · exact .slice xs one (by simpa using n)
  · simpa using .literal trivial
  · simpa using .call (.func .len) (by simpa using rate)

theorem parse_source_of_discount :
    discount.source = "\x7b- ( a + 1 ) * xs [ 1 : n ] => ( \"say \\\"hi\\\"\" = len ( 2.5 ) )\x7d" ∧
      parse discount.source = .ok [.expr discount] :=
  ⟨rfl, parse_source writable_discount (by decide)⟩

end Phrasebook.Template
