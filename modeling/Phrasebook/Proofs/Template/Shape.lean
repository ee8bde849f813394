import Mathlib
import Phrasebook.Proofs.Evaluation.Levels
import Phrasebook.Proofs.Template.Reader
import Phrasebook.Proofs.Template.Rendering

/-!
# The shape of trees

Whatever the source is, the names and numbers in its tree are spelled as the scanner cuts them, no
variable is named like a keyword or a builtin function, and a position in brackets is no range,
since that is read as a slice (`Expr.Shaped`). Each token has the spelling of its category, reading
puts nothing but tokens into the leaves of a tree, and so the shape is kept by every function that
reads a part of it.
-/

namespace Phrasebook

namespace Token

/-- The spellings of a category, for names and numbers. -/
def Kind.Spells : Kind → String → Prop
  | ident, lexeme => IsName lexeme.toList ∧ ofWord lexeme.toList = ident
  | int, lexeme => LiteralKind.int.Admits lexeme
  | float, lexeme => LiteralKind.float.Admits lexeme
  | _, _ => True

theorem Kind.spells_of_ne {kind : Kind} (h : kind ≠ .ident ∧ kind ≠ .int ∧ kind ≠ .float)
    (lexeme : String) : kind.Spells lexeme := by
  cases kind <;> trivial

/-- A token is spelled as its category asks for. -/
def Spelled (t : Token) : Prop := t.kind.Spells t.lexeme

/-- A cut is spelled as its category asks for. -/
def Cut.Spelled (cut : Cut) : Prop := cut.kind.Spells (.ofList (decode cut.kind cut.span))

theorem isNumeral_takeWhile {c : Char} (hc : c.isDigit) (rest : List Char) :
    IsNumeral ((c :: rest).takeWhile isDigitPart) := by
  have hpart : isDigitPart c = true := by simp [isDigitPart, hc]
  exact ⟨c, rest.takeWhile isDigitPart, by simp [hpart], hc, List.all_takeWhile⟩

theorem spelled_ofWord {word : List Char} (h : IsName word) (rest : List Char) :
    Cut.Spelled ⟨.ofWord word, word, rest⟩ := by
  unfold Cut.Spelled
  by_cases hkind : Kind.ofWord word = .ident
  · rw [hkind]
    exact ⟨by simpa [decode] using h, by simpa [decode] using hkind⟩
  · apply Kind.spells_of_ne
    unfold Kind.ofWord at hkind ⊢
    split_ifs at hkind ⊢
    · simp
    · simp
    · exact absurd rfl hkind

theorem spelled_cutNumber {c : Char} (hc : c.isDigit) (rest : List Char) :
    (cutNumber (c :: rest)).Spelled := by
  have hwhole := isNumeral_takeWhile hc rest
  unfold cutNumber
  split
  · split
    · next after _ hdigit =>
        obtain ⟨d, fraction, rfl⟩ : ∃ d fraction, after = d :: fraction := by
          cases after <;> simp_all
        have hfraction := isNumeral_takeWhile (c := d) (by simpa using hdigit) fraction
        exact ⟨_, _, by simp [decode], hwhole, hfraction⟩
    · trivial
  · exact (by simpa [decode] using hwhole : IsNumeral (String.ofList _).toList)

theorem spelled_cutExpr (c : Char) (rest : List Char) : (cutExpr c rest).Spelled := by
  unfold cutExpr
  split
  · trivial
  split
  · trivial
  split
  · next hc => exact spelled_ofWord ⟨c, _, rfl, hc, List.all_takeWhile⟩ _
  split
  · next hc => exact spelled_cutNumber hc rest
  split
  · next kind h =>
      have hsymbols : ∀ kind ∈ Kind.symbols, kind ≠ .ident ∧ kind ≠ .int ∧ kind ≠ .float := by
        decide
      exact Kind.spells_of_ne (hsymbols kind (List.mem_of_find?_eq_some h)) _
  · trivial

theorem spelled_cut (mode : Mode) (c : Char) (rest : List Char) : (mode.cut c rest).Spelled := by
  cases mode with
  | expr => exact spelled_cutExpr c rest
  | text =>
      change (cutText c rest).Spelled
      unfold cutText
      split <;> trivial

theorem spelled_scanFrom (bound : Nat) (mode : Mode) (offset : Nat) (cs : List Char) :
    ∀ t ∈ scanFrom bound mode offset cs, t.Spelled := by
  induction bound generalizing mode offset cs with
  | zero => exact List.forall_mem_singleton.mpr trivial
  | succ bound ih =>
      rw [scanFrom]
      split
      · exact List.forall_mem_singleton.mpr trivial
      · next c rest _ => exact List.forall_mem_cons.mpr ⟨spelled_cut mode c rest, ih _ _ _⟩

end Token

namespace Expr

/-- The own shape of an expression. -/
def Shaped : Expr → Prop
  | .ident name => Token.Kind.ident.Spells name ∧ Builtin.ofName? name = none
  | .literal kind lexeme => kind.Admits lexeme
  | .index _ (.range _ _) => False
  | _ => True

/-- All expressions in a tree have their shape. -/
abbrev WellShaped (e : Expr) : Prop := e.Everywhere (·.Shaped)

namespace WellShaped

theorem ofName {name : String} (h : Token.Kind.ident.Spells name) :
    (Expr.ofName name).WellShaped := by
  unfold Expr.ofName
  cases hname : Builtin.ofName? name with
  | some function => exact .leaf trivial rfl
  | none => exact .leaf ⟨h, hname⟩ rfl

/-- A range in brackets becomes a slice, so that no range is a position. -/
theorem indexed {base position : Expr} (hbase : base.WellShaped)
    (hposition : position.WellShaped) : (Template.indexed base position).WellShaped := by
  cases position with
  | range start stop =>
      obtain ⟨-, hbounds⟩ := hposition
      exact .intro trivial (List.forall_mem_cons.mpr ⟨hbase, hbounds⟩)
  | _ =>
      refine .intro trivial (List.forall_mem_cons.mpr ⟨hbase, ?_⟩)
      exact List.forall_mem_singleton.mpr hposition

end WellShaped

end Expr

namespace Template

/-- The tokens that are not read yet are spelled as their categories ask for. -/
def Reader.Spelled (s : Reader) : Prop := ∀ t ∈ s.tokens, t.Spelled

theorem Reader.Leads.spelled {s s' : Reader} (h : s.Leads s') (hs : s.Spelled) : s'.Spelled :=
  fun t ht => hs t (h.tokens.mem ht)

/-- A way to read expressions gives them their shape. -/
def Shapes (sub : ReadExpr) : Prop := ∀ power (s : Reader), s.Spelled → (sub power s).1.WellShaped

theorem wellShaped_giveUp (s : Reader) (cause : SyntaxError.Cause) :
    (s.giveUp cause).1.WellShaped := .leaf trivial rfl

theorem forall_mem_readItems_of_spelled {α : Type} {item : Reader → α × Reader} {P : α → Prop}
    (hforward : ∀ s : Reader, s.Leads (item s).2) (hitem : ∀ s : Reader, s.Spelled → P (item s).1)
    (bound : Nat) {s : Reader} (hs : s.Spelled) : ∀ a ∈ (readItems item bound s).1, P a := by
  induction bound generalizing s with
  | zero => exact List.forall_mem_nil _
  | succ bound ih =>
      by_cases hend : atListEnd s
      · rw [readItems_of_atListEnd hend]
        exact List.forall_mem_nil _
      · rw [readItems_succ hend]
        have hbehind := ((hforward s).trans (leads_readComma _)).spelled hs
        exact List.forall_mem_cons.mpr ⟨hitem s hs, ih hbehind⟩

section Parts

variable {sub : ReadExpr} (hforward : Forward sub) (hsub : Shapes sub) {s : Reader}
  (hs : s.Spelled)

include hsub hs

theorem wellShaped_readStop {start : Expr} (hstart : start.WellShaped) :
    (readStop sub start s).1.WellShaped := by
  unfold readStop
  split
  · exact .range trivial hstart (by simp)
  · exact .range trivial hstart (by simpa using hsub .range s hs)

theorem wellShaped_readOperand : (readOperand sub s).1.WellShaped := by
  have htoken : s.current.kind.Spells s.current.lexeme := hs s.current List.mem_cons_self
  have hbehind := s.leads_advance.spelled hs
  unfold readOperand
  split
  case h_1 hkind =>
    rw [hkind] at htoken
    exact .leaf htoken rfl
  case h_2 hkind =>
    rw [hkind] at htoken
    exact .leaf htoken rfl
  case h_3 => exact .leaf trivial rfl
  case h_4 hkind => exact .ofName (by rwa [hkind] at htoken)
  case h_5 | h_6 | h_7 => exact .unary trivial (hsub _ _ hbehind)
  case h_8 =>
    have hzero : (Expr.literal .int "0").WellShaped := .leaf ⟨'0', [], rfl, rfl, rfl⟩ rfl
    exact wellShaped_readStop hsub hbehind hzero
  case h_9 => exact hsub _ _ hbehind
  case h_10 => exact wellShaped_giveUp _ _

include hforward

theorem wellShaped_readExtension (ext : Extension) {lhs : Expr} (hlhs : lhs.WellShaped) :
    (readExtension sub ext lhs s).1.WellShaped := by
  have hbehind := s.leads_advance.spelled hs
  cases ext with
  | binary op => exact .binary trivial hlhs (hsub _ _ hbehind)
  | range => exact wellShaped_readStop hsub hbehind hlhs
  | select =>
      have hoption : ∀ s : Reader, s.Spelled →
          (readOption sub s).1.1.WellShaped ∧ (readOption sub s).1.2.WellShaped := by
        intro s hs
        have hresult := ((hforward .none s).trans (Reader.leads_expect _ .equal)).spelled hs
        exact ⟨hsub _ _ hs, hsub _ _ hresult⟩
      apply Expr.Everywhere.select trivial hlhs
      rw [readOptions_eq]
      exact forall_mem_readItems_of_spelled (leads_readOption hforward) hoption _
        ((Reader.leads_expect _ _).spelled hbehind)
  | index => exact .indexed hlhs (hsub _ _ hbehind)
  | call =>
      apply Expr.Everywhere.call trivial hlhs
      rw [readArgs_eq]
      exact forall_mem_readItems_of_spelled (hforward .none) (hsub .none) _ hbehind

end Parts

/-- Reading an expression and extending an operand keep the shape, whatever the room. -/
theorem shapes_level (room : Nat) : Shapes (level room).expr ∧
    ∀ power lhs (s : Reader), lhs.WellShaped → s.Spelled →
      ((level room).climb power lhs s).1.WellShaped := by
  induction room with
  | zero =>
      constructor
      · intro power s _
        exact wellShaped_giveUp s _
      · intro power lhs s hlhs _
        cases h : extension? power s with
        | none => rwa [level_climb_of_none h]
        | some ext =>
            rw [level_climb_zero_of_some h]
            exact wellShaped_giveUp s _
  | succ room ih =>
      obtain ⟨hexpr, hclimb⟩ := ih
      have hforward := (leads_level room).1
      have expr : Shapes (level (room + 1)).expr := by
        intro power s hs
        exact hclimb _ _ _ (wellShaped_readOperand hexpr hs)
          ((leads_readOperand hforward s).spelled hs)
      constructor
      · exact expr
      · intro power lhs s hlhs hs
        cases h : extension? power s with
        | none => rwa [level_climb_of_none h]
        | some ext =>
            have hforward' := (leads_level (room + 1)).1
            rw [level_climb_succ_of_some h]
            exact hclimb _ _ _ (wellShaped_readExtension hforward' expr hs ext hlhs)
              ((leads_readExtension hforward' ext lhs s).spelled hs)

theorem wellShaped_readFragment {s : Reader} (hs : s.Spelled) :
    (readFragment s).1.Everywhere (·.Shaped) := by
  unfold readFragment
  split
  · trivial
  · exact (shapes_level _).1 _ _ (s.leads_advance.spelled hs)
  · exact Expr.Everywhere.leaf trivial rfl

theorem wellShaped_readFragments (bound : Nat) {s : Reader} (hs : s.Spelled) :
    ∀ f ∈ (readFragments bound s).1, f.Everywhere (·.Shaped) := by
  induction bound generalizing s with
  | zero => exact List.forall_mem_nil _
  | succ bound ih =>
      rw [readFragments]
      split
      · exact List.forall_mem_nil _
      · have hbehind := (leads_readFragment s).spelled hs
        exact List.forall_mem_cons.mpr ⟨wellShaped_readFragment hs, ih hbehind⟩

/-- All expressions in a tree have their shape, however malformed the source is. -/
theorem wellShaped_read (source : String) : (read source).1.Everywhere (·.Shaped) := by
  have hstart : (Reader.start (Token.scan source)).Spelled := by
    intro t ht
    rw [Reader.tokens_start (Token.stream_scan source).ne_nil] at ht
    exact Token.spelled_scanFrom _ _ _ _ t ht
  intro e he
  exact wellShaped_readFragments _ hstart _ he

end Template

theorem Builtin.ofName?_name (function : Builtin) : ofName? function.name = some function := by
  cases function <;> decide

/-- An expression is not a variable that is named like a builtin function. -/
def Expr.Resolved : Expr → Prop
  | .ident name => Builtin.ofName? name = none
  | _ => True

theorem Expr.Shaped.resolved {e : Expr} (h : e.Shaped) : e.Resolved := by
  cases e with
  | ident => exact h.2
  | _ => trivial

/-- No variable in a tree is named like a builtin function, however malformed the source is. -/
theorem Template.resolved_read (source : String) : (read source).1.Everywhere (·.Resolved) :=
  fun e he => (wellShaped_read source e he).mono fun _ => Expr.Shaped.resolved

end Phrasebook
