import Mathlib
import Phrasebook.Proofs.Template.Reader
import Phrasebook.Template.Outline

/-!
# The height of trees

However long a source is, its tree has a bounded number of levels, and its expressions are read with
a bounded number of nested calls. The two bounds differ. A call is left with less room than the one
that makes it, so there is at most one call at a time for each level of room, and one without room.
But an operand may be as high as its room allows and still be extended to the right, by one level
for each extension, as long as there is room: the last level of room in `r + 1` adds `r + 1` levels
to the tree (`levelBound_succ`).

Levels are counted in the outline of a tree, where an option of a selection has one of its own.
-/

namespace Phrasebook

namespace Expr

/-- An expression has at most the given number of levels, its own one included. -/
def Spans (bound : Nat) (e : Expr) : Prop :=
  ∀ depth, ∀ row ∈ e.outline depth, row.depth < depth + bound

namespace Spans

variable {bound bound' : Nat} {e base operand lhs rhs start position value callee : Expr}
variable {stop : Option Expr} {args : List Expr} {options : List (Expr × Expr)}

theorem mono (h : e.Spans bound) (hle : bound ≤ bound') : e.Spans bound' := fun depth row hrow =>
  Nat.lt_of_lt_of_le (h depth row hrow) (Nat.add_le_add_left hle depth)

/-- The level of a node is above those of its parts. -/
theorem node {depth : Nat} {kind detail : String} {rows : List OutlineRow}
    (h : ∀ row ∈ rows, row.depth < depth + (bound + 1)) :
    ∀ row ∈ ⟨depth, kind, detail⟩ :: rows, row.depth < depth + (bound + 1) :=
  List.forall_mem_cons.mpr ⟨Nat.lt_add_of_pos_right (Nat.succ_pos bound), h⟩

theorem leaf {kind detail : String} (h : ∀ depth, e.outline depth = [⟨depth, kind, detail⟩]) :
    e.Spans 1 := by
  intro depth
  rw [h]
  exact node (by simp)

/-- A part stands one level below the whole. -/
theorem part (h : e.Spans bound) (depth : Nat) :
    ∀ row ∈ e.outline (depth + 1), row.depth < depth + (bound + 1) := by
  intro row hrow
  have := h _ row hrow
  omega

theorem outlineEnd (h : ∀ e ∈ stop, e.Spans bound) (depth : Nat) :
    ∀ row ∈ outline.outlineEnd depth stop, row.depth < depth + (bound + 1) := by
  cases stop with
  | none => simp [outline.outlineEnd]
  | some stop => exact (h stop rfl).part depth

theorem outlineArgs (h : ∀ e ∈ args, e.Spans bound) (depth : Nat) :
    ∀ row ∈ outline.outlineArgs depth args, row.depth < depth + (bound + 1) := by
  induction args with
  | nil => simp [outline.outlineArgs]
  | cons arg args ih =>
      obtain ⟨hfirst, hothers⟩ := List.forall_mem_cons.mp h
      exact List.forall_mem_append.mpr ⟨hfirst.part depth, ih hothers⟩

theorem outlineOptions (h : ∀ o ∈ options, o.1.Spans bound ∧ o.2.Spans bound) (depth : Nat) :
    ∀ row ∈ outline.outlineOptions depth options, row.depth < depth + (bound + 2) := by
  induction options with
  | nil => simp [outline.outlineOptions]
  | cons option options ih =>
      obtain ⟨⟨hpattern, hresult⟩, hothers⟩ := List.forall_mem_cons.mp h
      refine List.forall_mem_append.mpr ⟨?_, ih hothers⟩
      have hlevel : depth + (bound + 2) = depth + 1 + (bound + 1) := by omega
      rw [hlevel]
      exact node (List.forall_mem_append.mpr ⟨hpattern.part _, hresult.part _⟩)

theorem ofName (name : String) : (Expr.ofName name).Spans 1 := by
  rw [Expr.ofName]
  split
  · exact leaf fun _ => rfl
  · exact leaf fun _ => rfl

theorem unary (op : UnaryOp) (h : operand.Spans bound) : (unary op operand).Spans (bound + 1) :=
  fun depth => node (h.part depth)

theorem binary (op : BinaryOp) (hlhs : lhs.Spans bound) (hrhs : rhs.Spans bound) :
    (binary op lhs rhs).Spans (bound + 1) := fun depth =>
  node (List.forall_mem_append.mpr ⟨hlhs.part depth, hrhs.part depth⟩)

theorem range (hstart : start.Spans bound) (hstop : ∀ e ∈ stop, e.Spans bound) :
    (range start stop).Spans (bound + 1) := fun depth =>
  node (List.forall_mem_append.mpr ⟨hstart.part depth, outlineEnd hstop depth⟩)

/-- The ends of a slice are on the levels on which those of the range were. -/
theorem indexed (hbase : base.Spans bound) (hposition : position.Spans bound) :
    (Template.indexed base position).Spans (bound + 1) := by
  intro depth
  cases position with
  | range start stop =>
      have hends : ∀ row ∈ start.outline (depth + 1) ++ outline.outlineEnd depth stop,
          row.depth < depth + (bound + 1) := by
        intro row hrow
        have := hposition depth row (List.mem_cons_of_mem _ hrow)
        omega
      rw [Template.indexed, outline, List.append_assoc]
      exact node (List.forall_mem_append.mpr ⟨hbase.part depth, hends⟩)
  | _ => exact node (List.forall_mem_append.mpr ⟨hbase.part depth, hposition.part depth⟩)

/-- The parts of an option are two levels below the selection. -/
theorem select (hvalue : value.Spans (bound + 1))
    (hoptions : ∀ o ∈ options, o.1.Spans bound ∧ o.2.Spans bound) :
    (select value options).Spans (bound + 2) := fun depth =>
  node (List.forall_mem_append.mpr ⟨hvalue.part depth, outlineOptions hoptions depth⟩)

theorem call (hcallee : callee.Spans bound) (hargs : ∀ e ∈ args, e.Spans bound) :
    (call callee args).Spans (bound + 1) := fun depth =>
  node (List.forall_mem_append.mpr ⟨hcallee.part depth, outlineArgs hargs depth⟩)

end Spans

end Expr

namespace Template

open Reader

/-- A way to read expressions reads trees of at most the given number of levels. -/
def Spanning (bound : Nat) (sub : ReadExpr) : Prop := ∀ power s, (sub power s).1.Spans bound

theorem spans_giveUp (s : Reader) (cause : SyntaxError.Cause) : (s.giveUp cause).1.Spans 1 :=
  .leaf fun _ => rfl

section Parts

variable {bound : Nat} {sub : ReadExpr} (hsub : Spanning bound sub)

include hsub

theorem spans_readStop {start : Expr} (hstart : start.Spans bound) (s : Reader) :
    (readStop sub start s).1.Spans (bound + 1) := by
  rw [readStop]
  split
  · exact .range hstart (by simp)
  · exact .range hstart (by simpa using hsub .range s)

theorem spans_readOperand (hpos : 0 < bound) (s : Reader) :
    (readOperand sub s).1.Spans (bound + 1) := by
  have leaf : ∀ {e : Expr}, e.Spans 1 → e.Spans (bound + 1) := fun h => h.mono (by omega)
  have unary : ∀ op, (readUnary sub op s).1.Spans (bound + 1) := fun op => .unary op (hsub _ _)
  rw [readOperand]
  split
  case h_1 | h_2 | h_3 => exact leaf (.leaf fun _ => rfl)
  case h_4 => exact leaf (.ofName _)
  case h_5 | h_6 | h_7 => exact unary _
  case h_8 =>
    have hzero : (Expr.literal .int "0").Spans 1 := .leaf fun _ => rfl
    exact spans_readStop hsub (hzero.mono hpos) _
  case h_9 => exact (hsub _ _).mono (Nat.le_succ bound)
  case h_10 => exact leaf (spans_giveUp s _)

/-- An extension puts an operand one level deeper. What it adds may not be that deep. -/
theorem spans_readExtension (ext : Extension) {lhs : Expr} (hlhs : lhs.Spans (bound + 1))
    (s : Reader) : (readExtension sub ext lhs s).1.Spans (bound + 2) := by
  have part : ∀ power s, (sub power s).1.Spans (bound + 1) := fun power s =>
    (hsub power s).mono (Nat.le_succ bound)
  cases ext with
  | binary op => exact .binary op hlhs (part _ _)
  | range => exact spans_readStop part hlhs _
  | select =>
      refine .select hlhs ?_
      rw [readOptions_eq]
      exact forall_mem_readItems (fun s => ⟨hsub _ _, hsub _ _⟩) _ _
  | index => exact .indexed hlhs (part _ _)
  | call =>
      refine .call hlhs ?_
      rw [readArgs_eq]
      exact forall_mem_readItems (fun s => part _ _) _ _

end Parts

/-- The most levels of an expression that is read with the given room: the parts of an expression
leave one level to each of its extensions. -/
def levelBound (room : Nat) : Nat := 1 + ∑ k ∈ Finset.range room, (k + 1)

theorem levelBound_succ (room : Nat) : levelBound (room + 1) = levelBound room + (room + 1) := by
  rw [levelBound, Finset.sum_range_succ, ← Nat.add_assoc, levelBound]

theorem levelBound_pos (room : Nat) : 0 < levelBound room := Nat.add_pos_left Nat.one_pos _

/-- Each extension uses up one level of room, and adds one level to an operand that is already
deeper than what it adds. -/
theorem spans_level (room : Nat) : Spanning (levelBound room) (level room).expr ∧
    ∀ bound power lhs s, levelBound room ≤ bound → lhs.Spans (bound + 1) →
      ((level room).climb power lhs s).1.Spans (bound + 1 + room) := by
  induction room with
  | zero =>
      refine ⟨fun power s => spans_giveUp s _, fun bound power lhs s hbound hlhs => ?_⟩
      cases h : extension? power s with
      | none =>
          rw [level_climb_of_none h]
          exact hlhs
      | some ext =>
          rw [level_climb_zero_of_some h]
          exact (spans_giveUp s _).mono (Nat.succ_pos bound)
  | succ room ih =>
      obtain ⟨hexpr, hclimb⟩ := ih
      have hsucc := levelBound_succ room
      have expr : Spanning (levelBound (room + 1)) (level (room + 1)).expr := by
        intro power s
        rw [hsucc, ← Nat.add_assoc, Nat.add_right_comm]
        exact hclimb _ _ _ _ (Nat.le_refl _) (spans_readOperand hexpr (levelBound_pos room) s)
      refine ⟨expr, fun bound power lhs s hbound hlhs => ?_⟩
      cases h : extension? power s with
      | none =>
          rw [level_climb_of_none h]
          exact hlhs.mono (Nat.le_add_right _ _)
      | some ext =>
          have sub : Spanning bound (level (room + 1)).expr := fun power s =>
            (expr power s).mono hbound
          rw [level_climb_succ_of_some h, ← Nat.add_assoc, Nat.add_right_comm]
          exact hclimb _ _ _ _ (by omega) (spans_readExtension sub ext hlhs s)

theorem levelBound_maxNesting : levelBound (maxNesting - 1) = 8129 := by decide +kernel

theorem spans_readExpr (s : Reader) : (readExpr s).1.Spans 8129 :=
  levelBound_maxNesting ▸ (spans_level _).1 .none s

theorem depth_of_mem_outline_readFragment (s : Reader) :
    ∀ row ∈ (readFragment s).1.outline, row.depth < 8130 := by
  have expr : ∀ {e : Expr}, e.Spans 8129 → ∀ row ∈ (Fragment.expr e).outline, row.depth < 8130 :=
    fun h => h 1
  rw [readFragment]
  split
  · simp [Fragment.outline]
  · exact expr (spans_readExpr _)
  · exact expr ((Expr.Spans.leaf fun _ => rfl).mono (by omega))

/-- Extends an operand as often as the room allows. What an extension adds is read with the room
that is left for it. -/
def climbWith (sub : Nat → ReadExpr) : Nat → Power → Expr → Reader → Expr × Reader
  | 0, power, lhs, s =>
    match extension? power s with
    | none => (lhs, s)
    | some _ => s.giveUp .nestedTooDeeply
  | room + 1, power, lhs, s =>
    match extension? power s with
    | none => (lhs, s)
    | some ext =>
      let (lhs, s) := readExtension (sub (room + 1)) ext lhs s
      climbWith sub room power lhs s

/-- Reads an expression with at most the given number of calls at a time, this one included, and
with the given room. A call too many is answered in some other way. -/
def exprWithin (beyond : ReadExpr) : Nat → Nat → ReadExpr
  | 0, _ => beyond
  | _ + 1, 0 => fun _ s => s.giveUp .nestedTooDeeply
  | calls + 1, room + 1 => fun power s =>
    let (lhs, s) := readOperand (exprWithin beyond calls room) s
    climbWith (exprWithin beyond calls) room power lhs s

theorem climbWith_eq {sub : Nat → ReadExpr} {room : Nat}
    (h : ∀ left ≤ room, sub left = (level left).expr) :
    climbWith sub room = (level room).climb := by
  induction room with
  | zero => rfl
  | succ room ih =>
      funext power lhs s
      have hbelow := ih fun left hleft => h left (Nat.le_succ_of_le hleft)
      cases hext : extension? power s with
      | none => rw [level_climb_of_none hext, climbWith, hext]
      | some ext =>
          rw [level_climb_succ_of_some hext, climbWith, hext, h _ (Nat.le_refl _), hbelow]

/-- With a call for each level of room and one more, no call is answered in another way. -/
theorem exprWithin_eq (beyond : ReadExpr) {calls room : Nat} (h : room < calls) :
    exprWithin beyond calls room = (level room).expr := by
  induction calls generalizing room with
  | zero => exact absurd h (Nat.not_lt_zero room)
  | succ calls ih =>
      cases room with
      | zero => rfl
      | succ room =>
          have hparts : ∀ left ≤ room, exprWithin beyond calls left = (level left).expr :=
            fun left hleft => ih (by omega)
          funext power s
          rw [exprWithin, level_expr_succ, hparts room (Nat.le_refl room), climbWith_eq hparts]

/-- The tree of a source has at most 8130 levels: its top one, those of a fragment read with all of
the room, and no others. Whatever is read, at most 128 calls are made at a time: it does not matter
how a further call would be answered. -/
theorem nesting_bounded (source : String) :
    (∀ row ∈ (read source).1.outline, row.depth < 8130) ∧
      ∀ beyond, exprWithin beyond 128 (maxNesting - 1) .none = readExpr := by
  constructor
  · have hfragments : ∀ f ∈ (read source).1, ∀ row ∈ f.outline, row.depth < 8130 :=
      forall_mem_readFragments depth_of_mem_outline_readFragment _ _
    refine List.forall_mem_cons.mpr ⟨Nat.succ_pos _, fun row hrow => ?_⟩
    obtain ⟨fragment, hfragment, hrow⟩ := List.mem_flatMap.mp hrow
    exact hfragments fragment hfragment row hrow
  · intro beyond
    rw [exprWithin_eq beyond (by decide)]
    rfl

/-- Two operators in front of a name. -/
theorem nesting_bounded_of_name :
    ⟨3, "ident", "x"⟩ ∈ (read "\x7b!-x\x7d").1.outline ∧
      (⟨3, "ident", "x"⟩ : OutlineRow).depth < 8130 := by
  have hrow : ⟨3, "ident", "x"⟩ ∈ (read "\x7b!-x\x7d").1.outline := by decide +kernel
  exact ⟨hrow, (nesting_bounded _).1 _ hrow⟩

end Template

end Phrasebook
