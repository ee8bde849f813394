import Mathlib
import Phrasebook.Proofs.Template.Recovery
import Phrasebook.Proofs.Template.Shape
import Phrasebook.Template.Outline

/-!
# The shape of outlines

An outline lists every node of a tree in front of its parts, which are one level deeper. So the
parts of a node can be read off the rows behind its own (`OutlineRow.parts`), and what shape a tree
has can be said of its outline: which nodes are where, which parts they have, and how names and
numbers are spelled (`OutlineRow.Shaped`). All nodes are covered in this way, also those that
evaluation does not look at.

The rows of an outline are nested as the nodes of the tree are (`OutlineRow.Listed`). What is known
of the nodes is put together along this nesting, for one constructor of expressions after the other,
and then taken back to the rows behind a node.

Expressions get their shape from the way they are read; that no text is empty or next to another one
comes from the scanner, since every fragment is started by a token of its own. Together this gives
the shape of the outline of every source, however malformed it is (`Template.shaped_outline`).
-/

namespace Phrasebook

namespace OutlineRow

/-- The rows of the parts of a node among the rows behind its own: those one level deeper, up to the
first row that is not below the node. -/
def parts (node : OutlineRow) (behind : List OutlineRow) : List OutlineRow :=
  (behind.takeWhile (node.depth < ·.depth)).filter (·.depth = node.depth + 1)

/-- Rows list `nodes` of a depth, each of them in front of all that is below it. The relation says
which parts a node may have. -/
inductive Listed (R : OutlineRow → List OutlineRow → Prop) :
    Nat → List OutlineRow → List OutlineRow → Prop where
  | nil {depth : Nat} : Listed R depth [] []
  | cons {depth : Nat} {node : OutlineRow} {parts below nodes rows : List OutlineRow} :
      node.depth = depth → R node parts → Listed R (depth + 1) parts below →
      Listed R depth nodes rows → Listed R depth (node :: nodes) (node :: below ++ rows)

namespace Listed

variable {R : OutlineRow → List OutlineRow → Prop} {depth : Nat} {node : OutlineRow}
variable {nodes nodes' rows rows' behind : List OutlineRow}

theorem append (h : Listed R depth nodes rows) (h' : Listed R depth nodes' rows') :
    Listed R depth (nodes ++ nodes') (rows ++ rows') := by
  induction h with
  | nil => exact h'
  | cons hdepth hnode hbelow _ _ ih =>
      rw [List.append_assoc]
      exact .cons hdepth hnode hbelow (ih h')

theorem single {kind detail : String} (hnode : R ⟨depth, kind, detail⟩ nodes)
    (hbelow : Listed R (depth + 1) nodes rows) :
    Listed R depth [⟨depth, kind, detail⟩] (⟨depth, kind, detail⟩ :: rows) := by
  rw [← List.append_nil (_ :: rows)]
  exact .cons rfl hnode hbelow .nil

theorem leaf {kind detail : String} (hnode : R ⟨depth, kind, detail⟩ []) :
    Listed R depth [⟨depth, kind, detail⟩] [⟨depth, kind, detail⟩] := single hnode .nil

theorem le_depth (h : Listed R depth nodes rows) : ∀ row ∈ rows, depth ≤ row.depth := by
  induction h with
  | nil => exact List.forall_mem_nil _
  | cons hdepth _ _ _ ihbelow ih =>
      refine List.forall_mem_append.mpr ⟨List.forall_mem_cons.mpr ⟨hdepth.ge, ?_⟩, ih⟩
      exact fun row hrow => Nat.le_of_succ_le (ihbelow row hrow)

/-- The nodes are the rows of their depth, since everything below them is deeper. -/
theorem filter_eq (h : Listed R depth nodes rows) : rows.filter (·.depth = depth) = nodes := by
  induction h with
  | nil => rfl
  | @cons depth node _ below _ _ hdepth _ hbelow _ _ ih =>
      have hdeeper : below.filter (·.depth = depth) = [] := by
        refine List.filter_eq_nil_iff.mpr fun row hrow => ?_
        have := hbelow.le_depth row hrow
        simp only [decide_eq_true_eq]
        omega
      rw [List.cons_append, List.filter_cons_of_pos (by simpa using hdepth), List.filter_append,
        hdeeper, ih, List.nil_append]

/-- The rows below a node end in front of a row that is not below it. -/
theorem parts_eq (h : Listed R (node.depth + 1) nodes rows)
    (hbehind : ∀ next ∈ behind.head?, next.depth ≤ node.depth) :
    node.parts (rows ++ behind) = nodes := by
  have hbelow : ∀ row ∈ rows, decide (node.depth < row.depth) = true := fun row hrow =>
    decide_eq_true (h.le_depth row hrow)
  have hend : behind.takeWhile (node.depth < ·.depth) = [] := by
    cases behind with
    | nil => rfl
    | cons next behind => exact List.takeWhile_cons_of_neg (by simpa using hbehind next rfl)
  rw [parts, List.takeWhile_append_of_pos hbelow, hend, List.append_nil, h.filter_eq]

theorem head?_le (h : Listed R depth nodes rows)
    (hbehind : ∀ next ∈ behind.head?, next.depth ≤ depth) :
    ∀ next ∈ (rows ++ behind).head?, next.depth ≤ depth := by
  cases h with
  | nil => exact hbehind
  | cons hdepth =>
      rintro next ⟨⟩
      exact hdepth.le

/-- A node and the parts that the rows behind it give are in the relation. -/
theorem related (h : Listed R depth nodes rows)
    (hbehind : ∀ next ∈ behind.head?, next.depth ≤ depth) {before after : List OutlineRow}
    (hrows : rows = before ++ node :: after) : R node (node.parts (after ++ behind)) := by
  induction h generalizing behind before after with
  | nil => simp at hrows
  | @cons _ _ _ _ _ rest hdepth _ hbelow hrest ihbelow ih =>
      have hnext := hrest.head?_le hbehind
      rw [List.cons_append] at hrows
      cases before with
      | nil =>
          rw [List.nil_append] at hrows
          obtain ⟨rfl, rfl⟩ := List.cons.inj hrows
          subst hdepth
          rwa [List.append_assoc, hbelow.parts_eq hnext]
      | cons first before =>
          rw [List.cons_append] at hrows
          obtain ⟨-, hrows⟩ := List.cons.inj hrows
          -- The row is that of another node of this depth, or it is below the first one.
          obtain ⟨more, -, hmore⟩ | ⟨more, hbefore, hmore⟩ := List.append_eq_append_iff.mp hrows
          · exact ih hbehind hmore
          cases more with
          | nil =>
              have hfirst : rest = [] ++ node :: after := hmore.symm
              exact ih hbehind hfirst
          | cons other more =>
              rw [List.cons_append] at hmore
              obtain ⟨rfl, rfl⟩ := List.cons.inj hmore
              rw [List.append_assoc]
              exact ihbelow (fun next h => Nat.le_succ_of_le (hnext next h)) hbefore

end Listed

/-- The shape of a node with the given parts. -/
structure Shaped (node : OutlineRow) (parts : List OutlineRow) : Prop where
  /-- The root is the top, and nothing else is. -/
  root : node.kind = "root" ↔ node.depth = 0
  /-- Literal text is directly below the root and never empty. -/
  text : node.kind = "text" → node.depth = 1 ∧ node.detail ≠ ""
  /-- No literal text is next to another one. -/
  apart : parts.IsChain fun part next => part.kind = "text" → next.kind ≠ "text"
  /-- A slice has a base and a start, and if it is closed, an end. -/
  slice : node.kind = "slice" → ∃ base start stop, parts = base :: start :: stop.toList ∧
    node.detail = endDetail stop
  /-- An index has a base and a position that is no range. -/
  index : node.kind = "index" → ∃ base position, parts = [base, position] ∧
    position.kind ≠ "range"
  /-- A variable has a name that is neither a keyword nor that of a builtin function. -/
  ident : node.kind = "ident" → Token.IsName node.detail.toList ∧
    node.detail ≠ "or" ∧ node.detail ≠ "and" ∧ ∀ function : Builtin, node.detail ≠ function.name
  /-- An integer is a run of digits. -/
  int : node.kind = "int" → Token.IsNumeral node.detail.toList
  /-- A number with a fraction is two runs of digits around a dot. -/
  float : node.kind = "float" → ∃ whole fraction,
    node.detail.toList = whole ++ '.' :: fraction ∧
      Token.IsNumeral whole ∧ Token.IsNumeral fraction

end OutlineRow

namespace Expr

/-- The row of an expression itself, the first one of its outline. -/
def row (depth : Nat) (e : Expr) : OutlineRow := (e.outline depth).headD ⟨depth, "", ""⟩

@[simp] theorem kind_row_ne_text (depth : Nat) (e : Expr) : (e.row depth).kind ≠ "text" := by
  cases e with
  | literal kind => cases kind <;> simp [row, outline, LiteralKind.label]
  | _ => simp [row, outline]

theorem eq_range_of_kind_row {depth : Nat} {e : Expr} (h : (e.row depth).kind = "range") :
    ∃ start stop, e = .range start stop := by
  cases e with
  | range start stop => exact ⟨start, stop, rfl⟩
  | literal kind => cases kind <;> simp [row, outline, LiteralKind.label] at h
  | _ => simp [row, outline] at h

/-- The row of an option of a selection. -/
def optionRow (depth : Nat) (option : Expr × Expr) : OutlineRow :=
  ⟨depth, "option", if option.1.isWildcard then "_" else ""⟩

theorem kind_optionRow_ne_text (depth : Nat) (option : Expr × Expr) :
    (optionRow depth option).kind ≠ "text" := by simp [optionRow]

end Expr

namespace OutlineRow.Shaped

variable {depth : Nat} {kind detail : String} {parts : List OutlineRow}

theorem apart_of_forall (h : ∀ part ∈ parts, part.kind ≠ "text") :
    parts.IsChain fun part next => part.kind = "text" → next.kind ≠ "text" := by
  refine List.Pairwise.isChain (List.pairwise_of_forall_mem_list ?_)
  exact fun _ _ next hnext _ => h next hnext

/-- Nodes of most kinds may have any parts that are no texts. -/
theorem plain
    (hkind : kind ∉ ["root", "text", "slice", "index", "ident", "int", "float"])
    (hparts : ∀ part ∈ parts, part.kind ≠ "text") : Shaped ⟨depth + 1, kind, detail⟩ parts := by
  simp only [List.mem_cons, List.not_mem_nil, or_false, not_or] at hkind
  obtain ⟨hroot, htext, hslice, hindex, hident, hint, hfloat⟩ := hkind
  exact {
    root := ⟨fun h => absurd h hroot, fun h => absurd h (Nat.succ_ne_zero depth)⟩
    text := fun h => absurd h htext
    apart := apart_of_forall hparts
    slice := fun h => absurd h hslice
    index := fun h => absurd h hindex
    ident := fun h => absurd h hident
    int := fun h => absurd h hint
    float := fun h => absurd h hfloat }

theorem slice_rows (base start : Expr) (stop : Option Expr) :
    Shaped ⟨depth + 1, "slice", endDetail stop⟩ (base.row (depth + 2) ::
      start.row (depth + 2) :: (stop.map (Expr.row (depth + 2))).toList) := by
  constructor
  case slice => exact fun _ => ⟨_, _, stop.map (Expr.row (depth + 2)), rfl, by simp [endDetail]⟩
  case apart => exact apart_of_forall (by simp)
  all_goals simp

theorem index_rows (base : Expr) {position : Expr}
    (h : ∀ start stop, position ≠ .range start stop) :
    Shaped ⟨depth + 1, "index", ""⟩ [base.row (depth + 2), position.row (depth + 2)] := by
  constructor
  case index =>
    refine fun _ => ⟨_, _, rfl, fun hrange => ?_⟩
    obtain ⟨start, stop, rfl⟩ := Expr.eq_range_of_kind_row hrange
    exact h start stop rfl
  case apart => exact apart_of_forall (by simp)
  all_goals simp

theorem ident_row {name : String} (h : (Expr.ident name).Shaped) :
    Shaped ⟨depth + 1, "ident", name⟩ [] := by
  obtain ⟨⟨hname, hword⟩, hbuiltin⟩ := h
  constructor
  case ident =>
    refine fun _ => ⟨hname, ?_, ?_, ?_⟩
    · rintro rfl
      exact absurd hword (by decide)
    · rintro rfl
      exact absurd hword (by decide)
    · rintro function rfl
      simp [Builtin.ofName?_name] at hbuiltin
  all_goals simp

theorem literal_row {kind : LiteralKind} {lexeme : String} (h : kind.Admits lexeme) :
    Shaped ⟨depth + 1, kind.label, lexeme⟩ [] := by
  cases kind with
  | string => exact plain (by decide) (List.forall_mem_nil _)
  | int =>
      constructor
      case int => exact fun _ => h
      all_goals simp [LiteralKind.label]
  | float =>
      constructor
      case float => exact fun _ => h
      all_goals simp [LiteralKind.label]

theorem text_row {content : String} (h : content ≠ "") : Shaped ⟨1, "text", content⟩ [] := by
  constructor
  case text => exact fun _ => ⟨rfl, h⟩
  all_goals simp

end OutlineRow.Shaped

namespace Expr

open OutlineRow (Listed)

/-- The outline of an expression below other nodes lists it with its shape, and all that is below
it. -/
def Outlined (e : Expr) : Prop :=
  ∀ depth, Listed OutlineRow.Shaped (depth + 1) [e.row (depth + 1)] (e.outline (depth + 1))

namespace Outlined

variable {e operand lhs rhs base position start value callee : Expr} {stop : Option Expr}
variable {args : List Expr} {options : List (Expr × Expr)}

theorem outlineEnd (h : ∀ e ∈ stop, e.Outlined) (depth : Nat) :
    Listed OutlineRow.Shaped (depth + 1) (stop.map (row (depth + 1))).toList
      (outline.outlineEnd depth stop) := by
  cases stop with
  | none => exact .nil
  | some stop => exact h stop rfl depth

theorem outlineArgs (h : ∀ a ∈ args, a.Outlined) (depth : Nat) :
    Listed OutlineRow.Shaped (depth + 1) (args.map (row (depth + 1)))
      (outline.outlineArgs depth args) := by
  induction args with
  | nil => exact .nil
  | cons arg args ih =>
      obtain ⟨hfirst, hothers⟩ := List.forall_mem_cons.mp h
      exact (hfirst depth).append (ih hothers)

theorem outlineOptions (h : ∀ o ∈ options, o.1.Outlined ∧ o.2.Outlined) (depth : Nat) :
    Listed OutlineRow.Shaped (depth + 1) (options.map (optionRow (depth + 1)))
      (outline.outlineOptions depth options) := by
  induction options with
  | nil => exact .nil
  | cons option options ih =>
      obtain ⟨⟨hpattern, hresult⟩, hothers⟩ := List.forall_mem_cons.mp h
      have hparts := (hpattern (depth + 1)).append (hresult (depth + 1))
      exact (Listed.single (.plain (by decide) (by simp)) hparts).append (ih hothers)

theorem func (function : Builtin) : (func function).Outlined := fun depth =>
  .leaf (.plain (by decide) (List.forall_mem_nil _))

theorem unary (op : UnaryOp) (h : operand.Outlined) : (unary op operand).Outlined :=
  fun depth => .single (.plain (by decide) (by simp)) (h (depth + 1))

theorem binary (op : BinaryOp) (hlhs : lhs.Outlined) (hrhs : rhs.Outlined) :
    (binary op lhs rhs).Outlined := fun depth =>
  .single (.plain (by decide) (by simp)) ((hlhs (depth + 1)).append (hrhs (depth + 1)))

theorem range (hstart : start.Outlined) (hstop : ∀ e ∈ stop, e.Outlined) :
    (range start stop).Outlined := fun depth =>
  .single (.plain (by decide) (by simp))
    ((hstart (depth + 1)).append (outlineEnd hstop (depth + 1)))

theorem index (hbase : base.Outlined) (hposition : position.Outlined)
    (h : ∀ start stop, position ≠ .range start stop) : (index base position).Outlined :=
  fun depth => .single (.index_rows base h)
    ((hbase (depth + 1)).append (hposition (depth + 1)))

theorem slice (hbase : base.Outlined) (hstart : start.Outlined)
    (hstop : ∀ e ∈ stop, e.Outlined) : (slice base start stop).Outlined := by
  intro depth
  have hbounds := (hbase (depth + 1)).append (hstart (depth + 1))
  exact .single (.slice_rows base start stop) (hbounds.append (outlineEnd hstop (depth + 1)))

theorem select (hvalue : value.Outlined) (hoptions : ∀ o ∈ options, o.1.Outlined ∧ o.2.Outlined) :
    (select value options).Outlined := by
  intro depth
  have hparts : ∀ part ∈ [value.row (depth + 2)] ++ options.map (optionRow (depth + 2)),
      part.kind ≠ "text" := by
    refine List.forall_mem_cons.mpr ⟨kind_row_ne_text _ _, List.forall_mem_map.mpr ?_⟩
    exact fun o _ => kind_optionRow_ne_text _ o
  exact .single (.plain (by decide) hparts)
    ((hvalue (depth + 1)).append (outlineOptions hoptions (depth + 1)))

theorem call (hcallee : callee.Outlined) (hargs : ∀ a ∈ args, a.Outlined) :
    (call callee args).Outlined := fun depth =>
  .single (.plain (by decide) (by simp))
    ((hcallee (depth + 1)).append (outlineArgs hargs (depth + 1)))

end Outlined

/-- A tree of expressions with their shape has an outline of nodes with theirs. -/
theorem WellShaped.outlined {e : Expr} (h : e.WellShaped) : e.Outlined := by
  induction h with
  | @intro e hown _ ih =>
      cases e with
      | ident name => exact fun depth => .leaf (.ident_row hown)
      | func function => exact .func function
      | literal kind lexeme => exact fun depth => .leaf (.literal_row hown)
      | invalid start stop => exact fun depth => .leaf (.plain (by decide) (List.forall_mem_nil _))
      | unary op operand => exact .unary op (ih _ (by simp [parts]))
      | binary op lhs rhs =>
          exact .binary op (ih _ (by simp [parts])) (ih _ (by simp [parts]))
      | range start stop =>
          refine .range (ih _ (by simp [parts])) fun e he => ih e ?_
          simp [parts, Option.mem_def.mp he]
      | index base position =>
          refine .index (ih _ (by simp [parts])) (ih _ (by simp [parts])) ?_
          rintro start stop rfl
          exact hown
      | slice base start stop =>
          refine .slice (ih _ (by simp [parts])) (ih _ (by simp [parts])) fun e he => ih e ?_
          simp [parts, Option.mem_def.mp he]
      | select value options =>
          refine .select (ih _ List.mem_cons_self) fun o ho => ?_
          exact ⟨ih _ (mem_parts_option ho).1, ih _ (mem_parts_option ho).2⟩
      | call callee args =>
          refine .call ?_ fun a ha => ih a (mem_parts_arg ha)
          -- A function that is called by its name is no part of the call, but it is listed.
          cases callee with
          | func function => exact .func function
          | _ => exact ih _ List.mem_cons_self

end Expr

namespace Token.Tiles

variable {mode : Mode} {offset : Nat} {cs : List Char} {ts : List Token}

/-- In literal text, the first token that starts a fragment is the very first one. -/
theorem head?_filter_startsFragment (h : Tiles .text offset cs ts) :
    ∀ t ∈ (ts.filter startsFragment).head?, t ∈ ts.head? := by
  cases h with
  | eof => simp [startsFragment]
  | @token _ _ _ _ _ t _ _ _ hadmits =>
      have hstarts : t.startsFragment = true := by
        simpa [startsFragment, Mode.Admits] using hadmits
      rw [List.filter_cons_of_pos hstarts]
      exact fun _ h => h

/-- The fragment behind a text does not start with another one. -/
theorem isChain_startsFragment (h : Tiles mode offset cs ts) :
    (ts.filter startsFragment).IsChain fun t u => t.kind = .text → u.kind ≠ .text := by
  induction h with
  | eof => simp [startsFragment]
  | @token mode _ _ _ rest t ts _ _ hadmits _ hvalue hts ih =>
      by_cases hstarts : t.startsFragment
      · rw [List.filter_cons_of_pos hstarts]
        refine List.isChain_cons.mpr ⟨fun u hu hkind => ?_, ih⟩
        rw [hkind] at hvalue hadmits hts
        cases mode with
        | text =>
            have hfirst := hts.head?_filter_startsFragment u hu
            exact hts.head?_ne_text hvalue.rest_head? u hfirst
        | expr => exact absurd rfl hadmits.1
      · rwa [List.filter_cons_of_neg hstarts]

end Token.Tiles

theorem Fragment.StartsAt.of_text {content : String} {t : Token}
    (h : (Fragment.text content).StartsAt t) : t.kind = .text ∧ t.lexeme = content := by
  unfold Fragment.StartsAt at h
  split at h
  · next hkind => exact ⟨hkind, (Fragment.text.inj h).symm⟩
  · obtain ⟨e, he⟩ := h
    cases he
  · exact h.elim

namespace Template

variable {fs : List Fragment} {ts : List Token}

/-- Every fragment is started by a token, in the order of the tokens. -/
theorem startsAt_read (source : String) : List.Forall₂ Fragment.StartsAt (read source).1
    ((Token.scan source).filter Token.startsFragment) := by
  have hsections := Token.sectioned_scan source
  have htokens := Reader.tokens_start hsections.ne_nil
  rw [← htokens] at hsections
  have hcount : ((Reader.start (Token.scan source)).tokens.filter Token.startsFragment).length ≤
      (Token.scan source).length := by
    rw [htokens]
    exact List.length_filter_le _ _
  have hfragments := readFragments_startsAt hsections hcount
  rwa [htokens] at hfragments

theorem text_ne_empty_of_startsAt (h : List.Forall₂ Fragment.StartsAt fs ts)
    (hts : ∀ t ∈ ts, t.kind = .text → t.lexeme ≠ "") :
    ∀ content, .text content ∈ fs → content ≠ "" := by
  induction h with
  | nil => simp
  | cons hf _ ih =>
      obtain ⟨hfirst, hothers⟩ := List.forall_mem_cons.mp hts
      intro content hcontent
      rcases List.mem_cons.mp hcontent with rfl | hcontent
      · obtain ⟨hkind, rfl⟩ := hf.of_text
        exact hfirst hkind
      · exact ih hothers content hcontent

theorem isChain_of_startsAt (h : List.Forall₂ Fragment.StartsAt fs ts)
    (hts : ts.IsChain fun t u => t.kind = .text → u.kind ≠ .text) :
    fs.IsChain fun f g => ∀ a b, f = .text a → g ≠ .text b := by
  induction h with
  | nil => exact .nil
  | cons hf hfs ih =>
      obtain ⟨hnext, hts⟩ := List.isChain_cons.mp hts
      refine List.isChain_cons.mpr ⟨?_, ih hts⟩
      cases hfs with
      | nil => simp
      | cons hg _ =>
          rintro g ⟨⟩ a b rfl rfl
          exact hnext _ rfl hf.of_text.1 hg.of_text.1

end Template

/-- The row of a fragment itself. -/
def Fragment.row : Fragment → OutlineRow
  | .text content => ⟨1, "text", content⟩
  | .expr e => e.row 1

theorem Fragment.eq_text_of_kind_row {f : Fragment} (h : f.row.kind = "text") :
    ∃ content, f = .text content := by
  cases f with
  | text content => exact ⟨content, rfl⟩
  | expr e => exact absurd h (e.kind_row_ne_text 1)

namespace Template

variable {t : Template}

theorem listed_fragments (hexprs : t.Everywhere (·.Shaped))
    (htexts : ∀ content, .text content ∈ t → content ≠ "") :
    OutlineRow.Listed OutlineRow.Shaped 1 (t.map Fragment.row) (t.flatMap Fragment.outline) := by
  induction t with
  | nil => exact .nil
  | cons f t ih =>
      have hfirst : OutlineRow.Listed OutlineRow.Shaped 1 [f.row] f.outline := by
        cases f with
        | text content => exact .leaf (.text_row (htexts content List.mem_cons_self))
        | expr e => exact Expr.WellShaped.outlined (hexprs e List.mem_cons_self) 0
      have hothers := ih (fun e he => hexprs e (List.mem_cons_of_mem _ he))
        (fun content h => htexts content (List.mem_cons_of_mem _ h))
      exact hfirst.append hothers

theorem shaped_root (hapart : t.IsChain fun f g => ∀ a b, f = .text a → g ≠ .text b) :
    OutlineRow.Shaped ⟨0, "root", toString t.length⟩ (t.map Fragment.row) := by
  constructor
  case apart =>
    refine (List.isChain_map _).mpr (hapart.imp ?_)
    intro f g hfg hf hg
    obtain ⟨a, rfl⟩ := Fragment.eq_text_of_kind_row hf
    obtain ⟨b, rfl⟩ := Fragment.eq_text_of_kind_row hg
    exact hfg a b rfl rfl
  all_goals simp

/-- Every node in the tree of a source has its shape, with the parts that the outline gives it: only
the top of the tree is a root, texts are directly below it, neither empty nor next to each other, a
slice has a start, no position in an index is a range, and variables and numbers are spelled as the
scanner cuts them. -/
theorem shaped_outline (source : String) {before behind : List OutlineRow} {node : OutlineRow}
    (h : (read source).1.outline = before ++ node :: behind) :
    (node.kind = "root" ↔ before = []) ∧ node.Shaped (node.parts behind) := by
  have hstarts := startsAt_read source
  have htiles := Token.tiles_scan source
  have htexts := text_ne_empty_of_startsAt hstarts fun t ht =>
    htiles.text_ne_empty t (List.mem_of_mem_filter ht)
  have hfragments := listed_fragments (wellShaped_read source) htexts
  have hroot := shaped_root (isChain_of_startsAt hstarts htiles.isChain_startsFragment)
  have hnode : node.Shaped (node.parts behind) := by
    have hend : ∀ next ∈ ([] : List OutlineRow).head?, next.depth ≤ 0 := by simp
    have hshaped := (OutlineRow.Listed.single hroot hfragments).related hend h
    rwa [List.append_nil] at hshaped
  refine ⟨hnode.root.trans ?_, hnode⟩
  rw [outline] at h
  cases before with
  | nil =>
      obtain ⟨rfl, -⟩ := List.cons.inj h
      simp
  | cons first before =>
      obtain ⟨-, hbelow⟩ := List.cons.inj h
      have hdepth := hfragments.le_depth node (by rw [hbelow]; simp)
      simp [Nat.ne_of_gt hdepth]

/-- A slice without a start in a source that is not closed. -/
theorem shaped_outline_of_unclosed :
    (read "Dear \x7bname[:1_0]..\x7d, \x7blen(x").1.outline =
        [⟨0, "root", "4"⟩, ⟨1, "text", "Dear "⟩] ++ ⟨1, "slice", "closed"⟩ ::
          [⟨2, "ident", "name"⟩, ⟨2, "int", "0"⟩, ⟨2, "int", "1_0"⟩, ⟨1, "text", ", "⟩,
            ⟨1, "call", "1"⟩, ⟨2, "func", "len"⟩, ⟨2, "ident", "x"⟩] ∧
      OutlineRow.Shaped ⟨1, "slice", "closed"⟩
        [⟨2, "ident", "name"⟩, ⟨2, "int", "0"⟩, ⟨2, "int", "1_0"⟩] := by
  have houtline : (read "Dear \x7bname[:1_0]..\x7d, \x7blen(x").1.outline =
      [⟨0, "root", "4"⟩, ⟨1, "text", "Dear "⟩] ++ ⟨1, "slice", "closed"⟩ ::
        [⟨2, "ident", "name"⟩, ⟨2, "int", "0"⟩, ⟨2, "int", "1_0"⟩, ⟨1, "text", ", "⟩,
          ⟨1, "call", "1"⟩, ⟨2, "func", "len"⟩, ⟨2, "ident", "x"⟩] := by decide +kernel
  exact ⟨houtline, (shaped_outline _ houtline).2⟩

end Template

end Phrasebook
