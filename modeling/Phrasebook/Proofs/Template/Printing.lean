import Mathlib
import Phrasebook.Proofs.Evaluation.Nesting
import Phrasebook.Proofs.Template.Shape
import Phrasebook.Proofs.Template.Symbolic

/-!
# Printed trees are told apart

The symbolic form of an expression determines the expression, if this has its shape and is not
invalid. A word stands for a string if it is quoted, for a number if it starts with a digit, and for
a function or a variable otherwise. In front of the parts of a list stands a word for the kind of
the expression; only the two signs are used in front of one part and of two.

So accepted templates that are printed alike are the same, up to literal text, which is printed like
a string (`Template.print_eq_iff`).
-/

namespace Phrasebook

open Text (quoteChars)

theorem map_inj_of_mem {α β : Type} {f : α → β} {xs ys : List α}
    (hf : ∀ x ∈ xs, ∀ y ∈ ys, f x = f y → x = y) (h : xs.map f = ys.map f) : xs = ys := by
  induction xs generalizing ys with
  | nil => exact (List.map_eq_nil_iff.mp h.symm).symm
  | cons x xs ih =>
      cases ys with
      | nil => cases h
      | cons y ys =>
          obtain ⟨hfirst, hothers⟩ := List.cons_eq_cons.mp h
          rw [hf x List.mem_cons_self y List.mem_cons_self hfirst,
            ih (fun x hx y hy => hf x (List.mem_cons_of_mem _ hx) y (List.mem_cons_of_mem _ hy))
              hothers]

namespace Symbolic

theorem ofString_inj {s t : String} : ofString s = ofString t ↔ s = t := by
  simp [ofString, String.toList_inj]

/-- Neither blanks nor parentheses nor quotes are in a class that these are not in. -/
theorem isBare_of {p : Char → Bool} (hp : [' ', '(', ')', '"'].any p = false) {c : Char}
    (h : p c) : isBare c := by
  have hne : ∀ d ∈ [' ', '(', ')', '"'], c ≠ d := by
    rintro d hd rfl
    exact List.any_eq_false.mp hp c hd h
  simp only [List.forall_mem_cons] at hne
  simp [isBare, hne]

end Symbolic

open Symbolic (isBare isBare_of ofString_inj)

namespace Expr

theorem unarySymbol_inj {op op' : UnaryOp} (h : op.symbol = op'.symbol) : op = op' := by
  cases op <;> cases op' <;> first | rfl | exact absurd h (by decide)

theorem binarySymbol_inj {op op' : BinaryOp} (h : op.symbol = op'.symbol) : op = op' := by
  cases op <;> cases op' <;> first | rfl | exact absurd h (by decide)

/-- The kinds of expressions that their symbolic forms tell apart. -/
inductive Form where
  | word
  | unary
  | binary
  | range
  | index
  | slice
  | select
  | call
  | invalid
  deriving DecidableEq

/-- The kind of an expression. -/
def form : Expr → Form
  | .ident _ | .func _ | .literal _ _ => .word
  | .unary _ _ => .unary
  | .binary _ _ _ => .binary
  | .range _ _ => .range
  | .index _ _ => .index
  | .slice _ _ _ => .slice
  | .select _ _ => .select
  | .call _ _ => .call
  | .invalid _ _ => .invalid

/-- The words in front of lists, except for operators. -/
def heads : List (String × Form) :=
  [(":", .range), ("index", .index), ("slice", .slice), ("select", .select), ("call", .call),
    ("invalid", .invalid)]

/-- The kind of expression that is written as a symbolic expression. An operator stands in front of
its operand or between its operands. -/
def formOf : Symbolic → Form
  | .list (.word head :: parts) =>
    match heads.lookup (String.ofList head) with
    | some form => form
    | none => if parts.length = 1 then .unary else .binary
  | _ => .word

theorem formOf_symbolic (e : Expr) : formOf e.symbolic = e.form := by
  cases e with
  | literal kind => cases kind <;> rfl
  | unary op => cases op <;> rfl
  | binary op => cases op <;> rfl
  | range start stop => cases stop <;> rfl
  | slice base start stop => cases stop <;> rfl
  | _ => rfl

theorem form_eq_of_symbolic {e e' : Expr} (heq : e.symbolic = e'.symbolic) : e.form = e'.form := by
  rw [← formOf_symbolic, heq, formOf_symbolic]

/-- Whether the parts of an expression stand behind its head as they are. -/
def Form.isFlat : Form → Bool
  | unary | binary | range | index | slice => true
  | word | select | call | invalid => false

/-- The word in front of the parts of an expression. -/
def head : Expr → String
  | .unary op _ => op.symbol
  | .binary op _ _ => op.symbol
  | .range _ _ => ":"
  | .index _ _ => "index"
  | .slice _ _ _ => "slice"
  | _ => ""

/-- Whether a word can stand in front of a list. -/
def isHead (head : String) : Bool := head != "" && head.toList.all isBare

/-- A list is legible if its parts are. -/
theorem legible_list {head : String} (hhead : isHead head) {parts : List Symbolic}
    (hparts : ∀ p ∈ parts, p.Legible) : (Symbolic.list (.ofString head :: parts)).Legible := by
  obtain ⟨hne, hbare⟩ := Bool.and_eq_true_iff.mp hhead
  have hword : (Symbolic.ofString head).Legible :=
    .bare (by simpa using hne) (List.all_eq_true.mp hbare)
  exact .list (List.forall_mem_cons.mpr ⟨hword, hparts⟩)

section Flat

variable {e e' : Expr} (hflat : e.form.isFlat)

include hflat

theorem symbolic_of_isFlat : e.symbolic = .list (.ofString e.head :: e.parts.map symbolic) := by
  cases e with
  | range start stop => cases stop <;> rfl
  | slice base start stop => cases stop <;> rfl
  | unary | binary | index => rfl
  | _ => cases hflat

theorem isHead_of_isFlat : isHead e.head := by
  have hunary : ∀ op : UnaryOp, isHead op.symbol := fun op => by cases op <;> rfl
  have hbinary : ∀ op : BinaryOp, isHead op.symbol := fun op => by cases op <;> rfl
  cases e with
  | unary op => exact hunary op
  | binary op => exact hbinary op
  | range => exact (rfl : isHead ":" = true)
  | index => exact (rfl : isHead "index" = true)
  | slice => exact (rfl : isHead "slice" = true)
  | _ => cases hflat

/-- Such an expression is determined by its kind, its head and its parts. -/
theorem eq_of_parts (hform : e.form = e'.form) (hhead : e.head = e'.head)
    (hparts : e.parts = e'.parts) : e = e' := by
  cases e with
  | unary op operand =>
      cases e' with
      | unary op' operand' =>
          cases hparts
          rw [unarySymbol_inj hhead]
      | _ => cases hform
  | binary op lhs rhs =>
      cases e' with
      | binary op' lhs' rhs' =>
          cases hparts
          rw [binarySymbol_inj hhead]
      | _ => cases hform
  | range start stop =>
      cases e' with
      | range start' stop' => cases stop <;> cases stop' <;> cases hparts <;> rfl
      | _ => cases hform
  | index base position =>
      cases e' with
      | index base' position' =>
          cases hparts
          rfl
      | _ => cases hform
  | slice base start stop =>
      cases e' with
      | slice base' start' stop' => cases stop <;> cases stop' <;> cases hparts <;> rfl
      | _ => cases hform
  | _ => cases hflat

end Flat

/-- The symbolic form of an option of a selection. -/
def symbolicOption (o : Expr × Expr) : Symbolic :=
  .list [.ofString "opt", o.1.symbolic, o.2.symbolic]

/-- If the parts of an option are determined by their symbolic forms, so is the option. -/
theorem symbolicOption_inj {o o' : Expr × Expr}
    (hpattern : o.1.symbolic = o'.1.symbolic → o.1 = o'.1)
    (hresult : o.2.symbolic = o'.2.symbolic → o.2 = o'.2)
    (h : symbolicOption o = symbolicOption o') : o = o' := by
  obtain ⟨h₁, h₂⟩ : o.1.symbolic = o'.1.symbolic ∧ o.2.symbolic = o'.2.symbolic := by
    simpa [symbolicOption] using h
  exact Prod.ext (hpattern h₁) (hresult h₂)

theorem symbolic_select (value : Expr) (options : List (Expr × Expr)) :
    (select value options).symbolic =
      .list (.ofString "select" :: value.symbolic :: options.map symbolicOption) := by
  have hoptions : symbolic.symbolicOptions options = options.map symbolicOption := by
    induction options with
    | nil => rfl
    | cons option options ih =>
        rw [symbolic.symbolicOptions, ih, List.map_cons]
        rfl
  rw [symbolic, hoptions]

theorem symbolic_call (callee : Expr) (args : List Expr) :
    (call callee args).symbolic =
      .list (.ofString "call" :: callee.symbolic :: args.map symbolic) := by
  have hargs : symbolic.symbolicArgs args = args.map symbolic := by
    induction args with
    | nil => rfl
    | cons arg args ih => rw [symbolic.symbolicArgs, ih, List.map_cons]
  rw [symbolic, hargs]

/-- The name or number that a word without quotes stands for. -/
def ofBare (cs : List Char) : Expr :=
  if cs.head?.any Char.isDigit then .literal (if '.' ∈ cs then .float else .int) (.ofList cs)
  else .ofName (.ofList cs)

/-- The words for names and numbers, and the quoted words for strings. -/
inductive Worded : Expr → List Char → Prop where
  | quoted (lexeme : String) : Worded (.literal .string lexeme) (quoteChars lexeme.toList)
  | bare {cs : List Char} : cs ≠ [] → (∀ c ∈ cs, isBare c) → Worded (ofBare cs) cs

namespace Worded

variable {e e' : Expr} {cs : List Char}

theorem legible (h : e.Worded cs) : (Symbolic.word cs).Legible := by
  cases h with
  | quoted lexeme => exact .quoted _
  | bare hne hbare => exact .bare hne hbare

/-- A word stands for one leaf only. -/
theorem unique (h : e.Worded cs) (h' : e'.Worded cs) : e = e' := by
  cases h with
  | quoted lexeme =>
      generalize hcs : quoteChars lexeme.toList = cs at h'
      cases h' with
      | quoted lexeme' =>
          have hchars : quoteChars lexeme.toList ++ [] = quoteChars lexeme'.toList ++ [] := by
            rw [hcs]
          rw [String.toList_inj.mp (Text.quoteChars_append_inj hchars).1]
      | bare _ hbare =>
          subst hcs
          cases hbare '"' List.mem_cons_self
  | bare _ hbare =>
      cases h' with
      | quoted => cases hbare '"' List.mem_cons_self
      | bare => rfl

theorem name {name : String} (h : Token.IsName name.toList) : (ofName name).Worded name.toList := by
  obtain ⟨c, rest, hcs, hc, hrest⟩ := h
  have hdigit : c.isDigit = false := by
    by_contra hdigit
    simp [Token.isNameStart_of_isDigit (Bool.eq_true_of_not_eq_false hdigit)] at hc
  have hbare : ∀ d ∈ name.toList, isBare d := by
    rw [hcs]
    exact List.forall_mem_cons.mpr ⟨isBare_of (p := Token.isNameStart) rfl hc,
      fun d hd => isBare_of (p := Token.isNamePart) rfl (List.all_eq_true.mp hrest d hd)⟩
  have hofBare : ofBare name.toList = ofName name := by
    rw [ofBare, String.ofList_toList, if_neg]
    simp [hcs, hdigit]
  rw [← hofBare]
  exact .bare (by simp [hcs]) hbare

theorem number {lexeme : String} {c : Char} {rest : List Char} (hcs : lexeme.toList = c :: rest)
    (hc : c.isDigit) (hrest : ∀ d ∈ rest, isBare d) :
    (literal (if '.' ∈ lexeme.toList then .float else .int) lexeme).Worded lexeme.toList := by
  have hbare : ∀ d ∈ lexeme.toList, isBare d := by
    rw [hcs]
    exact List.forall_mem_cons.mpr ⟨isBare_of (p := Char.isDigit) rfl hc, hrest⟩
  have hofBare : ofBare lexeme.toList =
      literal (if '.' ∈ lexeme.toList then .float else .int) lexeme := by
    rw [ofBare, String.ofList_toList, if_pos]
    simp [hcs, hc]
  rw [← hofBare]
  exact .bare (by simp [hcs]) hbare

end Worded

theorem isDigitPart_of_isNumeral {cs : List Char} (h : Token.IsNumeral cs) :
    ∀ c ∈ cs, Token.isDigitPart c := by
  obtain ⟨c, rest, rfl, hc, hrest⟩ := h
  exact List.all_eq_true.mp (Token.isDigitPart_of_numeral hc hrest)

/-- Of the numbers, those with a dot have a fraction. -/
theorem worded_number {kind : LiteralKind} {lexeme : String} (hkind : kind ≠ .string)
    (h : kind.Admits lexeme) : (literal kind lexeme).Worded lexeme.toList := by
  have hpart : ∀ {c : Char}, Token.isDigitPart c → isBare c := isBare_of rfl
  cases kind with
  | string => exact absurd rfl hkind
  | int =>
      obtain ⟨c, rest, hcs, hc, hrest⟩ := id h
      have hdot : '.' ∉ lexeme.toList := by
        intro hdot
        cases isDigitPart_of_isNumeral h _ hdot
      have hword := Worded.number hcs hc fun d hd => hpart (List.all_eq_true.mp hrest d hd)
      rwa [if_neg hdot] at hword
  | float =>
      obtain ⟨_, fraction, hcs, ⟨c, rest, rfl, hc, hrest⟩, hfraction⟩ := h
      have hbare : ∀ d ∈ rest ++ '.' :: fraction, isBare d := by
        refine List.forall_mem_append.mpr ⟨?_, List.forall_mem_cons.mpr ⟨rfl, ?_⟩⟩
        · exact fun d hd => hpart (List.all_eq_true.mp hrest d hd)
        · exact fun d hd => hpart (isDigitPart_of_isNumeral hfraction d hd)
      have hword := Worded.number hcs hc hbare
      rwa [if_pos (by simp [hcs])] at hword

/-- A leaf is written as a word for it. -/
theorem exists_worded {e : Expr} (h : e.Shaped) (hform : e.form = .word) :
    ∃ cs, e.symbolic = .word cs ∧ e.Worded cs := by
  cases e with
  | ident name =>
      obtain ⟨⟨hname, -⟩, hnone⟩ := h
      have hword := Worded.name hname
      rw [ofName, hnone] at hword
      exact ⟨_, rfl, hword⟩
  | func function =>
      have hname : Token.IsName function.name.toList := by
        cases function <;> exact ⟨_, _, rfl, rfl, rfl⟩
      have hword := Worded.name hname
      rw [ofName, Builtin.ofName?_name] at hword
      exact ⟨_, rfl, hword⟩
  | literal kind lexeme =>
      cases kind with
      | string => exact ⟨_, rfl, .quoted lexeme⟩
      | int => exact ⟨_, rfl, worded_number (by decide) h⟩
      | float => exact ⟨_, rfl, worded_number (by decide) h⟩
  | _ => cases hform

/-- All expressions in a tree have their shape and are not invalid. -/
def Printable (e : Expr) : Prop := e.WellShaped ∧ e.Everywhere (·.isInvalid = false)

namespace Printable

variable {e e' : Expr}

theorem of_mem_parts (h : e.Printable) {p : Expr} (hp : p ∈ e.parts) : p.Printable := by
  obtain ⟨⟨-, hshaped⟩, ⟨-, hvalid⟩⟩ := h
  exact ⟨hshaped p hp, hvalid p hp⟩

/-- A function that is called by its name is no part of the call, but it is printed. -/
theorem callee {callee : Expr} {args : List Expr} (h : (Expr.call callee args).Printable) :
    callee.Printable := by
  cases callee with
  | func => exact ⟨.leaf trivial rfl, .leaf rfl rfl⟩
  | _ => exact h.of_mem_parts List.mem_cons_self

theorem legible_of_word (h : e.Printable) (hform : e.form = .word) : e.symbolic.Legible := by
  obtain ⟨cs, hsymbolic, hword⟩ := exists_worded h.1.own hform
  rw [hsymbolic]
  exact hword.legible

theorem eq_of_word (h : e.Printable) (h' : e'.Printable) (hform : e.form = .word)
    (heq : e.symbolic = e'.symbolic) : e = e' := by
  obtain ⟨cs, hsymbolic, hword⟩ := exists_worded h.1.own hform
  obtain ⟨cs', hsymbolic', hword'⟩ :=
    exists_worded h'.1.own ((form_eq_of_symbolic heq).symm.trans hform)
  rw [hsymbolic, hsymbolic'] at heq
  cases heq
  exact hword.unique hword'

end Printable

/-- The symbolic form of an expression is legible. -/
theorem legible_symbolic {e : Expr} (h : e.Printable) : e.symbolic.Legible := by
  induction e using induct_parts with
  | step e ih =>
      have hparts : ∀ p ∈ e.parts, p.symbolic.Legible := fun p hp => ih p hp (h.of_mem_parts hp)
      by_cases hflat : e.form.isFlat
      · rw [symbolic_of_isFlat hflat]
        exact legible_list (isHead_of_isFlat hflat) (List.forall_mem_map.mpr hparts)
      cases e with
      | ident | func | literal => exact h.legible_of_word rfl
      | select value options =>
          have hoptions : ∀ o ∈ options, (symbolicOption o).Legible := by
            intro o ho
            have hpattern := hparts o.1 (mem_parts_option ho).1
            have hresult := hparts o.2 (mem_parts_option ho).2
            exact legible_list rfl (by simpa using ⟨hpattern, hresult⟩)
          rw [symbolic_select]
          exact legible_list rfl (List.forall_mem_cons.mpr
            ⟨hparts value List.mem_cons_self, List.forall_mem_map.mpr hoptions⟩)
      | call callee args =>
          have hcallee : callee.symbolic.Legible := by
            cases callee with
            -- no part of the call, so that the induction does not speak of it
            | func => exact h.callee.legible_of_word rfl
            | _ => exact hparts _ List.mem_cons_self
          have hargs : ∀ a ∈ args, a.symbolic.Legible := fun a ha => hparts a (mem_parts_arg ha)
          rw [symbolic_call]
          exact legible_list rfl
            (List.forall_mem_cons.mpr ⟨hcallee, List.forall_mem_map.mpr hargs⟩)
      | invalid => cases h.2.own
      | _ => exact absurd rfl hflat

/-- An expression is determined by its symbolic form. -/
theorem symbolic_inj {e e' : Expr} (h : e.Printable) (h' : e'.Printable)
    (heq : e.symbolic = e'.symbolic) : e = e' := by
  induction e using induct_parts generalizing e' with
  | step e ih =>
      have hpart : ∀ p ∈ e.parts, ∀ p' ∈ e'.parts, p.symbolic = p'.symbolic → p = p' :=
        fun p hp p' hp' => ih p hp (h.of_mem_parts hp) (h'.of_mem_parts hp')
      have hform := form_eq_of_symbolic heq
      by_cases hflat : e.form.isFlat
      · rw [symbolic_of_isFlat hflat, symbolic_of_isFlat (hform ▸ hflat)] at heq
        obtain ⟨hhead, hparts⟩ : e.head = e'.head ∧
            e.parts.map symbolic = e'.parts.map symbolic := by
          simpa [ofString_inj] using heq
        exact eq_of_parts hflat hform hhead (map_inj_of_mem hpart hparts)
      cases e with
      | ident | func | literal => exact h.eq_of_word h' rfl heq
      | select value options =>
          cases e' with
          | select value' options' =>
              rw [symbolic_select, symbolic_select] at heq
              obtain ⟨hvalue, hoptions⟩ : value.symbolic = value'.symbolic ∧
                  options.map symbolicOption = options'.map symbolicOption := by
                simpa using heq
              have hoption : ∀ o ∈ options, ∀ o' ∈ options',
                  symbolicOption o = symbolicOption o' → o = o' := fun o ho o' ho' =>
                symbolicOption_inj
                  (hpart _ (mem_parts_option ho).1 _ (mem_parts_option ho').1)
                  (hpart _ (mem_parts_option ho).2 _ (mem_parts_option ho').2)
              rw [hpart value List.mem_cons_self value' List.mem_cons_self hvalue,
                map_inj_of_mem hoption hoptions]
          | _ => cases hform
      | call callee args =>
          cases e' with
          | call callee' args' =>
              rw [symbolic_call, symbolic_call] at heq
              obtain ⟨hcallee, hargs⟩ : callee.symbolic = callee'.symbolic ∧
                  args.map symbolic = args'.map symbolic := by
                simpa using heq
              have hsame : callee = callee' := by
                cases callee with
                | func => exact h.callee.eq_of_word h'.callee rfl hcallee
                | _ => exact ih _ List.mem_cons_self h.callee h'.callee hcallee
              have harg : ∀ a ∈ args, ∀ a' ∈ args', a.symbolic = a'.symbolic → a = a' :=
                fun a ha a' ha' => hpart a (mem_parts_arg ha) a' (mem_parts_arg ha')
              rw [hsame, map_inj_of_mem harg hargs]
          | _ => cases hform
      | invalid => cases h.2.own
      | _ => exact absurd rfl hflat

end Expr

/-- A fragment as an expression. Literal text is a string. -/
def Fragment.asExpr : Fragment → Expr
  | .text content => .literal .string content
  | .expr content => content

theorem Fragment.symbolic_asExpr (f : Fragment) : f.asExpr.symbolic = f.symbolic := by
  cases f <;> rfl

namespace Template

theorem print_eq (t : Template) :
    t.print =
      .ofList (Symbolic.chars.charsOfItems ((t.map Fragment.asExpr).map Expr.symbolic)) := by
  rw [print, List.map_map]
  congr 3
  funext f
  exact f.symbolic_asExpr.symm

theorem printable_of_parse {source : String} {t : Template} (h : parse source = .ok t) :
    ∀ e ∈ t.map Fragment.asExpr, e.Printable := by
  obtain ⟨ls, -, hspelled⟩ := exists_spelled_of_parse h
  have hshaped := wellShaped_read source
  rw [read_of_parse h] at hshaped
  refine List.forall_mem_map.mpr fun f hf => ?_
  cases f with
  | text content => exact ⟨.leaf trivial rfl, .leaf rfl rfl⟩
  | expr e => exact ⟨hshaped e hf, hspelled.everywhere_valid e hf⟩

/-- Accepted templates that are printed alike are the same, up to literal text in the place of
strings among their fragments. -/
theorem print_eq_iff {source source' : String} {t u : Template} (h : parse source = .ok t)
    (h' : parse source' = .ok u) :
    t.print = u.print ↔ t.map Fragment.asExpr = u.map Fragment.asExpr := by
  have ht := printable_of_parse h
  have hu := printable_of_parse h'
  rw [print_eq, print_eq, String.ofList_inj]
  constructor
  · intro hchars
    have hsymbolic := Symbolic.charsOfItems_inj
      (List.forall_mem_map.mpr fun e he => Expr.legible_symbolic (ht e he))
      (List.forall_mem_map.mpr fun e he => Expr.legible_symbolic (hu e he)) hchars
    exact map_inj_of_mem (fun e he e' he' => Expr.symbolic_inj (ht e he) (hu e' he')) hsymbolic
  · intro hsame
    rw [hsame]

/-- Literal text is printed like a string in braces. -/
theorem print_eq_iff_of_letter : ∃ t u, parse "a\x7b1\x7d" = .ok t ∧
    parse "\x7b\"a\"\x7d\x7b1\x7d" = .ok u ∧ t ≠ u ∧ t.print = u.print := by
  have ht : parse "a\x7b1\x7d" = .ok [.text "a", .expr (.literal .int "1")] := rfl
  have hu : parse "\x7b\"a\"\x7d\x7b1\x7d" =
      .ok [.expr (.literal .string "a"), .expr (.literal .int "1")] := rfl
  exact ⟨_, _, ht, hu, by simp, (print_eq_iff ht hu).mpr rfl⟩

end Template

end Phrasebook
