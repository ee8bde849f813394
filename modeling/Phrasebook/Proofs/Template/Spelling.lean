import Mathlib
import Phrasebook.Proofs.Template.Lexeme

/-!
# The ways to spell an expression

An expression can be written in several ways: with parentheses around any operand, with or without a
comma behind the last item of a list, and without the start of a range that starts at zero.
`Expr.Spelled` collects all of them.

What the ways have in common is found without knowledge of the tree: `Lexeme.normal` takes away the
parentheses that group and the trailing commas, and writes the implicit start of a range. Whether a
parenthesis groups shows in the lexeme in front of it, since the parentheses of a call stand behind
an operand, and those of a selection behind its arrow. All ways to spell an expression have the same
normal form, which is one of them (`Expr.Spelled.normal`, `Expr.Spelled.lexemes`).
-/

namespace Phrasebook

open Lexeme (symbol separated)

/-- Whether a parenthesis behind a lexeme of a category opens a list of arguments or options. Behind
all others a parenthesis groups, and a colon has no start in front of it. -/
def Token.Kind.opensList : Token.Kind → Bool
  | ident | int | float | string | rParen | rBrack | equalGreater => true
  | _ => false

namespace Lexeme

/-- The start of a range that is left out. -/
def zero : Lexeme := ⟨.int, "0"⟩

/-- Lexemes without grouping parentheses and trailing commas, and with the starts of ranges that
are left out. The arguments tell which of the open parentheses group, the innermost first, and
whether a parenthesis at this place would open a list. -/
def normal : List Bool → Bool → List Lexeme → List Lexeme
  | _, _, [] => []
  | groups, opens, l :: ls =>
    match l.kind with
    | .lParen =>
      if opens then l :: normal (false :: groups) false ls else normal (true :: groups) false ls
    | .rParen =>
      if groups.headD false then normal groups.tail true ls else l :: normal groups.tail true ls
    | .comma =>
      if (ls.head?.map kind) = some .rParen then normal groups false ls
      else l :: normal groups false ls
    | .colon =>
      if opens then l :: normal groups false ls else zero :: l :: normal groups false ls
    | kind => l :: normal groups kind.opensList ls

variable (groups : List Bool) (opens : Bool) (ls : List Lexeme)

@[simp] theorem normal_lParen_group :
    normal groups false (symbol .lParen :: ls) = normal (true :: groups) false ls := rfl

@[simp] theorem normal_lParen_list :
    normal groups true (symbol .lParen :: ls) =
      symbol .lParen :: normal (false :: groups) false ls := rfl

@[simp] theorem normal_rParen_group :
    normal (true :: groups) opens (symbol .rParen :: ls) = normal groups true ls := rfl

@[simp] theorem normal_rParen_list :
    normal (false :: groups) opens (symbol .rParen :: ls) =
      symbol .rParen :: normal groups true ls := rfl

@[simp] theorem normal_colon_start :
    normal groups true (symbol .colon :: ls) = symbol .colon :: normal groups false ls := rfl

@[simp] theorem normal_colon_zero :
    normal groups false (symbol .colon :: ls) =
      zero :: symbol .colon :: normal groups false ls := rfl

@[simp] theorem normal_comma_last :
    normal groups opens (symbol .comma :: symbol .rParen :: ls) =
      normal groups false (symbol .rParen :: ls) := rfl

theorem normal_comma {l : Lexeme} (h : l.kind ≠ .rParen) :
    normal groups opens (symbol .comma :: l :: ls) =
      symbol .comma :: normal groups false (l :: ls) := by
  rw [normal]
  simp [h]

/-- The flag does not matter where a parenthesis closes. -/
theorem normal_rParen (opens' : Bool) :
    normal groups opens (symbol .rParen :: ls) = normal groups opens' (symbol .rParen :: ls) := rfl

/-- Every other lexeme stays. -/
theorem normal_cons {l : Lexeme}
    (h : l.kind ≠ .lParen ∧ l.kind ≠ .rParen ∧ l.kind ≠ .comma ∧ l.kind ≠ .colon) :
    normal groups opens (l :: ls) = l :: normal groups l.kind.opensList ls := by
  rw [normal]
  split <;> simp_all

end Lexeme

namespace Expr

/-- The number at which a range starts if it has no start. -/
abbrev zero : Expr := .literal .int "0"

/-- The lexemes spell the expression. The flag is false for an expression that ends with the colon
of a range without an end. -/
inductive Spelled : Expr → List Lexeme → Bool → Prop where
  | name (name : String) : Spelled (.ofName name) [⟨.ident, name⟩] true
  | literal (kind : LiteralKind) (lexeme : String) :
      Spelled (.literal kind lexeme) [⟨kind.token, lexeme⟩] true
  | group {e : Expr} {ls : List Lexeme} : Spelled e ls true →
      Spelled e (symbol .lParen :: ls ++ [symbol .rParen]) true
  | unary (op : UnaryOp) {e : Expr} {ls : List Lexeme} {closed : Bool} : Spelled e ls closed →
      Spelled (.unary op e) (symbol op.token :: ls) closed
  | binary (op : BinaryOp) {lhs rhs : Expr} {ls rs : List Lexeme} {closed : Bool} :
      Spelled lhs ls true → Spelled rhs rs closed →
      Spelled (.binary op lhs rhs) (ls ++ symbol op.token :: rs) closed
  | range {start stop : Expr} {ls rs : List Lexeme} {closed : Bool} :
      Spelled start ls true → Spelled stop rs closed →
      Spelled (.range start (some stop)) (ls ++ symbol .colon :: rs) closed
  | openRange {start : Expr} {ls : List Lexeme} : Spelled start ls true →
      Spelled (.range start none) (ls ++ [symbol .colon]) false
  | rangeFromZero {stop : Expr} {rs : List Lexeme} {closed : Bool} : Spelled stop rs closed →
      Spelled (.range zero (some stop)) (symbol .colon :: rs) closed
  | openRangeFromZero : Spelled (.range zero none) [symbol .colon] false
  | index {base position : Expr} {ls ps : List Lexeme} {closed : Bool} :
      Spelled base ls true → Spelled position ps closed →
      Spelled (Template.indexed base position)
        (ls ++ symbol .lBrack :: ps ++ [symbol .rBrack]) true
  | select {value : Expr} {ls : List Lexeme} (trailing : Bool)
      (items : List ((Expr × Expr) × (List Lexeme × List Lexeme))) : Spelled value ls true →
      (∀ i ∈ items, Spelled i.1.1 i.2.1 true) → (∀ i ∈ items, Spelled i.1.2 i.2.2 true) →
      Spelled (.select value (items.map (·.1)))
        (ls ++ symbol .equalGreater :: symbol .lParen ::
          separated trailing (items.map fun i => i.2.1 ++ symbol .equal :: i.2.2) ++
            [symbol .rParen]) true
  | call {callee : Expr} {ls : List Lexeme} (trailing : Bool)
      (items : List (Expr × List Lexeme)) : Spelled callee ls true →
      (∀ i ∈ items, Spelled i.1 i.2 true) →
      Spelled (.call callee (items.map (·.1)))
        (ls ++ symbol .lParen :: separated trailing (items.map (·.2)) ++ [symbol .rParen]) true

theorem lexemes_indexed (base position : Expr) :
    (Template.indexed base position).lexemes =
      base.lexemes ++ symbol .lBrack :: position.lexemes ++ [symbol .rBrack] := by
  cases position <;> simp [Template.indexed, lexemes, lexemesWith]

theorem lexemes_range (start stop : Expr) :
    (range start (some stop)).lexemes = start.lexemes ++ symbol .colon :: stop.lexemes := rfl

theorem lexemes_select (value : Expr) (options : List (Expr × Expr)) :
    (select value options).lexemes =
      value.lexemes ++ symbol .equalGreater :: symbol .lParen ::
        separated false (options.map fun o => o.1.lexemes ++ symbol .equal :: o.2.lexemes) ++
          [symbol .rParen] := by
  simp [lexemes, lexemesWith, lexemesWith.ofOptions_eq_map]

theorem lexemes_call (callee : Expr) (args : List Expr) :
    (call callee args).lexemes =
      callee.lexemes ++ symbol .lParen :: separated false (args.map lexemes) ++
        [symbol .rParen] := by
  simp [lexemes, lexemesWith, lexemesWith.ofArgs_eq_map]

namespace Spelled

variable {e : Expr} {ls : List Lexeme} {closed : Bool}

/-- A spelling starts with a lexeme that closes nothing. -/
theorem exists_cons (h : e.Spelled ls closed) :
    ∃ l rest, ls = l :: rest ∧ l.kind ≠ .rParen := by
  induction h with
  | name => exact ⟨_, _, rfl, by simp⟩
  | literal kind => exact ⟨_, _, rfl, by cases kind <;> simp [LiteralKind.token]⟩
  | group => exact ⟨_, _, rfl, by simp⟩
  | unary op => exact ⟨_, _, rfl, by cases op <;> simp [UnaryOp.token]⟩
  | rangeFromZero => exact ⟨_, _, rfl, by simp⟩
  | openRangeFromZero => exact ⟨_, _, rfl, by simp⟩
  | binary _ _ _ ih | range _ _ ih | openRange _ ih | index _ _ ih | select _ _ _ _ _ ih
  | call _ _ _ _ ih =>
      obtain ⟨l, rest, rfl, hl⟩ := ih
      exact ⟨l, _, rfl, hl⟩

/-- If each item of a list has a normal form that does not depend on what is around it, the list
has the normal form of those, and a trailing comma makes no difference. -/
theorem normal_separated {α : Type} (trailing : Bool) (items : List α)
    (spelling plain : α → List Lexeme)
    (hstart : ∀ i ∈ items, ∃ l rest, spelling i = l :: rest ∧ l.kind ≠ .rParen)
    (hitems : ∀ i ∈ items, ∀ groups rest, Lexeme.normal groups false (spelling i ++ rest) =
      plain i ++ Lexeme.normal groups true rest)
    (groups : List Bool) (rest : List Lexeme) :
    Lexeme.normal groups false (separated trailing (items.map spelling) ++ symbol .rParen :: rest) =
      separated false (items.map plain) ++ Lexeme.normal groups true (symbol .rParen :: rest) := by
  induction items with
  | nil => rfl
  | cons i items ih =>
      have first := hitems i (by simp) groups
      cases items with
      | nil =>
          cases trailing with
          | false => exact first _
          | true => simp [separated, first, Lexeme.normal_rParen groups false rest true]
      | cons j items =>
          have others := ih (fun i hi => hstart i (by simp [hi]))
            fun i hi => hitems i (by simp [hi])
          obtain ⟨l, tail, hj, hl⟩ := hstart j (by simp)
          obtain ⟨more, hmore⟩ : ∃ more, separated trailing ((j :: items).map spelling) ++
              symbol .rParen :: rest = l :: more := by
            cases items <;> cases trailing <;> simp [separated, hj]
          simp only [List.map_cons] at others hmore
          simp only [List.map_cons, separated, List.append_assoc, List.cons_append, first]
          rw [hmore, Lexeme.normal_comma groups true _ hl, ← hmore, others]

/-- All spellings of an expression have the same normal form, wherever they stand. -/
theorem normal (h : e.Spelled ls closed) (groups : List Bool) (rest : List Lexeme) :
    Lexeme.normal groups false (ls ++ rest) = e.lexemes ++ Lexeme.normal groups closed rest := by
  -- What stands behind is arbitrary, so that the parts of a whole can be put together.
  induction h generalizing groups rest with
  | name name =>
      rw [lexemes, lexemesWith_ofName]
      rfl
  | literal kind lexeme => cases kind <;> rfl
  | group _ ih => simp [ih]
  | unary op _ ih =>
      cases op <;> simpa [lexemes, lexemesWith, UnaryOp.token, Token.Kind.opensList,
        Lexeme.normal_cons] using ih groups rest
  | binary op _ _ ihl ihr =>
      cases op <;> simp [ihl, ihr, lexemes, lexemesWith, BinaryOp.token, Token.Kind.opensList,
        Lexeme.normal_cons]
  | range _ _ ihs ihe => simp [ihs, ihe, lexemes_range]
  | openRange _ ih => simp [ih, lexemes, lexemesWith, lexemesWith.ofStop]
  | rangeFromZero _ ih => simp [ih, lexemes_range]; rfl
  | openRangeFromZero => rfl
  | index _ _ ihb ihp =>
      simp [ihb, ihp, lexemes_indexed, Token.Kind.opensList, Lexeme.normal_cons]
  | select trailing items _ hp hr ihv ihp ihr =>
      have list := normal_separated trailing items
        (fun i => i.2.1 ++ symbol .equal :: i.2.2)
        (fun i => i.1.1.lexemes ++ symbol .equal :: i.1.2.lexemes)
        (fun i hi => by
          obtain ⟨l, tail, hls, hl⟩ := (hp i hi).exists_cons
          exact ⟨l, tail ++ symbol .equal :: i.2.2, by simp [hls], hl⟩)
        (fun i hi groups rest => by
          simp [ihp i hi, ihr i hi, Token.Kind.opensList, Lexeme.normal_cons])
        (false :: groups) rest
      simp [ihv, lexemes_select, Token.Kind.opensList, Lexeme.normal_cons, list,
        Function.comp_def]
  | call trailing items _ hi ihc ihi =>
      have list := normal_separated trailing items (·.2) (·.1.lexemes)
        (fun i hmem => (hi i hmem).exists_cons) ihi (false :: groups) rest
      simp [ihc, lexemes_call, list, Function.comp_def]

/-- Without grouping and trailing commas, the lexemes of an expression are a spelling as well. -/
theorem lexemes (h : e.Spelled ls closed) : e.Spelled e.lexemes closed := by
  induction h with
  | name name =>
      rw [Expr.lexemes, lexemesWith_ofName]
      exact .name name
  | literal kind lexeme => exact .literal kind lexeme
  | group _ ih => exact ih
  | unary op _ ih => exact .unary op ih
  | binary op _ _ ihl ihr => exact .binary op ihl ihr
  | range _ _ ihs ihe => exact .range ihs ihe
  | openRange _ ih => exact .openRange ih
  | rangeFromZero _ ih => exact .range (.literal .int "0") ih
  | openRangeFromZero => exact .openRange (.literal .int "0")
  | index _ _ ihb ihp => exact lexemes_indexed _ _ ▸ .index ihb ihp
  | select trailing items _ _ _ ihv ihp ihr =>
      have plain := Spelled.select false
        (items.map fun i => (i.1, (i.1.1.lexemes, i.1.2.lexemes))) ihv
        (List.forall_mem_map.mpr ihp) (List.forall_mem_map.mpr ihr)
      simpa [lexemes_select, Function.comp_def] using plain
  | call trailing items _ _ ihc ihi =>
      have plain := Spelled.call false (items.map fun i => (i.1, i.1.lexemes)) ihc
        (List.forall_mem_map.mpr ihi)
      simpa [lexemes_call, Function.comp_def] using plain

end Spelled

end Expr

/-- The lexemes spell a fragment: literal text, or an expression in braces. -/
inductive Fragment.Spelled : Fragment → List Lexeme → Prop where
  | text (content : String) : Spelled (.text content) [⟨.text, content⟩]
  | expr {e : Expr} {ls : List Lexeme} : e.Spelled ls true →
      Spelled (.expr e) (symbol .enterExpr :: ls ++ [symbol .leaveExpr])

theorem Fragment.Spelled.ne_nil {f : Fragment} {ls : List Lexeme} (h : f.Spelled ls) : ls ≠ [] := by
  cases h <;> simp

namespace Template

/-- The lexemes spell a template, fragment by fragment. -/
inductive Spelled : Template → List Lexeme → Prop where
  | nil : Spelled [] []
  | cons {f : Fragment} {t : Template} {ls ms : List Lexeme} : f.Spelled ls → Spelled t ms →
      Spelled (f :: t) (ls ++ ms)

namespace Spelled

variable {t : Template} {ls : List Lexeme}

/-- All spellings of a template have the same normal form. -/
theorem normal (h : t.Spelled ls) : Lexeme.normal [] false ls = t.lexemes := by
  induction h with
  | nil => rfl
  | cons hf _ ih =>
      cases hf with
      | text content =>
          simp [Template.lexemes, Lexeme.normal_cons, Token.Kind.opensList, ih]
      | expr he =>
          simp [Template.lexemes, Lexeme.normal_cons, Token.Kind.opensList, ih, he.normal]

theorem lexemes (h : t.Spelled ls) : t.Spelled t.lexemes := by
  induction h with
  | nil => exact .nil
  | cons hf _ ih =>
      cases hf with
      | text content => exact .cons (.text content) ih
      | expr he => exact .cons (.expr he.lexemes) ih

end Spelled

end Template

end Phrasebook
