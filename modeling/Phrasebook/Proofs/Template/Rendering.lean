import Mathlib
import Phrasebook.Proofs.Template.Escaping
import Phrasebook.Proofs.Template.Scanner

/-!
# Writing an expression as source

An expression that a template can contain is written with blanks between its lexemes, with its
quoted literals escaped, and with the parentheses that it needs and no others: an operand is grouped
exactly if its operator binds weaker than its place asks for. The tokens of what is written are the
lexemes again (`scan_source`).
-/

namespace Phrasebook

open Lexeme (symbol group separated)

/-- Whether a category of symbols or keywords belongs to expressions. -/
def Token.Kind.isInner : Token.Kind → Bool
  | enterExpr | leaveExpr => false
  | kind => kind.isFixed

/-- Whether an expression can start with a category. Lists, brackets and the input end at the
others. -/
def Token.Kind.startsExpr : Token.Kind → Bool
  | rParen | rBrack | leaveExpr | eof => false
  | _ => true

namespace Lexeme

/-- The characters of a quoted literal with a backslash before each quote and backslash. -/
def escape : List Char → List Char
  | [] => []
  | c :: cs => if c = '"' ∨ c = '\\' then '\\' :: c :: escape cs else c :: escape cs

theorem escape_eq (cs : List Char) : escape cs = Token.escaped '"' cs := by
  induction cs with
  | nil => rfl
  | cons c cs ih => rw [escape, Token.escaped, ih]

/-- A lexeme as it stands in the source. -/
def chars (l : Lexeme) : List Char :=
  if l.kind = .string then '"' :: escape l.text.toList ++ ['"'] else l.text.toList

/-- Lexemes with a blank between any two of them. -/
def spaced : List Lexeme → List Char
  | [] => []
  | [l] => l.chars
  | l :: ls => l.chars ++ ' ' :: spaced ls

/-- In front of a blank or a closing brace, exactly the lexeme is cut off the input. -/
structure Readable (l : Lexeme) : Prop where
  ne_leave : l.kind ≠ .leaveExpr
  decode : Token.decode l.kind l.chars = l.text.toList
  cut : ∃ c cs, l.chars = c :: cs ∧ Token.isBlank c = false ∧
    ∀ next tail, next = ' ' ∨ next = '}' →
      Token.cutExpr c (cs ++ next :: tail) = ⟨l.kind, l.chars, next :: tail⟩

end Lexeme

namespace Token

/-- The characters of a name. -/
def IsName (cs : List Char) : Prop :=
  ∃ c rest, cs = c :: rest ∧ isNameStart c ∧ rest.all isNamePart

/-- The characters of a number without a fraction. -/
def IsNumeral (cs : List Char) : Prop :=
  ∃ c rest, cs = c :: rest ∧ c.isDigit ∧ rest.all isDigitPart

end Token

/-- The texts that a literal can have. Every text can be quoted. -/
def LiteralKind.Admits : LiteralKind → String → Prop
  | string, _ => True
  | int, text => Token.IsNumeral text.toList
  | float, text => ∃ whole fraction, text.toList = whole ++ '.' :: fraction ∧
      Token.IsNumeral whole ∧ Token.IsNumeral fraction

namespace Expr

/-- The expressions that can be written as source: names are neither keywords nor those of builtin
functions, and ranges occur in brackets only. -/
inductive Writable : Expr → Prop where
  | ident {name : String} : Token.IsName name.toList → Token.Kind.ofWord name.toList = .ident →
      Builtin.ofName? name = none → Writable (.ident name)
  | func (function : Builtin) : Writable (.func function)
  | literal {kind : LiteralKind} {lexeme : String} : kind.Admits lexeme →
      Writable (.literal kind lexeme)
  | unary (op : UnaryOp) {operand : Expr} : Writable operand → Writable (.unary op operand)
  | binary (op : BinaryOp) {lhs rhs : Expr} : Writable lhs → Writable rhs →
      Writable (.binary op lhs rhs)
  | index {base position : Expr} : Writable base → Writable position →
      Writable (.index base position)
  | slice {base start : Expr} {stop : Option Expr} : Writable base → Writable start →
      (∀ e ∈ stop, Writable e) → Writable (.slice base start stop)
  | select {value : Expr} {options : List (Expr × Expr)} : Writable value →
      (∀ o ∈ options, Writable o.1) → (∀ o ∈ options, Writable o.2) →
      Writable (.select value options)
  | call {callee : Expr} {args : List Expr} : Writable callee → (∀ a ∈ args, Writable a) →
      Writable (.call callee args)

/-- The number of operators, brackets, selections and calls in an expression: of all its nodes but
the leaves. -/
def operations : Expr → Nat
  | .unary _ operand => operand.operations + 1
  | .binary _ lhs rhs => lhs.operations + rhs.operations + 1
  | .range start stop => start.operations + ofStop stop + 1
  | .index base position => base.operations + position.operations + 1
  | .slice base start stop => base.operations + start.operations + ofStop stop + 1
  | .select value options => value.operations + ofOptions options + 1
  | .call callee args => callee.operations + ofArgs args + 1
  | .ident _ | .func _ | .literal _ _ | .invalid _ _ => 0
where
  /-- The operations in the end of a range. -/
  ofStop : Option Expr → Nat
    | none => 0
    | some stop => stop.operations
  /-- The operations in the arguments of a call. -/
  ofArgs : List Expr → Nat
    | [] => 0
    | arg :: args => arg.operations + ofArgs args
  /-- The operations in the options of a selection. -/
  ofOptions : List (Expr × Expr) → Nat
    | [] => 0
    | (pattern, result) :: options => pattern.operations + result.operations + ofOptions options

theorem operations_le_ofArgs {arg : Expr} {args : List Expr} (h : arg ∈ args) :
    arg.operations ≤ operations.ofArgs args := by
  induction args with
  | nil => cases h
  | cons head args ih =>
      rw [operations.ofArgs]
      rcases List.mem_cons.mp h with rfl | h
      · omega
      · have := ih h
        omega

theorem operations_le_ofOptions {option : Expr × Expr} {options : List (Expr × Expr)}
    (h : option ∈ options) :
    option.1.operations + option.2.operations ≤ operations.ofOptions options := by
  induction options with
  | nil => cases h
  | cons head options ih =>
      rw [operations.ofOptions]
      rcases List.mem_cons.mp h with rfl | h
      · omega
      · have := ih h
        omega

/-- Whether the outermost operator binds weaker than a rank. -/
def weaker (rank : Nat) (e : Expr) : Bool := e.power.rank < rank

/-- The lexemes of an expression with the parentheses that it needs. -/
abbrev written (e : Expr) : List Lexeme := e.lexemesWith weaker

/-- An expression as source, between braces. -/
def source (e : Expr) : String := .ofList ('{' :: Lexeme.spaced e.written ++ ['}'])

end Expr

namespace Token

/-- Neither a blank nor a quote nor a closing brace is in a class that these are not in. -/
theorem not_delimiter {p : Char → Bool}
    (hp : [' ', '\t', '\r', '\n', '}', '\'', '"', '\x60'].any p = false) {c : Char} (h : p c) :
    isBlank c = false ∧ c ≠ '}' ∧ isQuote c = false := by
  have hne : ∀ d ∈ [' ', '\t', '\r', '\n', '}', '\'', '"', '\x60'], c ≠ d := by
    rintro d hd rfl
    exact List.any_eq_false.mp hp c hd h
  simp only [List.forall_mem_cons] at hne
  simp [isBlank, isQuote, hne]

theorem isNameStart_of_isDigit {c : Char} (h : c.isDigit) : isNameStart c = false := by
  have hne : c ≠ '_' := by rintro rfl; simp at h
  have hrange : 48 ≤ c.toNat ∧ c.toNat ≤ 57 := by
    simpa [Char.isDigit, UInt32.le_iff_toNat_le] using h
  simp [isNameStart, hne, Char.isAlpha, Char.isUpper, Char.isLower, UInt32.le_iff_toNat_le]
  omega

theorem isDigitPart_of_numeral {c : Char} {rest : List Char} (hc : c.isDigit)
    (hrest : rest.all isDigitPart) : (c :: rest).all isDigitPart := by
  simp [isDigitPart, hc, hrest]

theorem takeWhile_append_of_stop {p : Char → Bool} {cs : List Char} (h : cs.all p)
    {next : Char} (hnext : p next = false) (tail : List Char) :
    (cs ++ next :: tail).takeWhile p = cs ∧ (cs ++ next :: tail).dropWhile p = next :: tail := by
  have hall := List.all_eq_true.mp h
  rw [List.takeWhile_append_of_pos hall, List.dropWhile_append_of_pos hall]
  simp [hnext]

theorem quotedSpan_escape (cs : List Char) (next : Char) (tail : List Char) :
    quotedSpan '"' (Lexeme.escape cs ++ '"' :: next :: tail) =
      (Lexeme.escape cs ++ ['"'], next :: tail) := by
  rw [Lexeme.escape_eq, quotedSpan_escaped (by decide)]

theorem decodeQuoted_escape (cs : List Char) :
    decodeQuoted '"' (Lexeme.escape cs ++ ['"']) = cs := by
  rw [Lexeme.escape_eq, decodeQuoted_escaped (by decide)]

/-- Behind the blanks, the next token of an expression is cut off. -/
theorem scanFrom_expr {blanks : List Char} (hblanks : blanks.all isBlank) {c : Char}
    (hc : isBlank c = false) (rest : List Char) (bound offset : Nat) :
    scanFrom (bound + 1) .expr offset (blanks ++ c :: rest) =
      ⟨(cutExpr c rest).kind, .ofList (decode (cutExpr c rest).kind (cutExpr c rest).span),
          offset + byteSize blanks⟩ ::
        scanFrom bound (Mode.expr.after (cutExpr c rest).kind)
          (offset + byteSize blanks + byteSize (cutExpr c rest).span) (cutExpr c rest).rest := by
  obtain ⟨htake, hdrop⟩ := takeWhile_append_of_stop hblanks hc rest
  simp only [scanFrom, Mode.blanks, Mode.skipBlanks, Mode.cut, htake, hdrop]

end Token

namespace Lexeme

theorem readable_symbol {kind : Token.Kind} (h : kind.isInner) : (symbol kind).Readable := by
  cases kind <;> first
    | exact absurd h (by decide)
    | exact ⟨by simp, rfl, _, _, rfl, rfl, fun next tail h => by rcases h with rfl | rfl <;> rfl⟩

theorem readable_string (text : String) : Readable ⟨.string, text⟩ := by
  refine ⟨by simp, ?_, '"', escape text.toList ++ ['"'], by simp [chars], rfl, ?_⟩
  · simpa [chars, Token.decode] using Token.decodeQuoted_escape text.toList
  · intro next tail _
    have hspan := Token.quotedSpan_escape text.toList next tail
    simp [Token.cutExpr, Token.isQuote, chars, hspan]

theorem readable_name {name : String} (hname : Token.IsName name.toList)
    (hkind : Token.Kind.ofWord name.toList = .ident) : Readable ⟨.ident, name⟩ := by
  obtain ⟨c, rest, hcs, hc, hrest⟩ := hname
  obtain ⟨hblank, hbrace, hquote⟩ := Token.not_delimiter (p := Token.isNameStart) rfl hc
  refine ⟨by simp, by simp [chars, Token.decode], c, rest, by simpa [chars] using hcs, hblank, ?_⟩
  intro next tail hnext
  obtain ⟨htake, hdrop⟩ := Token.takeWhile_append_of_stop hrest
    (show Token.isNamePart next = false by rcases hnext with rfl | rfl <;> rfl) tail
  simp [Token.cutExpr, hbrace, hquote, hc, htake, hdrop, ← hcs, hkind, chars]

/-- A literal that starts with a digit is a number. -/
theorem readable_number (kind : LiteralKind) {text : String} {c : Char} {rest : List Char}
    (hkind : kind ≠ .string) (htext : text.toList = c :: rest) (hc : c.isDigit)
    (hcut : ∀ next tail, next = ' ' ∨ next = '}' →
      Token.cutNumber (c :: rest ++ next :: tail) = ⟨kind.token, c :: rest, next :: tail⟩) :
    Readable ⟨kind.token, text⟩ := by
  have hnumber : kind.token ≠ .string ∧ kind.token ≠ .text ∧ kind.token ≠ .leaveExpr := by
    cases kind <;> simp_all [LiteralKind.token]
  have hchars : chars ⟨kind.token, text⟩ = c :: rest := by simp [chars, hnumber, htext]
  obtain ⟨hblank, hbrace, hquote⟩ := Token.not_delimiter (p := Char.isDigit) rfl hc
  refine ⟨hnumber.2.2, ?_, c, rest, hchars, hblank, ?_⟩
  · rw [hchars, htext]
    cases kind with
    | string => exact absurd rfl hkind
    | int | float => rfl
  · intro next tail hnext
    rw [hchars, ← hcut next tail hnext]
    simp [Token.cutExpr, hbrace, hquote, Token.isNameStart_of_isDigit hc, hc]

theorem readable_int {text : String} (h : Token.IsNumeral text.toList) :
    Readable ⟨.int, text⟩ := by
  obtain ⟨c, rest, htext, hc, hrest⟩ := h
  refine readable_number .int (by simp) htext hc ?_
  intro next tail hnext
  obtain ⟨htake, hdrop⟩ := Token.takeWhile_append_of_stop (Token.isDigitPart_of_numeral hc hrest)
    (show Token.isDigitPart next = false by rcases hnext with rfl | rfl <;> rfl) tail
  rw [Token.cutNumber, htake, hdrop]
  rcases hnext with rfl | rfl <;> rfl

theorem readable_float {text : String} {whole fraction : List Char}
    (htext : text.toList = whole ++ '.' :: fraction) (hwhole : Token.IsNumeral whole)
    (hfraction : Token.IsNumeral fraction) : Readable ⟨.float, text⟩ := by
  obtain ⟨c, rest, rfl, hc, hrest⟩ := hwhole
  obtain ⟨f, more, rfl, hf, hmore⟩ := hfraction
  refine readable_number .float (by simp) htext hc ?_
  intro next tail hnext
  obtain ⟨htake, hdrop⟩ := Token.takeWhile_append_of_stop (Token.isDigitPart_of_numeral hc hrest)
    (show Token.isDigitPart '.' = false by rfl) (f :: more ++ next :: tail)
  obtain ⟨htake', hdrop'⟩ := Token.takeWhile_append_of_stop (Token.isDigitPart_of_numeral hf hmore)
    (show Token.isDigitPart next = false by rcases hnext with rfl | rfl <;> rfl) tail
  have hinput : c :: rest.append ('.' :: f :: more) ++ next :: tail =
      c :: rest ++ '.' :: (f :: more ++ next :: tail) := by simp
  rw [hinput, Token.cutNumber, htake, hdrop]
  simp only [htake', hdrop']
  simp [hf, LiteralKind.token]

/-- What follows the first of several lexemes: a blank and the others, or the closing brace. -/
theorem spaced_cons (l : Lexeme) (ls : List Lexeme) :
    ∃ blanks next tail, blanks.all Token.isBlank ∧ (next = ' ' ∨ next = '}') ∧
      blanks ++ spaced ls ++ ['}'] = next :: tail ∧
      spaced (l :: ls) ++ ['}'] = l.chars ++ next :: tail := by
  cases ls with
  | nil => exact ⟨[], '}', [], rfl, .inr rfl, rfl, rfl⟩
  | cons m ls =>
      exact ⟨[' '], ' ', spaced (m :: ls) ++ ['}'], rfl, .inl rfl, rfl,
        by simp [spaced]⟩

theorem scanFrom_spaced {ls : List Lexeme} (h : ∀ l ∈ ls, l.Readable) (blanks : List Char)
    (hblanks : blanks.all Token.isBlank) {bound : Nat}
    (hbound : (blanks ++ spaced ls ++ ['}']).length ≤ bound) (offset : Nat) :
    (Token.scanFrom bound .expr offset (blanks ++ spaced ls ++ ['}'])).map Token.toLexeme =
      ls ++ [symbol .leaveExpr, ⟨.eof, ""⟩] := by
  induction ls generalizing blanks bound offset with
  | nil =>
      obtain _ | bound := bound
      · simp at hbound
      rw [spaced, List.append_nil, Token.scanFrom_expr hblanks rfl]
      cases bound <;> rfl
  | cons l ls ih =>
      obtain _ | bound := bound
      · simp at hbound
      obtain ⟨more, next, tail, hmore, hnext, hrest, hall⟩ := spaced_cons l ls
      obtain ⟨hl, hls⟩ := List.forall_mem_cons.mp h
      obtain ⟨c, cs, hchars, hc, hcut⟩ := hl.cut
      rw [List.append_assoc, hall, hchars, List.cons_append] at hbound ⊢
      rw [Token.scanFrom_expr hblanks hc, hcut next tail hnext, ← hrest]
      have hafter : Token.Mode.expr.after l.kind = .expr := by
        have := hl.ne_leave
        unfold Token.Mode.after
        split <;> simp_all
      rw [List.map_cons, hl.decode, hafter, ih hls more hmore]
      · simp [Token.toLexeme]
      · -- A lexeme has at least one character, so the bound suffices for the others.
        have hlength := congrArg List.length hrest
        simp only [List.length_append, List.length_cons] at hbound hlength ⊢
        omega

end Lexeme

namespace Lexeme

variable {p : Lexeme → Prop}

theorem forall_mem_group {needed : Bool} {ls : List Lexeme} (hopen : p (symbol .lParen))
    (h : ∀ l ∈ ls, p l) (hclose : p (symbol .rParen)) : ∀ l ∈ group needed ls, p l := by
  cases needed with
  | false => exact h
  | true =>
      rw [group_true, List.forall_mem_append]
      exact ⟨List.forall_mem_cons.mpr ⟨hopen, h⟩, by simpa using hclose⟩

theorem forall_mem_separated {items : List (List Lexeme)} (hcomma : p (symbol .comma))
    (h : ∀ ls ∈ items, ∀ l ∈ ls, p l) : ∀ l ∈ separated false items, p l := by
  induction items with
  | nil => simp [separated]
  | cons item items ih =>
      obtain ⟨hitem, hitems⟩ := List.forall_mem_cons.mp h
      cases items with
      | nil => exact hitem
      | cons next items =>
          exact List.forall_mem_append.mpr ⟨hitem, List.forall_mem_cons.mpr ⟨hcomma, ih hitems⟩⟩

end Lexeme

theorem Expr.Writable.readable {e : Expr} (h : e.Writable) :
    ∀ l ∈ e.written, l.Readable := by
  have symbols : ∀ {kind : Token.Kind}, kind.isInner → (symbol kind).Readable :=
    Lexeme.readable_symbol
  have grouped : ∀ {needed : Bool} {ls : List Lexeme}, (∀ l ∈ ls, l.Readable) →
      ∀ l ∈ group needed ls, l.Readable :=
    fun h => Lexeme.forall_mem_group (symbols rfl) h (symbols rfl)
  have listed : ∀ {items : List (List Lexeme)}, (∀ ls ∈ items, ∀ l ∈ ls, l.Readable) →
      ∀ l ∈ separated false items, l.Readable := Lexeme.forall_mem_separated (symbols rfl)
  induction h with
  | ident hname hkind _ => simpa [lexemesWith] using Lexeme.readable_name hname hkind
  | func function =>
      rw [written, lexemesWith]
      cases function <;> simpa using Lexeme.readable_name ⟨_, _, rfl, rfl, rfl⟩ rfl
  | @literal kind lexeme h =>
      rw [written, lexemesWith, List.forall_mem_singleton]
      cases kind with
      | string => exact Lexeme.readable_string lexeme
      | int => exact Lexeme.readable_int h
      | float =>
          obtain ⟨whole, fraction, htext, hwhole, hfraction⟩ := h
          exact Lexeme.readable_float htext hwhole hfraction
  | unary op _ ih =>
      refine List.forall_mem_cons.mpr ⟨?_, grouped ih⟩
      cases op <;> exact symbols rfl
  | binary op _ _ ihl ihr =>
      refine List.forall_mem_append.mpr ⟨grouped ihl, List.forall_mem_cons.mpr ⟨?_, grouped ihr⟩⟩
      cases op <;> exact symbols rfl
  | index _ _ ihb ihp =>
      simp only [lexemesWith, List.forall_mem_append, List.forall_mem_cons]
      exact ⟨⟨grouped ihb, symbols rfl, ihp⟩, symbols rfl, by simp⟩
  | @slice _ _ stop _ _ _ ihb ihs ihe =>
      have hstop : ∀ l ∈ lexemesWith.ofStop weaker stop, l.Readable := by
        cases stop with
        | none => simp [lexemesWith.ofStop]
        | some stop => exact grouped (ihe stop rfl)
      simp only [lexemesWith, List.forall_mem_append, List.forall_mem_cons]
      exact ⟨⟨grouped ihb, symbols rfl, grouped ihs, symbols rfl, hstop⟩, symbols rfl, by simp⟩
  | select _ _ _ ihv ihp ihr =>
      have equal : (symbol .equal).Readable := symbols rfl
      have hoptions := listed (List.forall_mem_map.mpr fun o ho =>
        List.forall_mem_append.mpr
          ⟨ihp o ho, List.forall_mem_cons.mpr ⟨equal, ihr o ho⟩⟩)
      simp only [lexemesWith, lexemesWith.ofOptions_eq_map, List.forall_mem_append,
        List.forall_mem_cons]
      exact ⟨⟨grouped ihv, symbols rfl, symbols rfl, hoptions⟩, symbols rfl, by simp⟩
  | call _ _ ihc iha =>
      have hargs := listed (List.forall_mem_map.mpr iha)
      simp only [lexemesWith, lexemesWith.ofArgs_eq_map, List.forall_mem_append,
        List.forall_mem_cons]
      exact ⟨⟨grouped ihc, symbols rfl, hargs⟩, symbols rfl, by simp⟩

/-- Lexemes that start like an expression. -/
def Lexeme.StartsExpr (ls : List Lexeme) : Prop := ∃ l rest, ls = l :: rest ∧ l.kind.startsExpr

theorem Lexeme.StartsExpr.group_append {ls : List Lexeme} (h : StartsExpr ls) (needed : Bool)
    (rest : List Lexeme) : StartsExpr (Lexeme.group needed ls ++ rest) := by
  cases needed with
  | true => exact ⟨symbol .lParen, _, rfl, rfl⟩
  | false =>
      obtain ⟨l, more, rfl, hl⟩ := h
      exact ⟨l, _, rfl, hl⟩

theorem Expr.Writable.startsExpr {e : Expr} (h : e.Writable) :
    Lexeme.StartsExpr e.written := by
  induction h with
  | ident | func => exact ⟨_, _, rfl, rfl⟩
  | @literal kind => cases kind <;> exact ⟨_, _, rfl, rfl⟩
  | unary op => cases op <;> exact ⟨_, _, rfl, rfl⟩
  | binary _ _ _ ih => exact ih.group_append _ _
  | index _ _ ih | slice _ _ _ ih | select _ _ _ ih | call _ _ ih =>
      simpa [lexemesWith] using ih.group_append _ _

/-- What is written is scanned back. -/
theorem Token.scan_source {e : Expr} (h : e.Writable) :
    (scan e.source).map toLexeme =
      symbol .enterExpr :: e.written ++ [symbol .leaveExpr, ⟨.eof, ""⟩] := by
  have hopen : ∀ (cs : List Char) (bound : Nat),
      (scanFrom (bound + 1) .text 0 ('{' :: cs)).map toLexeme =
        symbol .enterExpr :: (scanFrom bound .expr 1 cs).map toLexeme := fun _ _ => rfl
  have hexpr := Lexeme.scanFrom_spaced h.readable [] rfl (Nat.le_succ _) 1
  rw [scan, Expr.source, String.toList_ofList, scanChars, List.cons_append, List.length_cons, hopen]
  exact congrArg _ hexpr

end Phrasebook
