import Mathlib
import Phrasebook.Proofs.Template.Alike
import Phrasebook.Proofs.Template.Seam
import Phrasebook.Text.Basic

/-!
# Blanks around an expression

Between the braces only four blanks are skipped in front of a token. A blank of any other script is
unexpected input there, so that a source with one is not accepted: whatever blanks stand around an
expression that is accepted, they belong to the four, unless they are inside of a quoted literal.
So all blanks at both ends of the expression can be taken away (`Template.parse_trimChars`).

Behind the expression this needs a lemma on the scanner: a token in front of blanks or closing
braces either is the same whatever number of them follows, or is unexpected, or runs up to the end
of the input since its quote is not closed (`Token.bounded_cutExpr`).
-/

namespace Phrasebook

/-- Whether a category occurs in the expressions that are accepted. -/
def Token.Kind.isExpr : Token.Kind → Bool
  | eof | unexpected | text | enterExpr | leaveExpr => false
  | _ => true

theorem Lexeme.mem_separated {trailing : Bool} {items : List (List Lexeme)} {l : Lexeme}
    (h : l ∈ separated trailing items) : l = symbol .comma ∨ ∃ item ∈ items, l ∈ item := by
  fun_induction separated trailing items with
  | case1 => cases h
  | case2 item htrailing =>
      obtain hitem | hcomma := List.mem_append.mp h
      · exact .inr ⟨item, by simp, hitem⟩
      · exact .inl (List.mem_singleton.mp hcomma)
  | case3 item htrailing => exact .inr ⟨item, by simp, h⟩
  | case4 item items hne ih =>
      obtain hitem | hrest := List.mem_append.mp h
      · exact .inr ⟨item, by simp, hitem⟩
      obtain hcomma | hothers := List.mem_cons.mp hrest
      · exact .inl hcomma
      · refine (ih hothers).imp_right ?_
        rintro ⟨other, hmem, hl⟩
        exact ⟨other, by simp [hmem], hl⟩

/-- An accepted expression is made of names, literals, symbols and keywords. -/
theorem Expr.Spelled.isExpr {e : Expr} {ls : List Lexeme} {closed : Bool}
    (h : e.Spelled ls closed) : ∀ l ∈ ls, l.kind.isExpr := by
  have symbols : ∀ {kind : Token.Kind}, kind.isExpr → (Lexeme.symbol kind).kind.isExpr := id
  have listed : ∀ (trailing : Bool) {items : List (List Lexeme)},
      (∀ item ∈ items, ∀ l ∈ item, l.kind.isExpr) →
      ∀ l ∈ Lexeme.separated trailing items, l.kind.isExpr := by
    intro trailing items hitems l hl
    obtain rfl | ⟨item, hmem, hl⟩ := Lexeme.mem_separated hl
    · rfl
    · exact hitems item hmem l hl
  induction h with
  | name => exact List.forall_mem_singleton.mpr rfl
  | literal kind => cases kind <;> exact List.forall_mem_singleton.mpr rfl
  | group _ ih =>
      simp only [List.forall_mem_append, List.forall_mem_cons]
      exact ⟨⟨symbols rfl, ih⟩, symbols rfl, by simp⟩
  | unary op _ ih => cases op <;> exact List.forall_mem_cons.mpr ⟨symbols rfl, ih⟩
  | binary op _ _ ihl ihr =>
      refine List.forall_mem_append.mpr ⟨ihl, List.forall_mem_cons.mpr ⟨?_, ihr⟩⟩
      cases op <;> exact symbols rfl
  | range _ _ ihs ihe =>
      exact List.forall_mem_append.mpr ⟨ihs, List.forall_mem_cons.mpr ⟨symbols rfl, ihe⟩⟩
  | openRange _ ih =>
      exact List.forall_mem_append.mpr ⟨ih, List.forall_mem_singleton.mpr (symbols rfl)⟩
  | rangeFromZero _ ih => exact List.forall_mem_cons.mpr ⟨symbols rfl, ih⟩
  | openRangeFromZero => exact List.forall_mem_singleton.mpr (symbols rfl)
  | index _ _ ihb ihp =>
      simp only [List.forall_mem_append, List.forall_mem_cons]
      exact ⟨⟨ihb, symbols rfl, ihp⟩, symbols rfl, by simp⟩
  | select trailing items _ _ _ ihv ihp ihr =>
      have equal : (Lexeme.symbol .equal).kind.isExpr := symbols rfl
      have hitems := listed trailing (List.forall_mem_map.mpr fun i hi =>
        List.forall_mem_append.mpr ⟨ihp i hi, List.forall_mem_cons.mpr ⟨equal, ihr i hi⟩⟩)
      simp only [List.forall_mem_append, List.forall_mem_cons]
      exact ⟨⟨ihv, symbols rfl, symbols rfl, hitems⟩, symbols rfl, by simp⟩
  | call trailing items _ _ ihc iha =>
      have hitems := listed trailing (List.forall_mem_map.mpr iha)
      simp only [List.forall_mem_append, List.forall_mem_cons]
      exact ⟨⟨ihc, symbols rfl, hitems⟩, symbols rfl, by simp⟩

namespace Token

/-- The offset at which reading starts does not show in the lexemes. -/
theorem map_toLexeme_scanAt (mode : Mode) (offset : Nat) (cs : List Char) :
    (scanAt mode offset cs).map toLexeme = (scanAt mode 0 cs).map toLexeme := by
  have hadd := scanFrom_add (cs.length + 1) mode offset 0 cs
  rw [Nat.zero_add] at hadd
  rw [scanAt, hadd, List.map_map]
  rfl

/-- The lexemes of characters that are read in a mode. -/
def lexemesAt (mode : Mode) (cs : List Char) : List Lexeme := (scanAt mode 0 cs).map toLexeme

/-- The lexeme of a cut. -/
def Cut.toLexeme (cut : Cut) : Lexeme := ⟨cut.kind, .ofList (decode cut.kind cut.span)⟩

theorem lexemesAt_of_skipBlanks_eq_nil {mode : Mode} {cs : List Char}
    (h : mode.skipBlanks cs = []) : lexemesAt mode cs = [⟨.eof, ""⟩] := by
  rw [lexemesAt, scanAt_of_skipBlanks_eq_nil h]
  rfl

@[simp] theorem lexemesAt_nil (mode : Mode) : lexemesAt mode [] = [⟨.eof, ""⟩] := by
  cases mode <;> rfl

theorem lexemesAt_of_skipBlanks_eq_cons {mode : Mode} {cs : List Char} {c : Char}
    {rest : List Char} (h : mode.skipBlanks cs = c :: rest) :
    lexemesAt mode cs =
      (mode.cut c rest).toLexeme ::
        lexemesAt (mode.after (mode.cut c rest).kind) (mode.cut c rest).rest := by
  rw [lexemesAt, scanAt_of_skipBlanks_eq_cons h, List.map_cons, map_toLexeme_scanAt]
  rfl

/-- What is skipped in front of a token does not show in the lexemes. -/
theorem lexemesAt_congr {mode : Mode} {cs ds : List Char}
    (h : mode.skipBlanks cs = mode.skipBlanks ds) : lexemesAt mode cs = lexemesAt mode ds := by
  cases hds : mode.skipBlanks ds with
  | nil => rw [lexemesAt_of_skipBlanks_eq_nil hds, lexemesAt_of_skipBlanks_eq_nil (h.trans hds)]
  | cons c rest =>
      rw [lexemesAt_of_skipBlanks_eq_cons hds, lexemesAt_of_skipBlanks_eq_cons (h.trans hds)]

/-- Whether a character may stand behind an expression: a blank of any script or a closing brace. -/
def isTrailing (c : Char) : Bool := Text.isBlank c || c == '}'

/-- No trailing character goes on with a name, a number or a symbol, or delimits a literal. -/
theorem delimits_of_isTrailing {c : Char} (h : isTrailing c) :
    isNamePart c = false ∧ isQuote c = false ∧ c ≠ '.' ∧ c ≠ '=' ∧ c ≠ '>' := by
  simp [isTrailing, Text.isBlank, isNamePart, isQuote, Char.isAlphanum, Char.isAlpha, Char.isUpper,
    Char.isLower, Char.isDigit, UInt32.le_iff_toNat_le, ← Char.toNat_inj] at h ⊢
  omega

theorem isDigit_of_isNamePart {c : Char} (h : isNamePart c = false) : c.isDigit = false := by
  simp_all [isNamePart, Char.isAlphanum]

theorem isDigitPart_of_isNamePart {c : Char} (h : isNamePart c = false) :
    isDigitPart c = false := by
  simp_all [isNamePart, isDigitPart, Char.isAlphanum]

/-- No symbol starts with a blank. -/
theorem find?_symbols_of_isBlank {c : Char} (h : Text.isBlank c) (rest : List Char) :
    Kind.symbols.find? (fun kind => kind.spelling.toList.isPrefixOf (c :: rest)) = none := by
  have hfirst : ∀ d ∈ ['=', '!', '>', '<', ',', ':', '(', ')', '[', ']', '+', '-', '*', '/', '%'],
      d ≠ c := by
    simp [Text.isBlank, ← Char.toNat_inj] at h ⊢
    omega
  simp only [List.forall_mem_cons] at hfirst
  simp [Kind.symbols, Kind.spelling, hfirst]

/-- A blank of another script is unexpected input. -/
theorem kind_cutExpr_of_isBlank {c : Char} (h : Text.isBlank c) (hc : isBlank c = false)
    (rest : List Char) : (cutExpr c rest).kind = .unexpected := by
  have htrailing : isTrailing c := by simp [isTrailing, h]
  obtain ⟨hname, hquote, -⟩ := delimits_of_isTrailing htrailing
  have hbrace : c ≠ '}' := by
    rintro rfl
    cases h
  have hstart : isNameStart c = false := by simp_all [isNamePart, isNameStart, Char.isAlphanum]
  have hdigit : c.isDigit = false := isDigit_of_isNamePart hname
  simp [cutExpr, hbrace, hquote, hstart, hdigit, find?_symbols_of_isBlank h]

theorem quotedSpan_of_not_mem {quote : Char} {cs : List Char} (h : quote ∉ cs) :
    (quotedSpan quote cs).2 = [] := by
  fun_induction quotedSpan quote cs <;> simp_all

/-- A quoted literal is closed in front of characters other than its quote, or never. -/
theorem quotedSpan_trailing (quote : Char) (cs : List Char) :
    (∀ ds, quote ∉ ds → (quotedSpan quote (cs ++ ds)).2 = []) ∨
      ∃ body rest, ∀ ds, quotedSpan quote (cs ++ ds) = (body, rest ++ ds) := by
  fun_induction quotedSpan quote cs with
  | case1 => exact .inl fun ds => quotedSpan_of_not_mem
  | case2 c =>
      by_cases hc : c = quote
      · refine .inr ⟨[c], [], fun ds => ?_⟩
        cases ds with
        | nil => rfl
        | cons d ds => simp [quotedSpan, hc]
      · refine .inl fun ds hds => quotedSpan_of_not_mem ?_
        simpa [Ne.symm hc] using hds
  | case3 d rest => exact .inr ⟨[quote], d :: rest, fun ds => by simp [quotedSpan]⟩
  | case4 c d rest hquote hescape ih =>
      have hstep : ∀ ds, quotedSpan quote (c :: d :: rest ++ ds) =
          (c :: d :: (quotedSpan quote (rest ++ ds)).1, (quotedSpan quote (rest ++ ds)).2) := by
        intro ds
        rw [List.cons_append, List.cons_append, quotedSpan, if_neg hquote, if_pos hescape]
      simp only [hstep]
      refine ih.imp_right ?_
      rintro ⟨body, more, h⟩
      exact ⟨c :: d :: body, more, fun ds => by rw [h]⟩
  | case5 c d rest hquote hescape ih =>
      have hstep : ∀ ds, quotedSpan quote (c :: d :: rest ++ ds) =
          (c :: (quotedSpan quote (d :: rest ++ ds)).1, (quotedSpan quote (d :: rest ++ ds)).2) :=
        fun ds => by simp [quotedSpan, hquote, hescape]
      simp only [hstep]
      refine ih.imp_right ?_
      rintro ⟨body, more, h⟩
      exact ⟨c :: body, more, fun ds => by rw [h]⟩

/-- What stands behind an expression up to the end of the input. -/
def Trailing (cs : List Char) : Prop := cs ≠ [] ∧ ∀ c ∈ cs, isTrailing c

theorem Trailing.exists_cons {cs : List Char} (h : Trailing cs) :
    ∃ c rest, cs = c :: rest ∧ isTrailing c := by
  obtain ⟨c, rest, rfl⟩ := List.exists_cons_of_ne_nil h.1
  exact ⟨c, rest, rfl, h.2 c (by simp)⟩

theorem Trailing.takeWhile_dropWhile {ds : List Char} (h : Trailing ds) {p : Char → Bool}
    (hp : ∀ {c}, isTrailing c → p c = false) (cs : List Char) :
    (cs ++ ds).takeWhile p = cs.takeWhile p ∧ (cs ++ ds).dropWhile p = cs.dropWhile p ++ ds := by
  obtain ⟨d, ds, rfl, hd⟩ := h.exists_cons
  induction cs with
  | nil => simp [hp hd]
  | cons c cs ih =>
      by_cases hc : p c
      · simpa [hc] using ih
      · simp [hc]

theorem Trailing.digits {ds : List Char} (h : Trailing ds) (cs : List Char) :
    (cs ++ ds).takeWhile isDigitPart = cs.takeWhile isDigitPart ∧
      (cs ++ ds).dropWhile isDigitPart = cs.dropWhile isDigitPart ++ ds :=
  h.takeWhile_dropWhile (fun hd => isDigitPart_of_isNamePart (delimits_of_isTrailing hd).1) cs

/-- Whether a text starts with a digit does not depend on trailing characters. -/
theorem Trailing.startsWithDigit {ds : List Char} (h : Trailing ds) (cs : List Char) :
    ((cs ++ ds).head?.map Char.isDigit).getD false = (cs.head?.map Char.isDigit).getD false := by
  obtain ⟨d, ds, rfl, hd⟩ := h.exists_cons
  cases cs with
  | nil => exact isDigit_of_isNamePart (delimits_of_isTrailing hd).1
  | cons => rfl

/-- A token that is unexpected, or a quoted literal up to the end of the input. -/
def Cut.Lost (cut : Cut) : Prop := cut.kind = .unexpected ∨ cut.kind = .string ∧ cut.rest = []

/-- A token in front of trailing characters is the same for all of them, unless it is lost. -/
def Bounded (cut : List Char → Cut) : Prop :=
  (∀ ds, Trailing ds → (cut ds).Lost) ∨ ∃ fixed : Cut, ∀ ds, Trailing ds → cut ds = fixed.before ds

theorem bounded_cutNumber (cs : List Char) : Bounded fun ds => cutNumber (cs ++ ds) := by
  by_cases hdot : (cs.dropWhile isDigitPart).head? = some '.'
  · obtain ⟨after, hafter⟩ := List.head?_eq_some_iff.mp hdot
    have hcut : ∀ {ds}, Trailing ds → (cs ++ ds).dropWhile isDigitPart = '.' :: (after ++ ds) := by
      intro ds hds
      rw [(hds.digits cs).2, hafter, List.cons_append]
    by_cases hdigit : (after.head?.map Char.isDigit).getD false
    · refine .inr ⟨⟨.float, cs.takeWhile isDigitPart ++ '.' :: after.takeWhile isDigitPart,
        after.dropWhile isDigitPart⟩, fun ds hds => ?_⟩
      dsimp only
      rw [cutNumber_of_dot (hcut hds), hds.startsWithDigit, if_pos hdigit, (hds.digits cs).1,
        (hds.digits after).1, (hds.digits after).2]
      rfl
    · refine .inl fun ds hds => .inl ?_
      dsimp only
      rw [cutNumber_of_dot (hcut hds), hds.startsWithDigit, if_neg hdigit]
  · refine .inr ⟨⟨.int, cs.takeWhile isDigitPart, cs.dropWhile isDigitPart⟩, fun ds hds => ?_⟩
    have hhead : ((cs ++ ds).dropWhile isDigitPart).head? ≠ some '.' := by
      rw [(hds.digits cs).2]
      cases hdrop : cs.dropWhile isDigitPart with
      | nil =>
          obtain ⟨d, ds, rfl, hd⟩ := hds.exists_cons
          simpa using (delimits_of_isTrailing hd).2.2.1
      | cons => simpa [hdrop] using hdot
    dsimp only
    rw [cutNumber_of_head? hhead, (hds.digits cs).1, (hds.digits cs).2]
    rfl

/-- A symbol does not go on with a trailing character. -/
theorem find?_symbols_trailing (c : Char) (cs : List Char) {ds : List Char} (h : Trailing ds) :
    Kind.symbols.find? (fun kind => kind.spelling.toList.isPrefixOf (c :: (cs ++ ds))) =
      Kind.symbols.find? (fun kind => kind.spelling.toList.isPrefixOf (c :: cs)) := by
  cases cs with
  | nil =>
      obtain ⟨d, ds, rfl, hd⟩ := h.exists_cons
      obtain ⟨-, -, -, hequal, hgreater⟩ := delimits_of_isTrailing hd
      refine List.find?_congr ?_
      simp [Kind.symbols, Kind.spelling, List.isPrefixOf, Ne.symm hequal, Ne.symm hgreater]
  | cons e cs =>
      refine List.find?_congr fun kind hkind => ?_
      rw [← List.cons_append]
      exact isPrefixOf_append_of_symbol ds hkind (by simp)

theorem bounded_cutExpr (c : Char) (cs : List Char) : Bounded fun ds => cutExpr c (cs ++ ds) := by
  by_cases hbrace : c = '}'
  · exact .inr ⟨⟨.leaveExpr, [c], cs⟩, fun ds _ => if_pos hbrace⟩
  by_cases hquote : isQuote c
  · have hcut : (fun ds => cutExpr c (cs ++ ds)) = fun ds =>
        ⟨.string, c :: (quotedSpan c (cs ++ ds)).1, (quotedSpan c (cs ++ ds)).2⟩ := by
      simp [cutExpr, hbrace, hquote]
    rw [hcut]
    obtain hopen | ⟨body, rest, hclosed⟩ := quotedSpan_trailing c cs
    · refine .inl fun ds hds => .inr ⟨rfl, ?_⟩
      have hmem : c ∉ ds := fun hmem =>
        absurd ((delimits_of_isTrailing (hds.2 c hmem)).2.1) (by simp [hquote])
      exact hopen ds hmem
    · refine .inr ⟨⟨.string, c :: body, rest⟩, fun ds _ => ?_⟩
      simp [hclosed, Cut.before]
  by_cases hname : isNameStart c
  · refine .inr ⟨⟨.ofWord (c :: cs.takeWhile isNamePart), c :: cs.takeWhile isNamePart,
      cs.dropWhile isNamePart⟩, fun ds hds => ?_⟩
    obtain ⟨htake, hdrop⟩ :=
      hds.takeWhile_dropWhile (fun hd => (delimits_of_isTrailing hd).1) cs
    simp [cutExpr, hbrace, hquote, hname, htake, hdrop, Cut.before]
  by_cases hdigit : c.isDigit
  · have hcut : (fun ds => cutExpr c (cs ++ ds)) = fun ds => cutNumber (c :: cs ++ ds) := by
      simp [cutExpr, hbrace, hquote, hname, hdigit]
    rw [hcut]
    exact bounded_cutNumber (c :: cs)
  cases hfind : Kind.symbols.find? (fun kind => kind.spelling.toList.isPrefixOf (c :: cs)) with
  | none =>
      refine .inl fun ds hds => .inl ?_
      simp [cutExpr, hbrace, hquote, hname, hdigit, find?_symbols_trailing c cs hds, hfind]
  | some kind =>
      have hprefix : kind.spelling.toList.length ≤ (c :: cs).length :=
        (List.isPrefixOf_iff_prefix.mp (List.find?_some
          (p := fun kind : Kind => kind.spelling.toList.isPrefixOf (c :: cs)) hfind)).length_le
      refine .inr ⟨⟨kind, kind.spelling.toList, (c :: cs).drop kind.spelling.toList.length⟩,
        fun ds hds => ?_⟩
      have hdrop : (c :: (cs ++ ds)).drop kind.spelling.toList.length =
          (c :: cs).drop kind.spelling.toList.length ++ ds := List.drop_append_of_le_length hprefix
      simp [cutExpr, hbrace, hquote, hname, hdigit, find?_symbols_trailing c cs hds, hfind, hdrop,
        Cut.before]

theorem lexemesAt_text_eq {cs : List Char} (h : lexemesAt .text cs = [⟨.eof, ""⟩]) : cs = [] := by
  cases cs with
  | nil => rfl
  | cons c rest =>
      rw [lexemesAt_of_skipBlanks_eq_cons rfl, List.cons.injEq] at h
      exact absurd h.2 (by simp [lexemesAt, scanAt_ne_nil])

/-- The lexemes behind an open brace up to the end of the input are those of an expression, and the
brace that closes it. -/
def Closes (inner ls : List Lexeme) : Prop :=
  (∀ l ∈ inner, l.kind.isExpr) ∧ ls = inner ++ [.symbol .leaveExpr, ⟨.eof, ""⟩]

theorem not_closes_eof {inner : List Lexeme} : ¬ Closes inner [⟨.eof, ""⟩] := by
  rintro ⟨-, h⟩
  have hlength := congrArg List.length h
  simp at hlength

theorem Closes.cons_iff {inner ls : List Lexeme} {l : Lexeme} :
    Closes inner (l :: ls) ↔
      inner = [] ∧ l = .symbol .leaveExpr ∧ ls = [⟨.eof, ""⟩] ∨
        ∃ others, inner = l :: others ∧ l.kind.isExpr ∧ Closes others ls := by
  cases inner with
  | nil => simp [Closes]
  | cons m others =>
      constructor
      · rintro ⟨hinner, hls⟩
        obtain ⟨rfl, rfl⟩ := List.cons.inj hls
        obtain ⟨hl, hothers⟩ := List.forall_mem_cons.mp hinner
        exact .inr ⟨others, rfl, hl, hothers, rfl⟩
      · rintro (⟨hnil, -⟩ | ⟨others, heq, hl, hothers, rfl⟩)
        · cases hnil
        · obtain ⟨rfl, rfl⟩ := List.cons.inj heq
          exact ⟨List.forall_mem_cons.mpr ⟨hl, hothers⟩, rfl⟩

/-- Unexpected input does not belong to an expression, and does not close one. -/
theorem Closes.kind_ne {inner ls : List Lexeme} {l : Lexeme} (h : Closes inner (l :: ls)) :
    l.kind ≠ .unexpected := by
  obtain ⟨-, rfl, -⟩ | ⟨others, -, hl, -⟩ := Closes.cons_iff.mp h
  · simp
  · intro hkind
    simp [hkind, Kind.isExpr] at hl

/-- A lost token does not belong to an expression that is closed, and does not close one. -/
theorem Cut.Lost.not_closes {cut : Cut} (h : cut.Lost) (mode : Mode) (inner : List Lexeme) :
    ¬ Closes inner (cut.toLexeme :: lexemesAt mode cut.rest) := by
  intro hcloses
  obtain hkind | ⟨hkind, hrest⟩ := h
  · exact hcloses.kind_ne hkind
  · obtain ⟨-, hleave, -⟩ | ⟨others, -, -, hothers⟩ := Closes.cons_iff.mp hcloses
    · cases hkind.symm.trans (congrArg Lexeme.kind hleave)
    · rw [hrest, lexemesAt_nil] at hothers
      exact not_closes_eof hothers

/-- Where trailing characters are read without an error, they are skipped up to a single brace. -/
theorem trailing_of_closes {ds : List Char} (hds : Trailing ds) {inner : List Lexeme}
    (h : Closes inner (lexemesAt .expr ds)) :
    inner = [] ∧ ∃ blanks, ds = blanks ++ ['}'] ∧ ∀ c ∈ blanks, isBlank c := by
  cases hskip : Mode.expr.skipBlanks ds with
  | nil =>
      rw [lexemesAt_of_skipBlanks_eq_nil hskip] at h
      exact absurd h not_closes_eof
  | cons c rest =>
      obtain ⟨hblanks, happend⟩ := Mode.expr.skips_blanks ds
      rw [hskip] at happend
      rw [lexemesAt_of_skipBlanks_eq_cons hskip] at h
      have hc : isTrailing c := hds.2 c (by rw [← happend]; simp)
      obtain hblank | hbrace := Bool.or_eq_true_iff.mp hc
      · exact absurd (kind_cutExpr_of_isBlank hblank (isBlank_of_skipBlanks hskip) rest) h.kind_ne
      · obtain rfl : c = '}' := by simpa using hbrace
        obtain ⟨rfl, -, hend⟩ | ⟨others, -, hexpr, -⟩ := Closes.cons_iff.mp h
        · obtain rfl : rest = [] := lexemesAt_text_eq hend
          exact ⟨rfl, _, happend.symm, hblanks⟩
        · cases hexpr

/-- Blanks behind an expression do not show in its lexemes, and no brace stands among them. -/
theorem closes_trailing {cs ds : List Char} (hds : Trailing ds) {inner : List Lexeme}
    (h : Closes inner (lexemesAt .expr (cs ++ ds))) :
    (∃ blanks, ds = blanks ++ ['}'] ∧ ∀ c ∈ blanks, isBlank c) ∧
      lexemesAt .expr (cs ++ ['}']) = lexemesAt .expr (cs ++ ds) := by
  induction hlength : cs.length using Nat.strongRecOn generalizing cs inner with
  | ind length ih =>
      subst hlength
      cases hcs : Mode.expr.skipBlanks cs with
      | nil =>
          have hskip : ∀ ds, lexemesAt .expr (cs ++ ds) = lexemesAt .expr ds := fun ds =>
            lexemesAt_congr (List.dropWhile_append_of_pos (List.dropWhile_eq_nil_iff.mp hcs))
          rw [hskip] at h
          obtain ⟨rfl, hblanks⟩ := trailing_of_closes hds h
          exact ⟨hblanks, by rw [hskip, hskip, h.2]; rfl⟩
      | cons c rest =>
          have hskip := fun ds => (Mode.skipBlanks_append hcs ds).2
          have hlt := length_cut_lt (hskip ds)
          simp only [lexemesAt_of_skipBlanks_eq_cons (hskip _)] at h ⊢
          obtain hlost | ⟨fixed, hfixed⟩ := bounded_cutExpr c rest
          · exact absurd h ((hlost ds hds).not_closes _ inner)
          · have hcut : ∀ ds, Trailing ds → Mode.expr.cut c (rest ++ ds) = fixed.before ds := hfixed
            rw [hcut ds hds] at h hlt ⊢
            rw [hcut ['}'] ⟨by simp, by simp [isTrailing]⟩]
            obtain ⟨-, hleave, hend⟩ | ⟨others, -, hexpr, hothers⟩ := Closes.cons_iff.mp h
            · have hkind : fixed.kind = .leaveExpr := congrArg Lexeme.kind hleave
              simp only [Cut.before, hkind] at hend
              exact absurd (List.append_eq_nil_iff.mp (lexemesAt_text_eq hend)).2 hds.1
            · have hafter : Mode.expr.after fixed.kind = .expr := by
                refine Mode.after_expr fun hkind => ?_
                simp [Cut.toLexeme, Cut.before, hkind, Kind.isExpr] at hexpr
              simp only [Cut.before, hafter] at hothers ⊢
              obtain ⟨hblanks, hsame⟩ := ih _ (by simpa [Cut.before] using hlt) hothers rfl
              exact ⟨hblanks, congrArg₂ List.cons rfl hsame⟩

/-- Blanks in front of an expression do not show in its lexemes. -/
theorem lexemesAt_leading {blanks cs : List Char} (hblanks : ∀ c ∈ blanks, Text.isBlank c)
    {inner : List Lexeme} (h : Closes inner (lexemesAt .expr (blanks ++ cs))) :
    lexemesAt .expr (blanks ++ cs) = lexemesAt .expr cs := by
  induction blanks with
  | nil => rfl
  | cons c blanks ih =>
      obtain ⟨hc, hblanks⟩ := List.forall_mem_cons.mp hblanks
      by_cases hskip : isBlank c
      · have hsame : lexemesAt .expr (c :: (blanks ++ cs)) = lexemesAt .expr (blanks ++ cs) :=
          lexemesAt_congr (List.dropWhile_cons_of_pos hskip)
        rw [List.cons_append, hsame] at h ⊢
        exact ih hblanks h
      · have hfirst : Mode.expr.skipBlanks (c :: (blanks ++ cs)) = c :: (blanks ++ cs) :=
          List.dropWhile_cons_of_neg hskip
        rw [List.cons_append, lexemesAt_of_skipBlanks_eq_cons hfirst] at h
        exact absurd (kind_cutExpr_of_isBlank hc (by simpa using hskip) _) h.kind_ne

end Token

namespace Text

theorem exists_trimChars (cs : List Char) :
    ∃ front back, cs = front ++ trimChars cs ++ back ∧ (∀ c ∈ front, isBlank c) ∧
      ∀ c ∈ back, isBlank c := by
  refine ⟨cs.takeWhile isBlank, ((cs.dropWhile isBlank).reverse.takeWhile isBlank).reverse, ?_,
    fun c hc => List.mem_takeWhile_imp hc,
    fun c hc => List.mem_takeWhile_imp (List.mem_reverse.mp hc)⟩
  have hback := List.takeWhile_append_dropWhile (p := isBlank) (l := (cs.dropWhile isBlank).reverse)
  rw [trimChars, List.append_assoc, ← List.reverse_append, hback, List.reverse_reverse,
    List.takeWhile_append_dropWhile]

end Text

/-- An open brace is one lexeme, whatever stands behind it. -/
theorem Token.map_toLexeme_scan_brace (cs : List Char) :
    (scan (.ofList ('{' :: cs))).map toLexeme = .symbol .enterExpr :: lexemesAt .expr cs := by
  have hskip : Mode.text.skipBlanks ('{' :: cs) = '{' :: cs := rfl
  rw [scan_eq_scanAt, String.toList_ofList]
  exact lexemesAt_of_skipBlanks_eq_cons hskip

namespace Template

open Token (Closes lexemesAt)

/-- A source of a single fragment that starts with a brace is an expression up to its end. -/
theorem closes_of_parse {cs : List Char} {f : Fragment}
    (h : parse (.ofList ('{' :: cs)) = .ok [f]) : ∃ inner, Closes inner (lexemesAt .expr cs) := by
  obtain ⟨ls, hls, hspelled⟩ := exists_spelled_of_parse h
  rw [Token.map_toLexeme_scan_brace] at hls
  cases hspelled with
  | cons hf ht =>
      cases ht
      cases hf with
      | text content => cases hls
      | @expr e ls he => exact ⟨ls, he.isExpr, by simpa using hls⟩

/-- All blanks around an expression that is accepted between braces can be taken away, and without
them it neither starts nor ends with a brace. -/
theorem parse_trimChars {cs : List Char} {f : Fragment}
    (h : parse (.ofList ('{' :: (cs ++ ['}']))) = .ok [f]) :
    (Text.trimChars cs).head? ≠ some '{' ∧ (Text.trimChars cs).getLast? ≠ some '}' ∧
      parse (.ofList ('{' :: (Text.trimChars cs ++ ['}']))) = .ok [f] := by
  obtain ⟨front, back, hcs, hfront, hback⟩ := Text.exists_trimChars cs
  obtain ⟨inner, hcloses⟩ := closes_of_parse h
  generalize Text.trimChars cs = trimmed at hcs ⊢
  subst hcs
  have hdelim : Token.Trailing (back ++ ['}']) := by
    refine ⟨by simp, fun c hc => ?_⟩
    obtain hc | hc := List.mem_append.mp hc
    · simp [Token.isTrailing, hback c hc]
    · simp [Token.isTrailing, List.mem_singleton.mp hc]
  simp only [List.append_assoc] at hcloses
  have hleading := Token.lexemesAt_leading hfront hcloses
  rw [hleading] at hcloses
  obtain ⟨-, htrailing⟩ := Token.closes_trailing hdelim hcloses
  refine ⟨?_, ?_, ?_⟩
  · intro hhead
    obtain ⟨rest, rfl⟩ := List.head?_eq_some_iff.mp hhead
    exact hcloses.kind_ne rfl
  · intro hlast
    obtain ⟨rest, rfl⟩ := List.getLast?_eq_some_iff.mp hlast
    have hmore : Token.Trailing ('}' :: (back ++ ['}'])) :=
      ⟨by simp, List.forall_mem_cons.mpr ⟨rfl, hdelim.2⟩⟩
    rw [List.append_assoc] at hcloses
    obtain ⟨⟨blanks, hblanks, hall⟩, -⟩ := Token.closes_trailing hmore hcloses
    cases blanks with
    | nil => simp at hblanks
    | cons c blanks =>
        obtain ⟨rfl, -⟩ := List.cons.inj hblanks
        cases hall '}' (by simp)
  · refine parse_congr ?_ h
    simp only [List.append_assoc, Token.map_toLexeme_scan_brace]
    rw [htrailing, hleading]

end Template
end Phrasebook
