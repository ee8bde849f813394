import Mathlib
import Phrasebook.Proofs.Evaluation.Values
import Phrasebook.Proofs.Number.Digits
import Phrasebook.Proofs.Template.Blanks
import Phrasebook.Proofs.Template.Completeness
import Phrasebook.Proofs.Value.Exclusion

/-!
# Integers in a template

The text of an integer between braces is read as its digits, with the minus sign as an operator in
front of them if there is one. Underscores may stand anywhere behind the first digit. So an integer
comes back as the value of its text, with one exception: the digits of the smallest integer are
those of a number beyond the largest one, and such a literal is zero (`integers_come_back`).
-/

namespace Phrasebook

/-- Digits with any number of underscores behind the first one, and anywhere else. -/
structure Number.Separated (digits cs : List Char) : Prop where
  filter : cs.filter (· != '_') = digits
  head : cs.head? ≠ some '_'

namespace Number.Separated

variable {cs : List Char} {n : Nat}

/-- There need not be any underscores. -/
theorem toDigits (n : Nat) : Separated (Nat.toDigits 10 n) (Nat.toDigits 10 n) := by
  have hne : ∀ c ∈ Nat.toDigits 10 n, c ≠ '_' := by
    rintro c hc rfl
    cases isDigit_of_mem_toDigits hc
  refine ⟨List.filter_eq_self.mpr fun c hc => bne_iff_ne.mpr (hne c hc), fun hhead => ?_⟩
  exact hne '_' (List.mem_of_head? hhead) rfl

theorem isNumeral (h : Separated (Nat.toDigits 10 n) cs) : Token.IsNumeral cs := by
  have hdigit : ∀ c ∈ cs, c ≠ '_' → c.isDigit := by
    intro c hc hunderscore
    apply isDigit_of_mem_toDigits (n := n)
    rw [← h.filter, List.mem_filter]
    exact ⟨hc, bne_iff_ne.mpr hunderscore⟩
  cases cs with
  | nil => exact absurd h.filter.symm Nat.toDigits_ne_nil
  | cons first more =>
      have hfirst : first ≠ '_' := fun hc => h.head (congrArg some hc)
      refine ⟨first, more, rfl, hdigit first List.mem_cons_self hfirst, ?_⟩
      refine List.all_eq_true.mpr fun c hc => ?_
      by_cases hunderscore : c = '_'
      · simp [Token.isDigitPart, hunderscore]
      · simp [Token.isDigitPart, hdigit c (List.mem_cons_of_mem first hc) hunderscore]

/-- A literal has the value of its digits, and zero if they are too many. -/
theorem literal (h : Separated (Nat.toDigits 10 n) cs) :
    Evaluation.literal .int (.ofList cs) =
      .int (if (n : Int) ≤ maxInt64 then .ofInt n else 0) := by
  have hread := readInt64?_toDigits n
  simp only [Evaluation.literal, String.toList_ofList, h.filter, hread]
  split <;> rfl

end Number.Separated

namespace Lexeme

open Token (lexemesAt)

theorem Readable.lexemesAt_brace {l : Lexeme} (h : l.Readable) :
    lexemesAt .expr (l.chars ++ ['\x7d']) = [l, symbol .leaveExpr, ⟨.eof, ""⟩] := by
  obtain ⟨c, cs, hchars, hc, hcut⟩ := h.cut
  have hskip : Token.Mode.expr.skipBlanks (l.chars ++ ['\x7d']) = c :: (cs ++ ['\x7d']) := by
    simp [Token.Mode.skipBlanks, hchars, hc]
  have hexact : Token.Mode.expr.cut c (cs ++ ['\x7d']) = ⟨l.kind, l.chars, ['\x7d']⟩ :=
    hcut '\x7d' [] (.inr rfl)
  rw [Token.lexemesAt_of_skipBlanks_eq_cons hskip, hexact, Token.Mode.after_expr h.ne_leave,
    Token.Cut.toLexeme, h.decode, String.ofList_toList]
  rfl

/-- A minus sign is a lexeme, whatever stands behind it. -/
theorem lexemesAt_minus (cs : List Char) :
    lexemesAt .expr ('-' :: cs) = symbol .minus :: lexemesAt .expr cs := by
  have hskip : Token.Mode.expr.skipBlanks ('-' :: cs) = '-' :: cs := rfl
  have hcut : Token.Mode.expr.cut '-' cs = ⟨.minus, ['-'], cs⟩ := rfl
  rw [Token.lexemesAt_of_skipBlanks_eq_cons hskip, hcut]
  rfl

end Lexeme

namespace Template

/-- Characters between braces. -/
def braced (cs : List Char) : String := .ofList ('\x7b' :: (cs ++ ['\x7d']))

/-- A source with the lexemes of an expression between its braces is that expression. -/
theorem parse_of_written {e : Expr} (h : e.Writable) (hsize : e.operations ≤ 40) {cs : List Char}
    (hcs : Token.lexemesAt .expr (cs ++ ['\x7d']) =
      e.written ++ [.symbol .leaveExpr, ⟨.eof, ""⟩]) :
    parse (braced cs) = .ok [.expr e] := by
  have hread : ReadsWhole e := fun s l rest hs hl =>
    (readBack_of_writable h).all (maxNesting - 1) hs (by simp only [maxNesting]; omega) hl
  refine parse_congr ?_ (parse_source_of_readsWhole h hread)
  rw [Token.scan_source h, braced, Token.map_toLexeme_scan_brace, hcs, List.cons_append]

section Numeral

variable {cs : List Char} (h : Token.IsNumeral cs)

include h

theorem writable_numeral : (Expr.literal .int (.ofList cs)).Writable :=
  .literal (by simpa [LiteralKind.Admits] using h)

theorem lexemesAt_numeral :
    Token.lexemesAt .expr (cs ++ ['\x7d']) =
      [⟨.int, .ofList cs⟩, .symbol .leaveExpr, ⟨.eof, ""⟩] := by
  have hread : Lexeme.Readable ⟨.int, .ofList cs⟩ := Lexeme.readable_int (by simpa using h)
  have hbrace := hread.lexemesAt_brace
  rw [Lexeme.chars, if_neg (by simp), String.toList_ofList] at hbrace
  exact hbrace

theorem parse_numeral : parse (braced cs) = .ok [.expr (.literal .int (.ofList cs))] :=
  parse_of_written (writable_numeral h) (Nat.zero_le 40) (lexemesAt_numeral h)

theorem parse_negative :
    parse (braced ('-' :: cs)) = .ok [.expr (.unary .minus (.literal .int (.ofList cs)))] := by
  refine parse_of_written (.unary .minus (writable_numeral h)) (by simp [Expr.operations]) ?_
  rw [List.cons_append, Lexeme.lexemesAt_minus, lexemesAt_numeral h]
  rfl

end Numeral

/-- A source is accepted, and it has an integer as its only item wherever three levels are left. -/
def Yields (source : String) (n : Int64) : Prop :=
  ∃ t, parse source = .ok t ∧ ∀ (scope : Scope) (depth : Nat), depth + 3 ≤ scope.limit →
    ((scope.eval t).runAt depth).1 = .ok (.list [.int n])

theorem Yields.of_comesTo {source : String} {e : Expr} {n : Int64}
    (hparse : parse source = .ok [.expr e])
    (h : ∀ (scope : Scope) (depth : Nat), depth + 2 ≤ scope.limit →
      scope.ComesTo depth e (.int n)) : Yields source n := by
  refine ⟨_, hparse, fun scope depth hdepth => ?_⟩
  exact Scope.outcome_template (by omega) (.cons (h scope (depth + 1) (by omega)).fragment .nil)

/-- A source yields one integer at most. -/
theorem Yields.unique {source : String} {m n : Int64} (hm : Yields source m)
    (hn : Yields source n) : m = n := by
  obtain ⟨t, hparse, hm⟩ := hm
  obtain ⟨u, hsame, hn⟩ := hn
  obtain rfl : t = u := Except.ok.inj (hparse.symm.trans hsame)
  let scope : Scope := ⟨.markdown, "", ∅, ∅, 3⟩
  have hvalue := (hm scope 0 (Nat.le_refl 3)).symm.trans (hn scope 0 (Nat.le_refl 3))
  simpa using hvalue

section

open Number (Separated maxInt64)

variable {cs : List Char} {n : Nat} (h : Separated (Nat.toDigits 10 n) cs)

include h

theorem comesTo_numeral {scope : Scope} {depth : Nat} (hlt : depth < scope.limit) :
    scope.ComesTo depth (.literal .int (.ofList cs))
      (.int (if (n : Int) ≤ maxInt64 then .ofInt n else 0)) :=
  h.literal ▸ Scope.ComesTo.literal hlt .int (.ofList cs)

theorem yields_numeral :
    Yields (braced cs) (if (n : Int) ≤ maxInt64 then .ofInt n else 0) :=
  .of_comesTo (parse_numeral h.isNumeral) fun _ _ hdepth => comesTo_numeral h (by omega)

theorem yields_negative :
    Yields (braced ('-' :: cs)) (if (n : Int) ≤ maxInt64 then .ofInt (-n) else 0) := by
  refine .of_comesTo (parse_negative h.isNumeral) fun scope depth hdepth => ?_
  have hoperand : scope.ComesTo (depth + 1) (.literal .int (.ofList cs)) _ :=
    comesTo_numeral h hdepth
  have hvalue := hoperand.unary .minus
  have hneg : Evaluation.unary .minus (.int (if (n : Int) ≤ maxInt64 then .ofInt n else 0)) =
      .int (if (n : Int) ≤ maxInt64 then .ofInt (-n) else 0) := by
    split
    · rw [Int64.ofInt_neg]
      rfl
    · rfl
  exact hneg ▸ hvalue

end

/-- The text of an integer that is not negative is its digits. -/
theorem toList_toText_of_nonneg {n : Int64} (h : 0 ≤ n) :
    (Value.int n).toText.toList = Nat.toDigits 10 n.toInt.toNat := by
  rw [Value.toText_int, ← Number.toList_intText_natCast,
    Int.toNat_of_nonneg (Int64.le_iff_toInt_le.mp h)]

/-- The text of a negative integer is a minus sign and the digits of its opposite. -/
theorem toList_toText_of_neg {n : Int64} (h : n < 0) :
    (Value.int n).toText.toList = '-' :: Nat.toDigits 10 (-n.toInt).toNat := by
  have hneg : n.toInt < 0 := Int64.lt_iff_toInt_lt.mp h
  have hnat : (((-n.toInt).toNat : Nat) : Int) = -n.toInt := Int.toNat_of_nonneg (by omega)
  rw [Value.toText_int, ← Number.toList_intText_neg (by omega), hnat, neg_neg]

theorem yields_of_nonneg {n : Int64} (h : 0 ≤ n) {cs : List Char}
    (hcs : Number.Separated (Value.int n).toText.toList cs) : Yields (braced cs) n := by
  rw [toList_toText_of_nonneg h] at hcs
  have hnat := Int.toNat_of_nonneg (Int64.le_iff_toInt_le.mp h)
  have hle : n.toInt ≤ Number.maxInt64 := Int.le_of_lt_add_one n.toInt_lt
  have hyields := yields_numeral hcs
  rw [hnat, if_pos hle, Int64.ofInt_toInt] at hyields
  exact hyields

theorem yields_of_neg {n : Int64} (h : n < 0) :
    Yields (braced (Value.int n).toText.toList) (if n = Int64.minValue then 0 else n) := by
  have hneg : n.toInt < 0 := Int64.lt_iff_toInt_lt.mp h
  have hnat : (((-n.toInt).toNat : Nat) : Int) = -n.toInt := Int.toNat_of_nonneg (by omega)
  have hyields := yields_negative (.toDigits (-n.toInt).toNat)
  rw [← toList_toText_of_neg h, hnat, neg_neg, Int64.ofInt_toInt] at hyields
  -- Only the opposite of the smallest integer is beyond the largest one.
  have hmin : n = Int64.minValue ↔ ¬ -n.toInt ≤ Number.maxInt64 := by
    have hlow := n.le_toInt
    rw [← Int64.toInt_inj, Int64.toInt_minValue, Number.maxInt64]
    omega
  simpa only [hmin, ite_not] using hyields

/-- Every integer but the smallest one comes back as the only item of the template that is its text
between braces, and the smallest one comes back as zero. An integer that is not negative also comes
back with any number of underscores behind its first digit. -/
theorem integers_come_back (n : Int64) :
    Yields (braced (Value.int n).toText.toList) (if n = Int64.minValue then 0 else n) ∧
      (0 ≤ n → ∀ cs, Number.Separated (Value.int n).toText.toList cs → Yields (braced cs) n) := by
  refine ⟨?_, fun hn cs hcs => yields_of_nonneg hn hcs⟩
  by_cases hn : 0 ≤ n
  · have hmin : n ≠ Int64.minValue := by
      rintro rfl
      exact absurd hn (by decide)
    rw [if_neg hmin]
    refine yields_of_nonneg hn ?_
    rw [toList_toText_of_nonneg hn]
    exact .toDigits _
  · exact yields_of_neg (Int64.not_le.mp hn)

/-- The largest integer, with underscores between its thousands and at its end. -/
theorem integers_come_back_of_largest :
    0 ≤ Int64.maxValue ∧
      braced "9_223_372__036_854_775_807_".toList = "\x7b9_223_372__036_854_775_807_\x7d" ∧
      Yields (braced "9_223_372__036_854_775_807_".toList) Int64.maxValue := by
  have hseparated : Number.Separated (Value.int Int64.maxValue).toText.toList
      "9_223_372__036_854_775_807_".toList := ⟨by decide +kernel, by decide⟩
  have hnonneg : 0 ≤ Int64.maxValue := by decide
  exact ⟨hnonneg, rfl, (integers_come_back Int64.maxValue).2 hnonneg _ hseparated⟩

/-- The smallest integer does not come back: its digits are not those of an integer, so that their
opposite is zero. -/
theorem not_yields_smallest :
    braced (Value.int Int64.minValue).toText.toList = "\x7b-9223372036854775808\x7d" ∧
      Yields (braced (Value.int Int64.minValue).toText.toList) 0 ∧
      ¬ Yields (braced (Value.int Int64.minValue).toText.toList) Int64.minValue := by
  have hzero := yields_of_neg (n := Int64.minValue) (by decide)
  rw [if_pos rfl] at hzero
  exact ⟨by decide +kernel, hzero, fun h => absurd (h.unique hzero) (by decide)⟩

end Template

end Phrasebook
