import Mathlib
import Phrasebook.Proofs.Evaluation.Values
import Phrasebook.Proofs.Template.Alike
import Phrasebook.Proofs.Template.Escaping
import Phrasebook.Proofs.Template.Seam

/-!
# Quoting

Every text can be put into a template, as literal text and as a quoted literal between braces. It is
written with escapes, and then it is the only fragment of the template, and the only item of what
the template evaluates to (`quoting_inverted`).
-/

namespace Phrasebook.Template

/-- A text as literal text. -/
def literally (s : String) : String := .ofList (Token.escaped '{' s.toList)

/-- A text between quotes and braces. -/
def quoted (quote : Char) (s : String) : String :=
  .ofList ('{' :: quote :: (Token.escaped quote s.toList ++ [quote, '}']))

theorem scan_literally {s : String} (h : s ≠ "") :
    ∃ stop, Token.scan (literally s) = [⟨.text, s, 0⟩, .endOfInput stop] := by
  have hspan := Token.textSpan_escaped s.toList
  have hne : Token.escaped '{' s.toList ≠ [] := by
    intro hnil
    have hvalue := Token.decodeText_escaped s.toList
    rw [hnil] at hvalue
    exact h (String.toList_eq_nil_iff.mp hvalue.symm)
  rw [Token.scan_eq_scanAt, literally, String.toList_ofList, Token.scanAt_text (by rwa [hspan]),
    hspan, Token.decodeText_escaped, String.ofList_toList, Token.scanAt_of_skipBlanks_eq_nil rfl]
  exact ⟨_, rfl⟩

theorem scan_quoted {quote : Char} (hquote : Token.isQuote quote) (s : String) :
    ∃ leave stop, Token.scan (quoted quote s) =
      [⟨.enterExpr, "\x7b", 0⟩, ⟨.string, s, 1⟩, ⟨.leaveExpr, "\x7d", leave⟩,
        .endOfInput stop] := by
  obtain ⟨hblank, -, hslash⟩ := Token.not_special_of_isQuote hquote
  have hskip : ∀ cs, Token.Mode.expr.skipBlanks (quote :: cs) = quote :: cs := fun cs => by
    simp [Token.Mode.skipBlanks, hblank]
  have hblanks : ∀ cs, Token.Mode.expr.blanks (quote :: cs) = [] := fun cs => by
    simp [Token.Mode.blanks, hblank]
  have hcut : Token.Mode.expr.cut quote (Token.escaped quote s.toList ++ [quote, '\x7d']) =
      ⟨.string, quote :: (Token.escaped quote s.toList ++ [quote]), ['\x7d']⟩ :=
    Token.cutExpr_escaped hquote s.toList '\x7d' []
  have hvalue : Token.decode .string (quote :: (Token.escaped quote s.toList ++ [quote])) =
      s.toList := Token.decodeQuoted_escaped hslash s.toList
  -- The open brace is cut off first, and the quote is what comes next in the expression.
  rw [Token.scan_eq_scanAt, quoted, String.toList_ofList, Token.scanAt_of_skipBlanks_eq_cons rfl]
  show ∃ leave stop, _ :: Token.scanAt .expr 1 (quote :: _) = _
  rw [Token.scanAt_of_skipBlanks_eq_cons (hskip _), hblanks, hcut, hvalue, String.ofList_toList]
  exact ⟨_, _, rfl⟩

theorem parse_literally (s : String) :
    parse (literally s) = .ok (if s = "" then [] else [.text s]) := by
  by_cases h : s = ""
  · subst h
    rfl
  · obtain ⟨stop, hscan⟩ := scan_literally h
    apply parse_of_readFragments <;> rw [hscan]
    · rw [if_neg h]
      rfl
    · rfl

theorem parse_quoted {quote : Char} (hquote : Token.isQuote quote) (s : String) :
    parse (quoted quote s) = .ok [.expr (.literal .string s)] := by
  obtain ⟨leave, stop, hscan⟩ := scan_quoted hquote s
  apply parse_of_readFragments <;> rw [hscan] <;> rfl

theorem outcome_eval_literal {scope : Scope} (h : 2 ≤ scope.limit) (s : String) :
    ((scope.eval [.expr (.literal .string s)]).runAt 0).1 = .ok (.list [.text s]) :=
  Scope.outcome_template (by omega)
    (.cons (Scope.ComesTo.literal (by omega) .string s).fragment .nil)

theorem outcome_eval_text {scope : Scope} (h : 2 ≤ scope.limit) (s : String) :
    ((scope.eval (if s = "" then [] else [.text s])).runAt 0).1 =
      .ok (.list (if s = "" then [] else [.text s])) := by
  apply Scope.outcome_template (by omega)
  split
  · exact .nil
  · exact .cons (Scope.outcome_textFragment (by omega) s) .nil

/-- Quoting a text between any of the three quotes, or escaping it as literal text, is undone by
reading, and every evaluation of what is read has the text as its only item. The empty text is no
fragment and no item as literal text. -/
theorem quoting_inverted (s : String) :
    (∀ quote ∈ ['\'', '"', '\x60'],
      parse (quoted quote s) = .ok [.expr (.literal .string s)]) ∧
      parse (literally s) = .ok (if s = "" then [] else [.text s]) ∧
      ∀ scope : Scope, 2 ≤ scope.limit →
        ((scope.eval [.expr (.literal .string s)]).runAt 0).1 = .ok (.list [.text s]) ∧
        ((scope.eval (if s = "" then [] else [.text s])).runAt 0).1 =
          .ok (.list (if s = "" then [] else [.text s])) := by
  refine ⟨fun quote hquote => parse_quoted ?_ s, parse_literally s, fun scope hlimit => ?_⟩
  · simpa [Token.isQuote, or_assoc] using hquote
  · exact ⟨outcome_eval_literal hlimit s, outcome_eval_text hlimit s⟩

/-- A scope for two levels. -/
def shallowScope : Scope := ⟨.html, "en", ∅, ∅, 2⟩

/-- A quote, a backslash and a closing brace between quotes of the same kind. -/
theorem quoting_inverted_of_marks :
    '\'' ∈ ['\'', '"', '\x60'] ∧ 2 ≤ shallowScope.limit ∧
      quoted '\'' "'\\\x7d" = "\x7b'\\'\\\\\x7d'\x7d" ∧
      parse (quoted '\'' "'\\\x7d") = .ok [.expr (.literal .string "'\\\x7d")] ∧
      ((shallowScope.eval [.expr (.literal .string "'\\\x7d")]).runAt 0).1 =
        .ok (.list [.text "'\\\x7d"]) := by
  have hquote : '\'' ∈ ['\'', '"', '\x60'] := List.mem_cons_self
  have hlimit : 2 ≤ shallowScope.limit := Nat.le_refl 2
  obtain ⟨hparse, -, heval⟩ := quoting_inverted "'\\\x7d"
  exact ⟨hquote, hlimit, rfl, hparse _ hquote, (heval _ hlimit).1⟩

end Phrasebook.Template
