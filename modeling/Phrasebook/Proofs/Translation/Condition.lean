import Mathlib
import Phrasebook.Proofs.Template.Blanks
import Phrasebook.Proofs.Translation.Compilation

/-!
# Conditions

The text of a condition is taken as a template, with a brace at each end if it has none there. Of an
accepted one the condition is the first fragment, an expression up to the first brace that closes
it; what stands behind that brace is read, but dropped (`Compiler.condition_is_first_fragment`). If
no closing brace stands inside of the text, nothing is dropped.

Neither the braces nor the blanks around an expression make a difference
(`Compiler.braces_are_optional`).
-/

namespace Phrasebook

theorem Token.eq_append_cut {mode : Mode} {cs : List Char} {c : Char} {rest : List Char}
    (h : mode.skipBlanks cs = c :: rest) :
    cs = mode.blanks cs ++ (mode.cut c rest).span ++ (mode.cut c rest).rest := by
  rw [List.append_assoc, (proper_cut h).append, ← h, (mode.skips_blanks cs).2]

/-- A brace that closes an expression in front of other tokens is a character of the source, and not
the last one. -/
theorem Token.mem_dropLast_of_leaveExpr {mode : Mode} {cs : List Char} {front behind : List Lexeme}
    (h : lexemesAt mode cs = front ++ .symbol .leaveExpr :: (behind ++ [⟨.eof, ""⟩]))
    (hbehind : behind ≠ []) : '}' ∈ cs.dropLast := by
  induction front generalizing mode cs with
  | nil =>
      cases hskip : mode.skipBlanks cs with
      | nil =>
          rw [lexemesAt_of_skipBlanks_eq_nil hskip] at h
          simp [Lexeme.symbol] at h
      | cons c rest =>
          rw [lexemesAt_of_skipBlanks_eq_cons hskip] at h
          obtain ⟨hleave, hrest⟩ := List.cons.inj h
          have hkind : (mode.cut c rest).kind = .leaveExpr := congrArg Lexeme.kind hleave
          have hspan : (mode.cut c rest).span = ['}'] := by
            have hregular := (regular_cut mode c rest).span
            rw [hkind] at hregular
            exact hregular rfl
          have hne : (mode.cut c rest).rest ≠ [] := by
            intro hnil
            rw [hnil, lexemesAt_nil] at hrest
            exact hbehind (List.self_eq_append_left.mp hrest)
          rw [eq_append_cut hskip, hspan, List.dropLast_append_of_ne_nil hne]
          simp
  | cons l front ih =>
      cases hskip : mode.skipBlanks cs with
      | nil =>
          rw [lexemesAt_of_skipBlanks_eq_nil hskip] at h
          simp at h
      | cons c rest =>
          rw [lexemesAt_of_skipBlanks_eq_cons hskip] at h
          have hmem := ih (List.cons.inj h).2
          have hne : (mode.cut c rest).rest ≠ [] := by
            intro hnil
            rw [hnil] at hmem
            cases hmem
          rw [eq_append_cut hskip, List.dropLast_append_of_ne_nil hne]
          exact List.mem_append_right _ hmem

namespace Text

theorem trimChars_append {front back : List Char} (hfront : ∀ c ∈ front, isBlank c)
    (hback : ∀ c ∈ back, isBlank c) (cs : List Char) :
    trimChars (front ++ (cs ++ back)) = trimChars cs := by
  rw [trimChars, List.dropWhile_append_of_pos hfront, List.dropWhile_append]
  split
  · next hempty =>
      rw [List.isEmpty_iff] at hempty
      rw [trimChars, hempty, List.dropWhile_eq_nil_iff.mpr hback]
  · rw [trimChars, List.reverse_append,
      List.dropWhile_append_of_pos fun c hc => hback c (List.mem_reverse.mp hc)]

end Text

namespace Translation

namespace Compiler

/-- A condition starts with a brace as a template, and its only closing brace is at the end, unless
there is one inside of the condition. -/
theorem exists_braced (source : String) :
    ∃ cs, braced source = .ofList ('{' :: cs) ∧
      ('}' ∉ (Text.trimChars source.toList).dropLast → '}' ∉ cs.dropLast) := by
  simp only [braced]
  generalize Text.trimChars source.toList = cs
  obtain ⟨ds, hopening⟩ : ∃ ds, (if cs.head? = some '{' then [] else ['{']) ++ cs ++
      (if cs.getLast? = some '}' then [] else ['}']) = '{' :: ds := by
    split
    · next hhead =>
        obtain ⟨rest, rfl⟩ := List.head?_eq_some_iff.mp hhead
        exact ⟨_, rfl⟩
    · exact ⟨_, rfl⟩
  refine ⟨ds, congrArg String.ofList hopening, fun hcs hds => ?_⟩
  have hmem : '}' ∈ ('{' :: ds).dropLast := by
    rw [List.dropLast_cons_of_ne_nil (by rintro rfl; cases hds)]
    exact List.mem_cons_of_mem _ hds
  rw [← hopening] at hmem
  obtain rfl | ⟨front, last, rfl⟩ := List.eq_nil_or_concat' cs
  · simp at hmem
  rw [List.dropLast_concat] at hcs
  have hnot : '}' ∉ if (front ++ [last]).head? = some '{' then [] else ['{'] := by
    split <;> simp
  rw [List.getLast?_concat] at hmem
  by_cases hlast : some last = some '}'
  · rw [if_pos hlast, List.append_nil, ← List.append_assoc, List.dropLast_concat,
      List.mem_append] at hmem
    exact hmem.elim hnot hcs
  · rw [if_neg hlast, List.dropLast_concat, List.mem_append, List.mem_append,
      List.mem_singleton] at hmem
    exact hmem.elim hnot (·.elim hcs fun h => hlast (congrArg some h.symm))

/-- A template is compiled without an issue exactly if it is accepted. -/
theorem run_template_iff (c : Compiler) (key source : String) {issues : List TemplateIssue}
    {t : Template} :
    (c.template key source).run issues = .ok (t, issues) ↔ Template.parse source = .ok t := by
  cases hread : Template.read source with
  | mk t' errors =>
      rw [template, Template.parse, hread]
      cases errors with
      | nil =>
          change Except.ok (t', issues) = _ ↔ Except.ok t' = _
          simp
      | cons e errors =>
          cases hstrict : c.strict with
          | true =>
              change Except.error _ = _ ↔ Except.error _ = _
              simp
          | false =>
              change Except.ok (t', issues ++ _) = _ ↔ Except.error _ = _
              simp

theorem parse_braced_ne_nil {source : String} {t : Template}
    (h : Template.parse (braced source) = .ok t) : t ≠ [] := by
  rintro rfl
  obtain ⟨cs, hcs, -⟩ := exists_braced source
  obtain ⟨ls, hls, hspelled⟩ := Template.exists_spelled_of_parse h
  rw [hcs, Token.map_toLexeme_scan_brace] at hls
  cases hspelled
  cases hls

/-- A condition is compiled without an issue exactly if its template is accepted, and then it is the
first fragment. -/
theorem run_condition (c : Compiler) (key source : String) {issues : List TemplateIssue}
    {n : Node} : (c.condition key source).run issues = .ok (n, issues) ↔
      ∃ f fs, Template.parse (braced source) = .ok (f :: fs) ∧ n = .fragment f := by
  rw [condition, Compile.run_bind]
  constructor
  · intro h
    cases hrun : (c.template key (braced source)).run issues with
    | error e =>
        rw [hrun] at h
        cases h
    | ok result =>
        obtain ⟨t, issues'⟩ := result
        rw [hrun] at h
        cases t with
        | nil =>
            cases h
            exact absurd rfl (parse_braced_ne_nil ((run_template_iff c key _).mp hrun))
        | cons f fs =>
            cases h
            exact ⟨f, fs, (run_template_iff c key _).mp hrun, rfl⟩
  · rintro ⟨f, fs, hparse, rfl⟩
    rw [(run_template_iff c key (braced source)).mpr hparse]
    rfl

/-- Without an issue, a condition is an expression up to the first brace that closes it. The lexemes
up to there spell it, and the others spell what is dropped. Nothing is dropped if no closing brace
stands inside of the text. -/
theorem condition_is_first_fragment (c : Compiler) (key source : String)
    (issues : List TemplateIssue) (n : Node) :
    (c.condition key source).run issues = .ok (n, issues) ↔
      ∃ e dropped inner behind, n = .fragment (.expr e) ∧
        Template.parse (braced source) = .ok (.expr e :: dropped) ∧
        (Token.scan (braced source)).map Token.toLexeme =
          .symbol .enterExpr :: inner ++ .symbol .leaveExpr :: (behind ++ [⟨.eof, ""⟩]) ∧
        (∀ l ∈ inner, l.kind.isExpr) ∧ e.Spelled inner true ∧ Template.Spelled dropped behind ∧
        ('}' ∉ (Text.trimChars source.toList).dropLast → dropped = []) := by
  rw [run_condition]
  constructor
  · rintro ⟨f, dropped, hparse, rfl⟩
    obtain ⟨cs, hcs, hinside⟩ := exists_braced source
    obtain ⟨ls, hls, hspelled⟩ := Template.exists_spelled_of_parse hparse
    cases hspelled with
    | @cons _ _ first behind hf hdropped =>
        have hscan := hls
        rw [hcs, Token.map_toLexeme_scan_brace] at hls
        cases hf with
        | text content => cases hls
        | @expr e inner he =>
            refine ⟨e, dropped, inner, behind, rfl, hparse, by simpa using hscan, he.isExpr, he,
              hdropped, fun hsource => ?_⟩
            by_contra hne
            have hbehind : behind ≠ [] := by
              cases hdropped with
              | nil => exact absurd rfl hne
              | cons hf _ => exact List.append_ne_nil_of_left_ne_nil hf.ne_nil _
            have hinner : Token.lexemesAt .expr cs =
                inner ++ .symbol .leaveExpr :: (behind ++ [⟨.eof, ""⟩]) := by simpa using hls
            exact hinside hsource (Token.mem_dropLast_of_leaveExpr hinner hbehind)
  · rintro ⟨e, dropped, -, -, rfl, hparse, -⟩
    exact ⟨.expr e, dropped, hparse, rfl⟩

example : (condition ⟨"en", true⟩ "k" "\x7ba\x7d and \x7bb\x7d").run [] =
    .ok (.fragment (.expr (.ident "a")), []) := rfl

/-- Compiles what stands behind a condition: the value that it guards, and the alternatives. -/
def guarded (condition : Node) : List (Compile Translation) → Compile Translation
  | [] => pure never
  | [first] => return (← first).guardedBy condition
  | first :: second :: others => do
    let first ← first
    return ofGroup (first.guardedBy condition :: (← (second :: others).mapM id))

theorem conditionSource?_mark (source : String) :
    conditionSource? ("if:" ++ source) = some source := by
  have hmark : ("if:" ++ source).toList = 'i' :: 'f' :: ':' :: source.toList := by simp
  simp [conditionSource?, hmark, conditionMark]

/-- An array that starts with a condition is what the condition guards. -/
theorem leaf_conditional (c : Compiler) (key : String) {first : Json} {source : String}
    (hsource : leadingCondition? first = some source) (items : List Json) :
    c.leaf key (.array (first :: items)) =
      c.condition key source >>= fun n => guarded n (items.map (c.leaf key)) := by
  simp only [leaf, leaves_eq_map, array, List.head?_cons, Option.bind_some, hsource,
    List.map_cons, List.tail_cons]
  cases items with
  | nil => rfl
  | cons guarded others =>
      cases others with
      | nil => rfl
      | cons other others => rfl

/-- A condition that is accepted as a single fragment is compiled to it. -/
theorem condition_of_parse (c : Compiler) (key : String) {source : String} {f : Fragment}
    (h : Template.parse (braced source) = .ok [f]) :
    c.condition key source = pure (.fragment f) := by
  funext issues
  exact (run_condition c key source).mpr ⟨f, [], h, rfl⟩

/-- Between blanks, an expression is the same condition with and without braces. -/
theorem parse_braced {cs front back : List Char} {f : Fragment}
    (h : Template.parse (.ofList ('{' :: (cs ++ ['}']))) = .ok [f])
    (hfront : ∀ c ∈ front, Text.isBlank c) (hback : ∀ c ∈ back, Text.isBlank c) :
    Template.parse (braced (.ofList (front ++ (cs ++ back)))) = .ok [f] ∧
      Template.parse (braced (.ofList (front ++ ('{' :: (cs ++ ['}']) ++ back)))) = .ok [f] := by
  constructor
  · obtain ⟨hhead, hlast, htrimmed⟩ := Template.parse_trimChars h
    simpa [braced, Text.trimChars_append hfront hback, hhead, hlast] using htrimmed
  · have hbraces : Text.trimChars ('{' :: (cs ++ ['}'])) = '{' :: (cs ++ ['}']) := by
      have hopen : Text.isBlank '{' = false := rfl
      have hclose : Text.isBlank '}' = false := rfl
      simp [Text.trimChars, hopen, hclose]
    have hlast : ('{' :: (cs ++ ['}'])).getLast? = some '}' := by
      rw [← List.cons_append, List.getLast?_concat]
    rw [braced, String.toList_ofList, Text.trimChars_append hfront hback, hbraces,
      if_pos (List.head?_cons), if_pos hlast, List.nil_append, List.append_nil]
    exact h

/-- Neither braces nor blanks around an expression make a difference to the condition that it is,
whatever the condition guards. -/
theorem braces_are_optional {e before behind : String} {f : Fragment}
    (h : Template.parse ("\x7b" ++ e ++ "\x7d") = .ok [f])
    (hbefore : ∀ ch ∈ before.toList, Text.isBlank ch)
    (hbehind : ∀ ch ∈ behind.toList, Text.isBlank ch) (c : Compiler) (key : String) :
    ∀ written ∈ [e, "\x7b" ++ e ++ "\x7d"], ∃ source,
      conditionSource? ("if:" ++ before ++ written ++ behind) = some source ∧
      c.condition key source = pure (.fragment f) ∧
      ∀ items, c.leaf key (.array (.string ("if:" ++ before ++ written ++ behind) :: items)) =
        guarded (.fragment f) (items.map (c.leaf key)) := by
  have hsource : "\x7b" ++ e ++ "\x7d" = .ofList ('{' :: (e.toList ++ ['}'])) := by
    rw [← String.toList_inj]
    simp
  rw [hsource] at h
  obtain ⟨hplain, hbraces⟩ := parse_braced h hbefore hbehind
  intro written hwritten
  have hparse : Template.parse (braced (before ++ written ++ behind)) = .ok [f] := by
    have hlists : before ++ written ++ behind =
        .ofList (before.toList ++ (written.toList ++ behind.toList)) := by
      rw [← String.toList_inj]
      simp
    rw [hlists]
    rw [hsource, List.mem_pair] at hwritten
    obtain rfl | rfl := hwritten
    · exact hplain
    · rw [String.toList_ofList]
      exact hbraces
  have hcondition := condition_of_parse c key hparse
  have hmark : conditionSource? ("if:" ++ before ++ written ++ behind) =
      some (before ++ written ++ behind) := by
    rw [String.append_assoc, String.append_assoc, conditionSource?_mark, String.append_assoc]
  have hleading : leadingCondition? (.string ("if:" ++ before ++ written ++ behind)) =
      some (before ++ written ++ behind) := hmark
  refine ⟨_, hmark, hcondition, fun items => ?_⟩
  rw [leaf_conditional c key hleading, hcondition, pure_bind]

/-- A comparison with a text of blanks and braces. -/
def comparison : String := " name == \"\x7d \x7b \""

/-- The comparison as a fragment. -/
def comparisonRead : Fragment :=
  .expr (.binary .equal (.ident "name") (.literal .string "\x7d \x7b "))

theorem braces_are_optional_of_comparison :
    Template.parse ("\x7b" ++ comparison ++ "\x7d") = .ok [comparisonRead] ∧
    (∀ ch ∈ "\u00a0".toList, Text.isBlank ch) ∧ (∀ ch ∈ "\t\u2003".toList, Text.isBlank ch) ∧
    ∀ written ∈ [comparison, "\x7b" ++ comparison ++ "\x7d"], ∃ source,
      conditionSource? ("if:" ++ "\u00a0" ++ written ++ "\t\u2003") = some source ∧
      condition ⟨"en", true⟩ "k" source = pure (.fragment comparisonRead) ∧
      ∀ items,
        leaf ⟨"en", true⟩ "k" (.array (.string ("if:" ++ "\u00a0" ++ written ++ "\t\u2003") :: items)) =
          guarded (.fragment comparisonRead) (items.map (leaf ⟨"en", true⟩ "k")) := by
  have hparse : Template.parse ("\x7b" ++ comparison ++ "\x7d") = .ok [comparisonRead] := rfl
  have hbefore : ∀ ch ∈ "\u00a0".toList, Text.isBlank ch := by simp [Text.isBlank]
  have hbehind : ∀ ch ∈ "\t\u2003".toList, Text.isBlank ch := by simp [Text.isBlank]
  exact ⟨hparse, hbefore, hbehind, braces_are_optional hparse hbefore hbehind ⟨"en", true⟩ "k"⟩

end Compiler

end Translation

end Phrasebook
