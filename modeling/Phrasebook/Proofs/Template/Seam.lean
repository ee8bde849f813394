import Mathlib
import Phrasebook.Proofs.Template.Relocation

/-!
# The tokens of two sources in a row

Where a source ends outside of all braces, and not with a backslash, the tokens of what is written
behind it are the same as on their own: no token goes on over the seam, apart from a text that goes
on as a text (`Token.scan_append`).

Inside of the braces there is always a character left behind a token, if only the brace that closes
them, and a token that does not take everything that is left is the same in front of more.
-/

namespace Phrasebook.Token

/-- How a source is read behind tokens. -/
def Mode.behind (mode : Mode) (ts : List Token) : Mode :=
  ts.foldl (fun mode t => mode.after t.kind) mode

@[simp] theorem Mode.behind_nil (mode : Mode) : mode.behind [] = mode := rfl

@[simp] theorem Mode.behind_cons (mode : Mode) (t : Token) (ts : List Token) :
    mode.behind (t :: ts) = (mode.after t.kind).behind ts := rfl

theorem Mode.after_enterExpr (mode : Mode) : mode.after .enterExpr = .expr := rfl

theorem Mode.behind_append (mode : Mode) (ts us : List Token) :
    mode.behind (ts ++ us) = (mode.behind ts).behind us := List.foldl_append

theorem behind_of_inner {ts : List Token} (h : ∀ t ∈ ts, t.Inner) :
    Mode.expr.behind ts = .expr := by
  induction ts with
  | nil => rfl
  | cons t ts ih =>
      obtain ⟨⟨-, hclose⟩, h⟩ := List.forall_mem_cons.mp h
      rw [Mode.behind_cons, Mode.after_expr hclose, ih h]

theorem Balanced.behind {ts : List Token} (h : Balanced ts) : Mode.text.behind ts = .text := by
  induction h with
  | nil => rfl
  | text hkind _ ih => rwa [Mode.behind_cons, hkind]
  | braces henter hinner hleave _ ih =>
      rw [List.cons_append, Mode.behind_cons, henter, Mode.after_enterExpr, Mode.behind_append,
        behind_of_inner hinner, Mode.behind_cons, hleave]
      exact ih

/-- The tokens of a source that ends outside of all braces are those of whole fragments, and the end
of the input. -/
theorem Sectioned.balanced {ts : List Token} (h : Sectioned ts)
    (hmode : Mode.text.behind ts = .text) :
    Balanced ts.dropLast ∧ ∃ offset, ts = ts.dropLast ++ [endOfInput offset] := by
  obtain ⟨front, tail, rfl, hfront, htail⟩ := h
  rw [Mode.behind_append, hfront.behind] at hmode
  cases htail with
  | eof offset =>
      rw [List.dropLast_concat]
      exact ⟨hfront, offset, rfl⟩
  | unclosed offset henter hinner =>
      rw [List.cons_append, Mode.behind_cons, henter, Mode.after_enterExpr, Mode.behind_append,
        behind_of_inner hinner] at hmode
      cases hmode

/-- The tokens of a source, without the end of the input, in front of those of another one. Two
texts that meet are one. -/
def splice : List Token → List Token → List Token
  | [], us => us
  | [t], u :: us =>
    if t.kind = .text ∧ u.kind = .text then ⟨.text, t.lexeme ++ u.lexeme, t.offset⟩ :: us
    else t :: u :: us
  | t :: ts, us => t :: splice ts us

theorem splice_cons {t : Token} {ts us : List Token}
    (h : t.kind ≠ .text ∨ ts ≠ [] ∨ ∀ u ∈ us.head?, u.kind ≠ .text) :
    splice (t :: ts) us = t :: splice ts us := by
  cases ts with
  | cons => rfl
  | nil =>
      cases us with
      | nil => rfl
      | cons u us => exact if_neg (by simpa [or_iff_not_imp_left] using h)

theorem splice_ne_nil {ts us : List Token} (h : us ≠ []) : splice ts us ≠ [] := by
  unfold splice
  split
  · exact h
  · split <;> exact List.cons_ne_nil _ _
  · exact List.cons_ne_nil _ _

theorem splice_append_cons {t : Token} (h : t.kind ≠ .text) (front ts us : List Token) :
    splice (front ++ t :: ts) us = front ++ t :: splice ts us := by
  induction front with
  | nil => exact splice_cons (.inl h)
  | cons u front ih =>
      rw [List.cons_append, splice_cons (.inr (.inl (by simp))), ih, List.cons_append]

/-- The bound does not matter if it is above the number of characters. -/
theorem scanFrom_congr {bound bound' : Nat} (mode : Mode) (offset : Nat) {cs : List Char}
    (hbound : cs.length < bound) (hbound' : cs.length < bound') :
    scanFrom bound mode offset cs = scanFrom bound' mode offset cs := by
  induction bound generalizing bound' mode offset cs with
  | zero => omega
  | succ bound ih =>
      cases bound' with
      | zero => omega
      | succ bound' =>
          rw [scanFrom, scanFrom]
          split
          · rfl
          · next c rest hcons =>
              have hlength := length_cut_lt hcons
              exact congrArg _ (ih _ _ (by omega) (by omega))

/-- The offsets of the tokens are counted from the offset at which reading starts. -/
theorem scanFrom_add (bound : Nat) (mode : Mode) (bytes offset : Nat) (cs : List Char) :
    scanFrom bound mode (offset + bytes) cs =
      (scanFrom bound mode offset cs).map (shift bytes) := by
  induction bound generalizing mode offset cs with
  | zero => rfl
  | succ bound ih =>
      rw [scanFrom, scanFrom, Nat.add_right_comm]
      split
      · rfl
      · dsimp only
        rw [Nat.add_right_comm _ bytes, ih, List.map_cons]
        rfl

/-- The tokens of characters that are read in a mode from an offset on. -/
def scanAt (mode : Mode) (offset : Nat) (cs : List Char) : List Token :=
  scanFrom (cs.length + 1) mode offset cs

theorem scan_eq_scanAt (source : String) : scan source = scanAt .text 0 source.toList := rfl

theorem scanAt_of_skipBlanks_eq_nil {mode : Mode} {cs : List Char} (h : mode.skipBlanks cs = [])
    (offset : Nat) : scanAt mode offset cs = [endOfInput (offset + byteSize (mode.blanks cs))] := by
  rw [scanAt, scanFrom, h]

theorem scanAt_of_skipBlanks_eq_cons {mode : Mode} {cs : List Char} {c : Char} {rest : List Char}
    (h : mode.skipBlanks cs = c :: rest) (offset : Nat) :
    scanAt mode offset cs =
      ⟨(mode.cut c rest).kind,
        .ofList (decode (mode.cut c rest).kind (mode.cut c rest).span),
        offset + byteSize (mode.blanks cs)⟩ ::
      scanAt (mode.after (mode.cut c rest).kind)
        (offset + byteSize (mode.blanks cs) + byteSize (mode.cut c rest).span)
        (mode.cut c rest).rest := by
  rw [scanAt, scanFrom, h, scanAt]
  dsimp only
  rw [scanFrom_congr _ _ (length_cut_lt h) (Nat.lt_succ_self _)]

section Spans

variable {cs : List Char} (ds : List Char)

theorem takeWhile_dropWhile_append {p : Char → Bool} (h : cs.dropWhile p ≠ []) :
    (cs ++ ds).takeWhile p = cs.takeWhile p ∧
      (cs ++ ds).dropWhile p = cs.dropWhile p ++ ds := by
  induction cs with
  | nil => exact absurd rfl h
  | cons c cs ih =>
      by_cases hc : p c
      · simpa [hc] using ih (by simpa [hc] using h)
      · simp [hc]

theorem quotedSpan_append_right {quote : Char} (h : (quotedSpan quote cs).2 ≠ []) :
    quotedSpan quote (cs ++ ds) = ((quotedSpan quote cs).1, (quotedSpan quote cs).2 ++ ds) := by
  fun_induction quotedSpan quote cs with
  | case1 => exact absurd rfl h
  | case2 c => exact absurd rfl h
  | case3 d rest => simp [quotedSpan]
  | case4 c d rest hquote hescape ih =>
      rw [List.cons_append, List.cons_append, quotedSpan, if_neg hquote, if_pos hescape, ih h]
  | case5 c d rest hquote hescape ih =>
      rw [List.cons_append, List.cons_append, quotedSpan, if_neg hquote, if_neg hescape,
        ← List.cons_append, ih h]

theorem textSpan_append_right (h : (textSpan cs).2 ≠ []) :
    textSpan (cs ++ ds) = ((textSpan cs).1, (textSpan cs).2 ++ ds) := by
  fun_induction textSpan cs with
  | case1 => exact absurd rfl h
  | case2 rest => rfl
  | case3 rest ih => simp [textSpan, ih h]
  | case4 rest ih => simp [textSpan, ih h]
  | case5 c rest hbrace hopen hslash ih =>
      have hne : rest ≠ [] := by
        rintro rfl
        exact h rfl
      have hplain := head?_of_not_escape hopen hslash
      rw [List.cons_append, textSpan_cons hbrace, ih h]
      rwa [List.head?_append_of_ne_nil _ hne]

/-- A character behind which nothing is escaped in a list that does not end with a backslash. -/
theorem head?_append_of_not_escape {c : Char} {cs : List Char}
    (hplain : c = '\\' → ∀ d ∈ cs.head?, d ≠ '{' ∧ d ≠ '\\') (hend : ¬ ['\\'] <:+ c :: cs) :
    c = '\\' → ∀ d ∈ (cs ++ ds).head?, d ≠ '{' ∧ d ≠ '\\' := by
  intro hc
  have hne : cs ≠ [] := by
    rintro rfl
    exact hend (hc ▸ List.suffix_rfl)
  rw [List.head?_append_of_ne_nil _ hne]
  exact hplain hc

/-- A text up to the end of the input goes on behind it, if it does not end with a backslash. -/
theorem textSpan_append_left (h : (textSpan cs).2 = []) (hend : ¬ ['\\'] <:+ cs) :
    textSpan (cs ++ ds) = (cs ++ (textSpan ds).1, (textSpan ds).2) := by
  fun_induction textSpan cs with
  | case1 => rfl
  | case2 rest => exact absurd h (by simp)
  | case3 rest ih =>
      have hrest := ih h fun hsuffix => hend (hsuffix.trans (List.suffix_append [_, _] rest))
      simp [textSpan, hrest]
  | case4 rest ih =>
      have hrest := ih h fun hsuffix => hend (hsuffix.trans (List.suffix_append [_, _] rest))
      simp [textSpan, hrest]
  | case5 c rest hbrace hopen hslash ih =>
      have hrest := ih h fun hsuffix => hend (hsuffix.trans (List.suffix_cons _ _))
      have hplain := head?_append_of_not_escape ds (head?_of_not_escape hopen hslash) hend
      rw [List.cons_append, textSpan_cons hbrace hplain, hrest]
      rfl

theorem decodeText_append (hend : ¬ ['\\'] <:+ cs) :
    decodeText (cs ++ ds) = decodeText cs ++ decodeText ds := by
  fun_induction decodeText cs with
  | case1 => rfl
  | case2 rest ih =>
      have hrest := ih fun hsuffix => hend (hsuffix.trans (List.suffix_append [_, _] rest))
      simp [decodeText, hrest]
  | case3 rest ih =>
      have hrest := ih fun hsuffix => hend (hsuffix.trans (List.suffix_append [_, _] rest))
      simp [decodeText, hrest]
  | case4 c rest hopen hslash ih =>
      have hrest := ih fun hsuffix => hend (hsuffix.trans (List.suffix_cons _ _))
      have hplain := head?_append_of_not_escape ds (head?_of_not_escape hopen hslash) hend
      rw [List.cons_append, decodeText_cons hplain, hrest]
      rfl

end Spans

/-- A cut of an input that has more behind it. -/
def Cut.before (cut : Cut) (ds : List Char) : Cut := { cut with rest := cut.rest ++ ds }

section Cuts

variable {cs : List Char} (ds : List Char)

theorem cutNumber_of_dot {after : List Char} (h : cs.dropWhile isDigitPart = '.' :: after) :
    cutNumber cs =
      if (after.head?.map Char.isDigit).getD false then
        ⟨.float, cs.takeWhile isDigitPart ++ '.' :: after.takeWhile isDigitPart,
          after.dropWhile isDigitPart⟩
      else
        ⟨.unexpected, cs.takeWhile isDigitPart ++ '.' :: after.takeWhile isJunk,
          after.dropWhile isJunk⟩ := by
  simp only [cutNumber, h]

theorem cutNumber_of_head? (h : (cs.dropWhile isDigitPart).head? ≠ some '.') :
    cutNumber cs = ⟨.int, cs.takeWhile isDigitPart, cs.dropWhile isDigitPart⟩ := by
  unfold cutNumber
  split
  · next after hdot => simp [hdot] at h
  · rfl

theorem cutNumber_before (h : (cutNumber cs).rest ≠ []) :
    cutNumber (cs ++ ds) = (cutNumber cs).before ds := by
  by_cases hdot : (cs.dropWhile isDigitPart).head? = some '.'
  · obtain ⟨after, hafter⟩ := List.head?_eq_some_iff.mp hdot
    obtain ⟨htake, hdrop⟩ :=
      takeWhile_dropWhile_append ds (show cs.dropWhile isDigitPart ≠ [] by simp [hafter])
    rw [hafter, List.cons_append] at hdrop
    rw [cutNumber_of_dot hafter] at h ⊢
    rw [cutNumber_of_dot hdrop, htake]
    have hne : after ≠ [] := by
      rintro rfl
      simp at h
    rw [List.head?_append_of_ne_nil _ hne]
    split at h
    · next hdigit =>
        obtain ⟨htake, hdrop⟩ := takeWhile_dropWhile_append ds h
        rw [if_pos hdigit, if_pos hdigit, htake, hdrop]
        rfl
    · next hdigit =>
        obtain ⟨htake, hdrop⟩ := takeWhile_dropWhile_append ds h
        rw [if_neg hdigit, if_neg hdigit, htake, hdrop]
        rfl
  · rw [cutNumber_of_head? hdot] at h ⊢
    obtain ⟨htake, hdrop⟩ := takeWhile_dropWhile_append ds h
    rw [cutNumber_of_head?, htake, hdrop]
    · rfl
    · rwa [hdrop, List.head?_append_of_ne_nil _ h]

/-- No symbol has more than two characters. -/
theorem isPrefixOf_append_of_symbol {kind : Kind} (hkind : kind ∈ Kind.symbols)
    (hcs : 2 ≤ cs.length) :
    kind.spelling.toList.isPrefixOf (cs ++ ds) = kind.spelling.toList.isPrefixOf cs := by
  have hlength : ∀ kind ∈ Kind.symbols, kind.spelling.toList.length ≤ 2 := by decide
  rw [Bool.eq_iff_iff, List.isPrefixOf_iff_prefix, List.isPrefixOf_iff_prefix]
  constructor
  · intro h
    exact List.prefix_of_prefix_length_le h (List.prefix_append cs ds)
      ((hlength kind hkind).trans hcs)
  · intro h
    exact h.trans (List.prefix_append cs ds)

/-- A token inside of the braces that leaves something is the same in front of more. -/
theorem cutExpr_before {c : Char} (hc : isBlank c = false) (h : (cutExpr c cs).rest ≠ []) :
    cutExpr c (cs ++ ds) = (cutExpr c cs).before ds := by
  have hlength : 2 ≤ (c :: cs).length := by
    have hproper := proper_cutExpr hc cs
    have hspan := List.length_pos_iff.mpr hproper.span_ne_nil
    have hrest := List.length_pos_iff.mpr h
    have happend := congrArg List.length hproper.append
    rw [List.length_append] at happend
    omega
  have hfind : Kind.symbols.find? (fun kind => kind.spelling.toList.isPrefixOf (c :: (cs ++ ds))) =
      Kind.symbols.find? (fun kind => kind.spelling.toList.isPrefixOf (c :: cs)) :=
    List.find?_congr fun kind hkind => isPrefixOf_append_of_symbol ds hkind hlength
  unfold cutExpr at h ⊢
  rw [hfind, ← List.cons_append]
  split at h
  · next hbrace =>
      rw [if_pos hbrace, if_pos hbrace]
      rfl
  split at h
  · next hbrace hquote =>
      simp only [if_neg hbrace, if_pos hquote, quotedSpan_append_right ds h, Cut.before]
  split at h
  · next hbrace hquote hname =>
      obtain ⟨htake, hdrop⟩ := takeWhile_dropWhile_append ds h
      simp only [if_neg hbrace, if_neg hquote, if_pos hname, htake, hdrop, Cut.before]
  split at h
  · next hbrace hquote hname hdigit =>
      simp only [if_neg hbrace, if_neg hquote, if_neg hname, if_pos hdigit, cutNumber_before ds h]
  split at h
  · next hbrace hquote hname hdigit _ kind _ =>
      have hdrop : kind.spelling.toList.length ≤ (c :: cs).length := by
        have := List.length_pos_iff.mpr h
        rw [List.length_drop] at this
        omega
      simp only [if_neg hbrace, if_neg hquote, if_neg hname, if_neg hdigit,
        List.drop_append_of_le_length hdrop, Cut.before]
  · next hbrace hquote hname hdigit _ _ =>
      obtain ⟨htake, hdrop⟩ := takeWhile_dropWhile_append ds h
      simp only [if_neg hbrace, if_neg hquote, if_neg hname, if_neg hdigit, htake, hdrop,
        Cut.before]

/-- A text that leaves something is the same in front of more. -/
theorem cutText_before {c : Char} (h : (cutText c cs).rest ≠ []) :
    cutText c (cs ++ ds) = (cutText c cs).before ds := by
  unfold cutText at h ⊢
  split at h
  · next hbrace =>
      rw [if_pos hbrace, if_pos hbrace]
      rfl
  · next hbrace =>
      rw [if_neg hbrace, if_neg hbrace, ← List.cons_append, textSpan_append_right ds h]
      rfl

theorem cut_before {mode : Mode} {c : Char} {rest : List Char}
    (hcs : mode.skipBlanks cs = c :: rest) (h : (mode.cut c rest).rest ≠ []) :
    mode.cut c (rest ++ ds) = (mode.cut c rest).before ds := by
  cases mode with
  | text => exact cutText_before ds h
  | expr => exact cutExpr_before ds (isBlank_of_skipBlanks hcs) h

end Cuts

theorem Mode.skipBlanks_append {mode : Mode} {cs : List Char} {c : Char} {rest : List Char}
    (h : mode.skipBlanks cs = c :: rest) (ds : List Char) :
    mode.blanks (cs ++ ds) = mode.blanks cs ∧ mode.skipBlanks (cs ++ ds) = c :: (rest ++ ds) := by
  cases mode with
  | text =>
      obtain rfl : cs = c :: rest := h
      exact ⟨rfl, rfl⟩
  | expr =>
      obtain ⟨htake, hdrop⟩ :=
        takeWhile_dropWhile_append ds (show cs.dropWhile isBlank ≠ [] from fun hnil =>
          List.cons_ne_nil c rest (h.symm.trans hnil))
      exact ⟨htake, hdrop.trans (congrArg (· ++ ds) h)⟩

theorem scanAt_ne_nil (mode : Mode) (offset : Nat) (cs : List Char) : scanAt mode offset cs ≠ [] :=
  (stream_scanFrom _ _ _ _).ne_nil

section Seam

variable {mode : Mode} {cs : List Char} {offset : Nat} (ds : List Char)

theorem Mode.cut_text {c : Char} (hbrace : c ≠ '{') (rest : List Char) :
    Mode.text.cut c rest = ⟨.text, (textSpan (c :: rest)).1, (textSpan (c :: rest)).2⟩ :=
  if_neg hbrace

/-- A text is one token up to the next open brace. -/
theorem scanAt_text (h : (textSpan cs).1 ≠ []) :
    scanAt .text offset cs =
      ⟨.text, .ofList (decodeText (textSpan cs).1), offset⟩ ::
        scanAt .text (offset + byteSize (textSpan cs).1) (textSpan cs).2 := by
  cases cs with
  | nil => exact absurd rfl h
  | cons c rest =>
      have hbrace : c ≠ '{' := by
        rintro rfl
        exact h rfl
      rw [scanAt_of_skipBlanks_eq_cons rfl, Mode.cut_text hbrace]
      rfl

/-- A text up to the end of the input is one with the text behind it. -/
theorem scanAt_append_text (hcs : cs ≠ []) (h : (textSpan cs).2 = []) (hend : ¬ ['\\'] <:+ cs) :
    scanAt .text offset (cs ++ ds) =
      splice (scanAt .text offset cs).dropLast (scanAt .text (offset + byteSize cs) ds) := by
  have hspan : (textSpan cs).1 = cs := by
    have happend := textSpan_append cs
    rwa [h, List.append_nil] at happend
  have hfirst : (scanAt .text offset cs).dropLast = [⟨.text, .ofList (decodeText cs), offset⟩] := by
    rw [scanAt_text (by rwa [hspan]), hspan, h, scanAt_of_skipBlanks_eq_nil rfl]
    rfl
  have hmerged := textSpan_append_left ds h hend
  have hne : (textSpan (cs ++ ds)).1 ≠ [] := by simp [hmerged, hcs]
  rw [hfirst, scanAt_text hne, hmerged, decodeText_append _ hend, byteSize_append,
    ← Nat.add_assoc]
  by_cases hnext : (textSpan ds).1 = []
  · have hbrace := textSpan_head? ds
    have hds := textSpan_append ds
    rw [hnext, List.nil_append] at hds
    rw [hnext, hds, splice_cons]
    · simp [decodeText, splice]
    · rw [hds] at hbrace
      exact .inr (.inr ((tiles_scanFrom .text _ (Nat.lt_succ_self _)).head?_ne_text hbrace))
  · rw [scanAt_text hnext, splice, if_pos ⟨rfl, rfl⟩, String.ofList_append]

variable {ds} {c : Char} {rest : List Char}

/-- A token that is the same in front of more, and the tokens behind it. -/
theorem scanAt_append_step (hcs : mode.skipBlanks cs = c :: rest)
    (hcut : mode.cut c (rest ++ ds) = (mode.cut c rest).before ds)
    (hkind : (mode.cut c rest).kind ≠ .text ∨ (mode.cut c rest).rest ≠ []) {start : Nat}
    (hstart : start = offset + byteSize (mode.blanks cs) + byteSize (mode.cut c rest).span)
    (hrest : scanAt (mode.after (mode.cut c rest).kind) start ((mode.cut c rest).rest ++ ds) =
      splice (scanAt (mode.after (mode.cut c rest).kind) start (mode.cut c rest).rest).dropLast
        (scanAt .text (start + byteSize (mode.cut c rest).rest) ds)) :
    scanAt mode offset (cs ++ ds) =
      splice (scanAt mode offset cs).dropLast (scanAt .text (offset + byteSize cs) ds) := by
  obtain ⟨hblanks, hskip⟩ := Mode.skipBlanks_append hcs ds
  have hproper := proper_cut hcs
  have hsize : byteSize (mode.blanks cs) + byteSize (mode.cut c rest).span +
      byteSize (mode.cut c rest).rest = byteSize cs := by
    conv_rhs => rw [← (mode.skips_blanks cs).2, hcs, ← hproper.append]
    rw [byteSize_append, byteSize_append, Nat.add_assoc]
  have hend : start + byteSize (mode.cut c rest).rest = offset + byteSize cs := by omega
  rw [hend] at hrest
  rw [scanAt_of_skipBlanks_eq_cons hskip, hcut, hblanks, scanAt_of_skipBlanks_eq_cons hcs,
    List.dropLast_cons_of_ne_nil (scanAt_ne_nil _ _ _), ← hstart, splice_cons]
  · rw [← hrest, hstart]
    rfl
  · by_cases htext : (mode.cut c rest).kind = .text
    · obtain ⟨d, more, hmore⟩ :=
        List.exists_cons_of_ne_nil (hkind.resolve_left (not_not_intro htext))
      have hmode : mode = .text := by
        cases mode with
        | text => rfl
        | expr => exact absurd htext hproper.admits.1
      subst hmode
      have hnext : Mode.text.skipBlanks (d :: more) = d :: more := rfl
      refine .inr (.inl ?_)
      rw [htext, hmore]
      change (scanAt .text start (d :: more)).dropLast ≠ []
      rw [scanAt_of_skipBlanks_eq_cons hnext, List.dropLast_cons_of_ne_nil (scanAt_ne_nil _ _ _)]
      exact List.cons_ne_nil _ _
    · exact .inl htext

/-- A token that takes everything that is left is a text, or the brace that closes an expression. -/
theorem kind_of_rest_eq_nil (hcs : mode.skipBlanks cs = c :: rest)
    (hrest : (mode.cut c rest).rest = [])
    (hmode : (mode.after (mode.cut c rest).kind).behind (scanAt (mode.after (mode.cut c rest).kind)
      offset (mode.cut c rest).rest) = .text) :
    mode = .text ∧ c ≠ '{' ∧ (textSpan (c :: rest)).2 = [] ∨ mode = .expr ∧ c = '}' := by
  rw [hrest] at hmode
  cases mode with
  | text =>
      by_cases hbrace : c = '{'
      · have hcut : Mode.text.cut c rest = ⟨.enterExpr, [c], rest⟩ := if_pos hbrace
        rw [hcut] at hmode
        cases hmode
      · rw [Mode.cut_text hbrace] at hrest
        exact .inl ⟨rfl, hbrace, hrest⟩
  | expr =>
      by_cases hclose : (Mode.expr.cut c rest).kind = .leaveExpr
      · have hspan : (Mode.expr.cut c rest).span = ['}'] := by
          have hregular := (regular_cut .expr c rest).span
          rw [hclose] at hregular
          exact hregular rfl
        have happend := (proper_cut hcs).append
        rw [hspan] at happend
        exact .inr ⟨rfl, (List.cons.inj happend).1.symm⟩
      · rw [Mode.after_expr hclose] at hmode
        cases hmode

/-- What is read behind characters that end outside of all braces, and not with a backslash, is read
as on its own. -/
theorem scanAt_append (ds : List Char) (hmode : mode.behind (scanAt mode offset cs) = .text)
    (hend : ¬ ['\\'] <:+ cs) :
    scanAt mode offset (cs ++ ds) =
      splice (scanAt mode offset cs).dropLast (scanAt .text (offset + byteSize cs) ds) := by
  -- The rest behind a token is shorter and ends in the same way, but may be read in another mode.
  induction hlength : cs.length using Nat.strongRecOn generalizing mode offset cs with
  | ind length ih =>
      subst hlength
      cases hcs : mode.skipBlanks cs with
      | nil =>
          rw [scanAt_of_skipBlanks_eq_nil hcs] at hmode
          obtain rfl : mode = .text := hmode
          obtain rfl : cs = [] := hcs
          rfl
      | cons c rest =>
          rw [scanAt_of_skipBlanks_eq_cons hcs] at hmode
          by_cases hrest : (mode.cut c rest).rest = []
          · rcases kind_of_rest_eq_nil hcs hrest hmode with ⟨rfl, hc, hspan⟩ | ⟨rfl, rfl⟩
            · obtain rfl : cs = c :: rest := hcs
              exact scanAt_append_text ds (List.cons_ne_nil _ _) hspan hend
            · have hcut : ∀ rest, Mode.expr.cut '}' rest = ⟨.leaveExpr, ['}'], rest⟩ := fun _ => rfl
              refine scanAt_append_step hcs rfl (.inl (by simp [hcut])) rfl ?_
              rw [hrest]
              rfl
          · have happend :
                cs = mode.blanks cs ++ (mode.cut c rest).span ++ (mode.cut c rest).rest := by
              rw [List.append_assoc, (proper_cut hcs).append, ← hcs, (mode.skips_blanks cs).2]
            refine scanAt_append_step hcs (cut_before ds hcs hrest) (.inr hrest) rfl ?_
            refine ih _ (length_cut_lt hcs) hmode (fun hsuffix => hend ?_) rfl
            rw [happend]
            exact hsuffix.trans (List.suffix_append _ _)

end Seam

/-- The tokens of two sources in a row are those of the first one and behind them those of the
second one, if the first one ends outside of all braces and not with a backslash. -/
theorem scan_append {a : String} (b : String) (hmode : Mode.text.behind (scan a) = .text)
    (hend : ¬ ['\\'] <:+ a.toList) :
    scan (a ++ b) = splice (scan a).dropLast ((scan b).map (shift a.utf8ByteSize)) := by
  have hseam := scanAt_append b.toList hmode hend
  rw [scan_eq_scanAt, String.toList_append, hseam, byteSize_toList]
  congr 1
  exact scanFrom_add _ .text a.utf8ByteSize 0 b.toList

end Phrasebook.Token
