import Mathlib
import Phrasebook.Template.Scan

/-!
# The tokens of a source tile it

Every character of a source belongs to the span of exactly one token, apart from the blanks inside
of expressions. The relation `Token.Tiles` says so token by token: it holds of the characters from
an offset on and of their tokens, in one of the two modes in which a source is read. What it says
of a text and of a quoted literal is stated without the reading functions, by the relations
`Token.TextValue` and `Token.QuotedValue` between a span and its value.

The order of the offsets, the places of the braces and of literal text, and the end of the input all
follow from the tiling (`Token.scan_tiles`).
-/

namespace Phrasebook.Token

/-- Literal text in front of the rest of the input, and its value. A backslash in front of an open
brace or a backslash stands for that character, any other character for itself, and the text goes
on up to an open brace or the end of the input. -/
inductive TextValue (rest : List Char) : List Char → List Char → Prop where
  | nil : (∀ d ∈ rest.head?, d = '{') → TextValue rest [] []
  | escape {c : Char} {span value : List Char} : c = '{' ∨ c = '\\' →
      TextValue rest span value → TextValue rest ('\\' :: c :: span) (c :: value)
  | plain {c : Char} {span value : List Char} : c ≠ '{' →
      (c = '\\' → ∀ d ∈ (span ++ rest).head?, d ≠ '{' ∧ d ≠ '\\') →
      TextValue rest span value → TextValue rest (c :: span) (c :: value)

/-- The body of a quoted literal in front of the rest of the input, and its value. A backslash in
front of the quote or a backslash stands for that character, any other character for itself, and
the body ends with the quote or at the end of the input. -/
inductive QuotedValue (quote : Char) (rest : List Char) : List Char → List Char → Prop where
  | closed : QuotedValue quote rest [quote] []
  | unclosed : rest = [] → QuotedValue quote rest [] []
  | escape {c : Char} {body value : List Char} : c = quote ∨ c = '\\' →
      QuotedValue quote rest body value → QuotedValue quote rest ('\\' :: c :: body) (c :: value)
  | plain {c : Char} {body value : List Char} : c ≠ quote →
      (c = '\\' → ∀ d ∈ body.head?, d ≠ quote ∧ d ≠ '\\') →
      QuotedValue quote rest body value → QuotedValue quote rest (c :: body) (c :: value)

/-- The span of a token of a category in front of the rest of the input, and its value. Apart from
text and quoted literals, a token has the value that is written. -/
def Kind.Value (kind : Kind) (span rest value : List Char) : Prop :=
  match kind with
  | .text => TextValue rest span value
  | .string => ∃ quote body, isQuote quote ∧ span = quote :: body ∧
      QuotedValue quote rest body value
  | _ => value = span

theorem textSpan_append (cs : List Char) : (textSpan cs).1 ++ (textSpan cs).2 = cs := by
  fun_induction textSpan cs <;> simp_all

theorem textSpan_head? (cs : List Char) : ∀ d ∈ (textSpan cs).2.head?, d = '{' := by
  fun_induction textSpan cs <;> simp_all

theorem textSpan_cons {c : Char} {cs : List Char} (hbrace : c ≠ '{')
    (h : c = '\\' → ∀ d ∈ cs.head?, d ≠ '{' ∧ d ≠ '\\') :
    textSpan (c :: cs) = (c :: (textSpan cs).1, (textSpan cs).2) := by
  rw [textSpan]
  · exact hbrace
  · rintro rest rfl rfl
    simp at h
  · rintro rest rfl rfl
    simp at h

theorem decodeText_cons {c : Char} {cs : List Char}
    (h : c = '\\' → ∀ d ∈ cs.head?, d ≠ '{' ∧ d ≠ '\\') :
    decodeText (c :: cs) = c :: decodeText cs := by
  rw [decodeText]
  · rintro rest rfl rfl
    simp at h
  · rintro rest rfl rfl
    simp at h

/-- A character that starts no escape is no backslash, or one in front of another character. -/
theorem head?_of_not_escape {c : Char} {cs : List Char}
    (hopen : ∀ more, c = '\\' → cs = '{' :: more → False)
    (hslash : ∀ more, c = '\\' → cs = '\\' :: more → False) :
    c = '\\' → ∀ d ∈ cs.head?, d ≠ '{' ∧ d ≠ '\\' := by
  intro hc d hd
  obtain ⟨more, rfl⟩ := List.head?_eq_some_iff.mp hd
  constructor
  · rintro rfl
    exact hopen more hc rfl
  · rintro rfl
    exact hslash more hc rfl

theorem textValue_textSpan (cs : List Char) :
    TextValue (textSpan cs).2 (textSpan cs).1 (decodeText (textSpan cs).1) := by
  fun_induction textSpan cs with
  | case1 => exact .nil (by simp)
  | case2 rest => exact .nil (by simp)
  | case3 rest ih => exact .escape (.inl rfl) ih
  | case4 rest ih => exact .escape (.inr rfl) ih
  | case5 c rest hbrace hopen hslash ih =>
      have hplain := head?_of_not_escape hopen hslash
      have hspan : c = '\\' → ∀ d ∈ (textSpan rest).1.head?, d ≠ '{' ∧ d ≠ '\\' := by
        intro hc d hd
        obtain ⟨more, hmore⟩ := List.head?_eq_some_iff.mp hd
        exact hplain hc d (by rw [← textSpan_append rest, hmore]; rfl)
      rw [decodeText_cons hspan]
      exact .plain hbrace (by rwa [textSpan_append]) ih

theorem quotedSpan_append (quote : Char) (cs : List Char) :
    (quotedSpan quote cs).1 ++ (quotedSpan quote cs).2 = cs := by
  fun_induction quotedSpan quote cs <;> simp_all

theorem quotedSpan_head? (quote d : Char) (rest : List Char) :
    (quotedSpan quote (d :: rest)).1.head? = some d := by
  cases rest with
  | nil => rfl
  | cons e rest =>
      rw [quotedSpan]
      split
      · rfl
      split <;> rfl

theorem quotedValue_quotedSpan (quote : Char) (cs : List Char) :
    QuotedValue quote (quotedSpan quote cs).2 (quotedSpan quote cs).1
      (decodeQuoted quote (quotedSpan quote cs).1) := by
  fun_induction quotedSpan quote cs with
  | case1 => exact .unclosed rfl
  | case2 c =>
      by_cases hc : c = quote
      · subst hc
        simpa [decodeQuoted] using QuotedValue.closed
      · simpa [decodeQuoted, hc] using QuotedValue.plain hc (by simp) (.unclosed rfl)
  | case3 d rest => simpa [decodeQuoted] using QuotedValue.closed
  | case4 c d rest hquote hescape ih =>
      obtain ⟨rfl, hd⟩ := hescape
      simpa [decodeQuoted, hquote, hd] using QuotedValue.escape hd ih
  | case5 c d rest hquote hescape ih =>
      obtain ⟨more, hmore⟩ := List.head?_eq_some_iff.mp (quotedSpan_head? quote d rest)
      have hplain : c = '\\' → ∀ e ∈ (quotedSpan quote (d :: rest)).1.head?,
          e ≠ quote ∧ e ≠ '\\' := by
        rw [quotedSpan_head?]
        rintro rfl e ⟨⟩
        simpa using hescape
      have hdecode : decodeQuoted quote (c :: (quotedSpan quote (d :: rest)).1) =
          c :: decodeQuoted quote (quotedSpan quote (d :: rest)).1 := by
        rw [hmore, decodeQuoted, if_neg hquote, if_neg hescape]
      rw [hdecode]
      exact .plain hquote hplain ih

/-- The tokens that a mode of reading has. -/
def Mode.Admits : Mode → Kind → Prop
  | .text, kind => kind = .text ∨ kind = .enterExpr
  | .expr, kind => kind ≠ .text ∧ kind ≠ .enterExpr ∧ kind ≠ .eof

/-- What may stand between two tokens: nothing in literal text, blanks in an expression. -/
def Mode.Skips : Mode → List Char → Prop
  | .text, cs => cs = []
  | .expr, cs => ∀ c ∈ cs, isBlank c

/-- A cut takes a span off its input that is not empty and has the value that is decoded. -/
structure Cut.Proper (mode : Mode) (cs : List Char) (cut : Cut) : Prop where
  append : cut.span ++ cut.rest = cs
  span_ne_nil : cut.span ≠ []
  admits : mode.Admits cut.kind
  value : cut.kind.Value cut.span cut.rest (decode cut.kind cut.span)

theorem proper_cutText (c : Char) (rest : List Char) :
    (cutText c rest).Proper .text (c :: rest) := by
  unfold cutText
  split
  · next h => exact ⟨by simp [h], by simp, .inr rfl, rfl⟩
  · next h =>
      refine ⟨textSpan_append _, ?_, .inl rfl, textValue_textSpan _⟩
      intro (hnil : (textSpan (c :: rest)).1 = [])
      have hhead := textSpan_head? (c :: rest)
      have happend := textSpan_append (c :: rest)
      rw [hnil, List.nil_append] at happend
      exact h (hhead c (by rw [happend]; rfl))

/-- The span of most categories is its own value. -/
theorem proper_plain {kind : Kind} {span rest cs : List Char} (happend : span ++ rest = cs)
    (hne : span ≠ []) (hkind : kind ≠ .string) (hadmits : Mode.expr.Admits kind) :
    Cut.Proper .expr cs ⟨kind, span, rest⟩ := by
  refine ⟨happend, hne, hadmits, ?_⟩
  obtain ⟨htext, -, -⟩ := hadmits
  cases kind <;> first | rfl | contradiction

theorem proper_cutNumber {c : Char} (hc : c.isDigit) (rest : List Char) :
    (cutNumber (c :: rest)).Proper .expr (c :: rest) := by
  have htake : (c :: rest).takeWhile isDigitPart = c :: rest.takeWhile isDigitPart := by
    simp [isDigitPart, hc]
  have happend := List.takeWhile_append_dropWhile (p := isDigitPart) (l := c :: rest)
  unfold cutNumber
  split
  · next after hafter =>
      have hfraction : ∀ p : Char → Bool, ((c :: rest).takeWhile isDigitPart ++
          '.' :: after.takeWhile p) ++ after.dropWhile p = c :: rest := by
        intro p
        rw [List.append_assoc, List.cons_append, List.takeWhile_append_dropWhile, ← hafter, happend]
      split
      · exact proper_plain (hfraction _) (by simp) (by simp) (by simp [Mode.Admits])
      · exact proper_plain (hfraction _) (by simp) (by simp) (by simp [Mode.Admits])
  · exact proper_plain happend (by simp [htake]) (by simp) (by simp [Mode.Admits])

theorem proper_cutExpr {c : Char} (hc : isBlank c = false) (rest : List Char) :
    (cutExpr c rest).Proper .expr (c :: rest) := by
  unfold cutExpr
  split
  · exact proper_plain rfl (by simp) (by simp) (by simp [Mode.Admits])
  split
  · next hquote =>
      exact ⟨by simp [quotedSpan_append], by simp, by simp [Mode.Admits],
        c, _, hquote, rfl, quotedValue_quotedSpan c rest⟩
  split
  · have hword : ∀ word, Kind.ofWord word ≠ .string ∧ Mode.expr.Admits (.ofWord word) := by
      intro word
      unfold Kind.ofWord
      split
      · simp [Mode.Admits]
      split <;> simp [Mode.Admits]
    exact proper_plain (by simp) (by simp) (hword _).1 (hword _).2
  split
  · next hdigit => exact proper_cutNumber hdigit rest
  split
  · next kind hfind =>
      have hspelled : kind.spelling.toList.isPrefixOf (c :: rest) = true :=
        List.find?_some (p := fun kind : Kind => kind.spelling.toList.isPrefixOf (c :: rest)) hfind
      obtain ⟨more, hmore⟩ := List.isPrefixOf_iff_prefix.mp hspelled
      have hsymbol : ∀ kind ∈ Kind.symbols,
          kind.spelling.toList ≠ [] ∧ kind ≠ .string ∧ Mode.expr.Admits kind := by
        simp [Kind.symbols, Kind.spelling, Mode.Admits]
      obtain ⟨hne, hstring, hadmits⟩ := hsymbol kind (List.mem_of_find?_eq_some hfind)
      exact proper_plain (by simp [← hmore]) hne hstring hadmits
  · have hjunk : isJunk c := by simp_all [isJunk]
    exact proper_plain List.takeWhile_append_dropWhile (by simp [hjunk]) (by simp)
      (by simp [Mode.Admits])

/-- From an offset on and read in a mode, characters are tiled by tokens: each token has a span of
its own that starts at its offset, and between the spans there is only what the mode skips. -/
inductive Tiles : Mode → Nat → List Char → List Token → Prop where
  | eof {mode : Mode} {offset : Nat} {skipped : List Char} : mode.Skips skipped →
      Tiles mode offset skipped [endOfInput (offset + byteSize skipped)]
  | token {mode : Mode} {offset : Nat} {skipped span rest : List Char} {t : Token}
      {ts : List Token} : mode.Skips skipped → span ≠ [] → mode.Admits t.kind →
      t.offset = offset + byteSize skipped → t.kind.Value span rest t.lexeme.toList →
      Tiles (mode.after t.kind) (t.offset + byteSize span) rest ts →
      Tiles mode offset (skipped ++ span ++ rest) (t :: ts)

theorem byteSize_eq (cs : List Char) : byteSize cs = (String.ofList cs).utf8ByteSize := by
  rw [String.utf8ByteSize_ofList]
  induction cs with
  | nil => rfl
  | cons c cs ih => rw [String.utf8Len_cons, ← ih, Nat.add_comm]; rfl

@[simp] theorem byteSize_nil : byteSize [] = 0 := rfl

@[simp] theorem byteSize_append (cs ds : List Char) :
    byteSize (cs ++ ds) = byteSize cs + byteSize ds := by
  simp [byteSize_eq, String.utf8ByteSize_append]

theorem byteSize_pos {cs : List Char} (h : cs ≠ []) : 0 < byteSize cs := by
  cases cs with
  | nil => exact absurd rfl h
  | cons c cs => exact Nat.add_pos_left c.utf8Size_pos _

@[simp] theorem byteSize_toList (s : String) : byteSize s.toList = s.utf8ByteSize := by
  rw [byteSize_eq, String.ofList_toList]

/-- Blanks are skipped in front of a token, and what is left does not start with one. -/
theorem Mode.skips_blanks (mode : Mode) (cs : List Char) :
    mode.Skips (mode.blanks cs) ∧ mode.blanks cs ++ mode.skipBlanks cs = cs := by
  cases mode with
  | text => exact ⟨rfl, rfl⟩
  | expr =>
      refine ⟨fun c hc => ?_, List.takeWhile_append_dropWhile⟩
      exact List.mem_takeWhile_imp hc

theorem isBlank_of_skipBlanks {cs : List Char} {c : Char} {rest : List Char}
    (h : Mode.expr.skipBlanks cs = c :: rest) : isBlank c = false := by
  have hhead := List.head?_dropWhile_not isBlank cs
  rw [show cs.dropWhile isBlank = c :: rest from h] at hhead
  simpa using hhead

theorem proper_cut {mode : Mode} {cs : List Char} {c : Char} {rest : List Char}
    (h : mode.skipBlanks cs = c :: rest) : (mode.cut c rest).Proper mode (c :: rest) := by
  cases mode with
  | text => exact proper_cutText c rest
  | expr => exact proper_cutExpr (isBlank_of_skipBlanks h) rest

/-- Every token takes at least one character. -/
theorem length_cut_lt {mode : Mode} {cs : List Char} {c : Char} {rest : List Char}
    (h : mode.skipBlanks cs = c :: rest) : (mode.cut c rest).rest.length < cs.length := by
  have hproper := proper_cut h
  have hspan := List.length_pos_iff.mpr hproper.span_ne_nil
  have hcut := congrArg List.length hproper.append
  have hall := congrArg List.length (mode.skips_blanks cs).2
  rw [List.length_append] at hcut hall
  rw [h] at hall
  omega

/-- With a bound above the number of characters, no character is left out. -/
theorem tiles_scanFrom {bound : Nat} (mode : Mode) (offset : Nat) {cs : List Char}
    (hbound : cs.length < bound) : Tiles mode offset cs (scanFrom bound mode offset cs) := by
  induction bound generalizing mode offset cs with
  | zero => omega
  | succ bound ih =>
      obtain ⟨hskips, hcs⟩ := mode.skips_blanks cs
      rw [scanFrom]
      split
      · next hnil =>
          rw [hnil, List.append_nil] at hcs
          have h : Tiles mode offset _ _ := .eof hskips
          rwa [hcs] at h ⊢
      · next c rest hcons =>
          have hproper := proper_cut hcons
          have hlength := length_cut_lt hcons
          suffices htiles : Tiles mode offset
              (mode.blanks cs ++ (mode.cut c rest).span ++ (mode.cut c rest).rest) _ by
            rwa [List.append_assoc, hproper.append, ← hcons, hcs] at htiles
          refine .token hskips hproper.span_ne_nil hproper.admits rfl ?_ (ih _ _ (by omega))
          rw [String.toList_ofList]
          exact hproper.value

/-- Only the brace that closes an expression ends it. -/
theorem Mode.after_expr {kind : Kind} (h : kind ≠ .leaveExpr) : Mode.expr.after kind = .expr := by
  unfold Mode.after
  split <;> first | rfl | contradiction

/-- The number of braces that are open where a mode is read. -/
def Mode.depth : Mode → Nat
  | .text => 0
  | .expr => 1

namespace Mode.Admits

variable {mode : Mode} {kind : Kind}

theorem ne_eof (h : mode.Admits kind) : kind ≠ .eof := by
  cases mode with
  | text => rcases h with rfl | rfl <;> simp
  | expr => exact h.2.2

/-- Literal text and opening braces stand outside of all braces, all other tokens inside. -/
theorem depth_eq (h : mode.Admits kind) :
    mode.depth = if kind = .text ∨ kind = .enterExpr then 0 else 1 := by
  cases mode with
  | text => exact (if_pos h).symm
  | expr => exact (if_neg (not_or.mpr ⟨h.1, h.2.1⟩)).symm

/-- Only the braces change the number of open braces. -/
theorem depth_after (h : mode.Admits kind) :
    (if kind = .enterExpr then 1 else 0) + mode.depth =
      (if kind = .leaveExpr then 1 else 0) + (mode.after kind).depth := by
  cases mode with
  | text => rcases h with rfl | rfl <;> rfl
  | expr =>
      obtain ⟨-, hopen, -⟩ := h
      by_cases hclose : kind = .leaveExpr
      · subst hclose
        rfl
      · simp [hopen, hclose, Mode.after_expr hclose]

end Mode.Admits

namespace TextValue

variable {rest span value : List Char}

theorem rest_head? (h : TextValue rest span value) : ∀ d ∈ rest.head?, d = '{' := by
  induction h with
  | nil h => exact h
  | escape _ _ ih => exact ih
  | plain _ _ _ ih => exact ih

theorem ne_nil (h : TextValue rest span value) (hspan : span ≠ []) : value ≠ [] := by
  cases h <;> simp_all

theorem head?_ne (h : TextValue rest span value) (hspan : span ≠ []) :
    ∀ d ∈ span.head?, d ≠ '{' := by
  cases h with
  | nil => exact absurd rfl hspan
  | escape => simp
  | plain hc => simpa using hc

end TextValue

namespace Tiles

variable {mode : Mode} {offset : Nat} {cs : List Char} {ts : List Token}

/-- The end of the input is the last token, and the only one of its category. -/
theorem exists_end (h : Tiles mode offset cs ts) :
    ∃ us, ts = us ++ [endOfInput (offset + byteSize cs)] ∧ ∀ t ∈ us, t.kind ≠ .eof := by
  induction h with
  | eof => exact ⟨[], rfl, by simp⟩
  | @token _ offset skipped span rest t ts _ _ hadmits hoffset _ _ ih =>
      obtain ⟨us, hts, hus⟩ := ih
      refine ⟨t :: us, ?_, List.forall_mem_cons.mpr ⟨hadmits.ne_eof, hus⟩⟩
      have hend : t.offset + byteSize span + byteSize rest =
          offset + byteSize (skipped ++ span ++ rest) := by
        rw [hoffset, byteSize_append, byteSize_append]
        omega
      rw [hts, hend, List.cons_append]

theorem offset_le (h : Tiles mode offset cs ts) : ∀ t ∈ ts, offset ≤ t.offset := by
  induction h with
  | eof => simp
  | token _ _ _ hoffset _ _ ih =>
      refine List.forall_mem_cons.mpr ⟨by omega, fun t ht => ?_⟩
      have := ih t ht
      omega

/-- Since spans are not empty, every token starts behind the start of the one in front of it. -/
theorem pairwise_offset (h : Tiles mode offset cs ts) :
    ts.Pairwise fun t u => t.offset < u.offset := by
  induction h with
  | eof => simp
  | token _ hspan _ _ _ hts ih =>
      refine List.pairwise_cons.mpr ⟨fun u hu => ?_, ih⟩
      have hle := hts.offset_le u hu
      have hpos := byteSize_pos hspan
      omega

/-- Every token but the last one starts in front of the end of the input. -/
theorem offset_lt (h : Tiles mode offset cs ts) :
    ∀ t ∈ ts.dropLast, t.offset < offset + byteSize cs := by
  obtain ⟨us, hts, -⟩ := h.exists_end
  have hpairwise := h.pairwise_offset
  rw [hts] at hpairwise ⊢
  rw [List.dropLast_concat]
  intro t ht
  exact (List.pairwise_append.mp hpairwise).2.2 t ht _ (List.mem_singleton_self _)

theorem exists_offset_eq (h : Tiles mode offset cs ts) :
    ∀ t ∈ ts, ∃ front back, cs = front ++ back ∧ t.offset = offset + byteSize front := by
  induction h with
  | @eof _ offset skipped => simpa using ⟨skipped, ⟨[], by simp⟩, rfl⟩
  | @token _ offset skipped span rest t ts _ _ _ hoffset _ _ ih =>
      refine List.forall_mem_cons.mpr ⟨⟨skipped, span ++ rest, by simp, hoffset⟩, fun u hu => ?_⟩
      obtain ⟨front, back, rfl, hu⟩ := ih u hu
      refine ⟨skipped ++ span ++ front, back, by simp, ?_⟩
      rw [hu, hoffset, byteSize_append, byteSize_append]
      omega

/-- The braces open and close in turn: how many are open at a token shows in its category. -/
theorem countP_braces (h : Tiles mode offset cs ts) {front back : List Token} {t : Token}
    (hts : ts = front ++ t :: back) (ht : t.kind ≠ .eof) :
    front.countP (·.kind = .enterExpr) + mode.depth =
      front.countP (·.kind = .leaveExpr) +
        if t.kind = .text ∨ t.kind = .enterExpr then 0 else 1 := by
  induction h generalizing front with
  | eof =>
      rcases List.append_eq_cons_iff.mp hts.symm with ⟨-, h⟩ | ⟨more, -, h⟩
      · obtain ⟨rfl, -⟩ := List.cons.inj h
        exact absurd rfl ht
      · simp at h
  | token _ _ hadmits _ _ _ ih =>
      rcases List.append_eq_cons_iff.mp hts.symm with ⟨rfl, h⟩ | ⟨more, rfl, h⟩
      · obtain ⟨rfl, -⟩ := List.cons.inj h
        simpa using hadmits.depth_eq
      · have hrest := ih h
        have hfirst := hadmits.depth_after
        simp only [List.countP_cons, decide_eq_true_eq]
        omega

theorem text_ne_empty (h : Tiles mode offset cs ts) :
    ∀ t ∈ ts, t.kind = .text → t.lexeme ≠ "" := by
  induction h with
  | eof => simp
  | @token _ _ _ _ _ t _ _ hspan _ _ hvalue _ ih =>
      refine List.forall_mem_cons.mpr ⟨fun hkind hempty => ?_, ih⟩
      rw [hkind] at hvalue
      exact hvalue.ne_nil hspan (by rw [hempty]; rfl)

/-- In front of a brace or the end of the input, the first token is not a text. -/
theorem head?_ne_text (h : Tiles .text offset cs ts) (hcs : ∀ d ∈ cs.head?, d = '{') :
    ∀ t ∈ ts.head?, t.kind ≠ .text := by
  cases h with
  | eof => simp
  | @token _ _ skipped span rest t ts hskips hspan _ _ hvalue _ =>
      rintro _ ⟨⟩ hkind
      obtain rfl : skipped = [] := hskips
      obtain ⟨d, more, rfl⟩ := List.exists_cons_of_ne_nil hspan
      rw [hkind] at hvalue
      exact hvalue.head?_ne hspan d rfl (hcs d rfl)

/-- A text goes on up to a brace, so what follows it is not a text. -/
theorem isChain_text (h : Tiles mode offset cs ts) :
    ts.IsChain fun t u => t.kind = .text → u.kind ≠ .text := by
  induction h with
  | eof => simp
  | @token mode _ _ span rest t ts _ _ hadmits _ hvalue hts ih =>
      refine List.isChain_cons.mpr ⟨fun u hu hkind => ?_, ih⟩
      rw [hkind] at hvalue hadmits hts
      cases mode with
      | text => exact hts.head?_ne_text hvalue.rest_head? u hu
      | expr => exact absurd rfl hadmits.1

end Tiles

theorem tiles_scan (source : String) : Tiles .text 0 source.toList (scan source) :=
  tiles_scanFrom .text 0 (Nat.lt_succ_self source.toList.length)

/-- Tokens start at boundaries of characters. -/
theorem isValid_of_mem_scan {source : String} {t : Token} (h : t ∈ scan source) :
    String.Pos.Raw.IsValid source ⟨t.offset⟩ := by
  obtain ⟨front, back, hsource, hoffset⟩ := (tiles_scan source).exists_offset_eq t h
  refine String.Pos.Raw.isValid_iff_exists_append.mpr ⟨.ofList front, .ofList back, ?_, ?_⟩
  · rw [← String.ofList_append, ← hsource, String.ofList_toList]
  · rw [hoffset, byteSize_eq, Nat.zero_add]
    rfl

/-- Every source is tiled by its tokens. The last of them and no other is the end of the input,
their offsets increase and are boundaries of characters, the braces open and close in turn with the
texts outside of them and all other tokens inside, and no text is empty or behind another one. -/
theorem scan_tiles (source : String) :
    Tiles .text 0 source.toList (scan source) ∧
      (∃ ts, scan source = ts ++ [endOfInput source.utf8ByteSize] ∧ ∀ t ∈ ts, t.kind ≠ .eof) ∧
      (scan source).Pairwise (fun t u => t.offset < u.offset) ∧
      (∀ t ∈ scan source, String.Pos.Raw.IsValid source ⟨t.offset⟩) ∧
      (∀ front t back, scan source = front ++ t :: back → t.kind ≠ .eof →
        front.countP (·.kind = .enterExpr) = front.countP (·.kind = .leaveExpr) +
          if t.kind = .text ∨ t.kind = .enterExpr then 0 else 1) ∧
      (∀ t ∈ scan source, t.kind = .text → t.lexeme ≠ "") ∧
      (scan source).IsChain fun t u => t.kind = .text → u.kind ≠ .text := by
  have h := tiles_scan source
  refine ⟨h, ?_, h.pairwise_offset, fun t => isValid_of_mem_scan, ?_, h.text_ne_empty,
    h.isChain_text⟩
  · simpa using h.exists_end
  · intro front t back hts ht
    simpa [Mode.depth] using h.countP_braces hts ht

end Phrasebook.Token
