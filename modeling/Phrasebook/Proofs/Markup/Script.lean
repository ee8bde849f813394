import Mathlib
import Phrasebook.Proofs.Markup.Raw

/-!
# Script output as a string

Text is escaped for a script so that it may stand in a string between single or double quotes.
Bold and italic markup has no quotes of its own, so it may as well. The values of the attributes of
a link however are put between double quotes, and these are not escaped.

So the output, whatever a template, the translations it asks for and the plain values of its
variables are, is always one complete string between single quotes. Between double quotes it is one
if and only if there is no link in it.
-/

namespace Phrasebook.Markup

/-- Characters that cannot stand in a string as they are: ASCII controls and the line separators. -/
def isUnsafe (c : Char) : Bool :=
  c.toNat < 0x20 || c.toNat == 0x7f || c.toNat == 0x2028 || c.toNat == 0x2029

/-- The quotes that a string stands between. -/
def isStringQuote (c : Char) : Bool := c == '\'' || c == '"'

/-- The digits in which a character is written by its number. -/
def isHexDigit (c : Char) : Bool := c.isDigit || ('A' ≤ c && c ≤ 'F')

/-- What stands between the quotes of a string, with some of the quotes bare. Every other quote and
every backslash belongs to an escape: a backslash in front of a quote or a backslash, or in front of
`u` and four hexadecimal digits. -/
inductive StringBody (bare : List Char) : List Char → Prop where
  | nil : StringBody bare []
  | plain {c : Char} {cs : List Char} : isUnsafe c = false → c ≠ '\\' →
      (isStringQuote c → c ∈ bare) → StringBody bare cs → StringBody bare (c :: cs)
  | escape {c : Char} {cs : List Char} : isStringQuote c ∨ c = '\\' → StringBody bare cs →
      StringBody bare ('\\' :: c :: cs)
  | unicode {digits cs : List Char} : digits.length = 4 → (∀ d ∈ digits, isHexDigit d) →
      StringBody bare cs → StringBody bare ('\\' :: 'u' :: digits ++ cs)

/-- What is left behind the quote that ends a string, from the start of its body on. An escape hides
the character behind the backslash, and a line does not end in a string. -/
def behindString (quote : Char) : List Char → Option (List Char)
  | [] => none
  | '\\' :: _ :: rest => behindString quote rest
  | c :: rest =>
    if c = quote then some rest
    else if c = '\n' ∨ c = '\r' ∨ c = '\u2028' ∨ c = '\u2029' then none
    else behindString quote rest

/-- Between two of the quotes a text is one complete string, whatever stands behind it. -/
def Completes (quote : Char) (cs : List Char) : Prop :=
  ∀ rest, behindString quote (cs ++ quote :: rest) = some rest

theorem behindString_cons {quote c : Char} (hsafe : isUnsafe c = false) (hslash : c ≠ '\\')
    (hquote : c ≠ quote) (rest : List Char) :
    behindString quote (c :: rest) = behindString quote rest := by
  have hline : ¬ (c = '\n' ∨ c = '\r' ∨ c = '\u2028' ∨ c = '\u2029') := by
    rintro (rfl | rfl | rfl | rfl) <;> revert hsafe <;> decide
  rw [behindString, if_neg hquote, if_neg hline]
  intro _ _ hc
  exact absurd hc hslash

theorem behindString_append {quote : Char} {cs : List Char}
    (h : ∀ c ∈ cs, isUnsafe c = false ∧ c ≠ '\\' ∧ c ≠ quote) (rest : List Char) :
    behindString quote (cs ++ rest) = behindString quote rest := by
  induction cs with
  | nil => rfl
  | cons c cs ih =>
      obtain ⟨⟨hsafe, hslash, hquote⟩, hcs⟩ := List.forall_mem_cons.mp h
      rw [List.cons_append, behindString_cons hsafe hslash hquote, ih hcs]

/-- Hexadecimal digits mean nothing else in a string. -/
theorem plain_of_isHexDigit {c : Char} (h : isHexDigit c) :
    isUnsafe c = false ∧ c ≠ '\\' ∧ isStringQuote c = false := by
  have hrange : 48 ≤ c.toNat ∧ c.toNat ≤ 70 := by
    have hdigits : '0'.toNat ≤ c.toNat ∧ c.toNat ≤ '9'.toNat ∨
        'A'.toNat ≤ c.toNat ∧ c.toNat ≤ 'F'.toNat := by
      simpa [isHexDigit, Char.isDigit, Char.le_def, UInt32.le_iff_toNat_le] using h
    rcases hdigits with ⟨hlo, hhi⟩ | ⟨hlo, hhi⟩ <;> simp at hlo hhi <;> omega
  refine ⟨?_, ?_, ?_⟩
  · simp [isUnsafe]
    omega
  · rintro rfl
    simp at hrange
  · rw [Bool.eq_false_iff]
    intro hquote
    simp only [isStringQuote, Bool.or_eq_true, beq_iff_eq] at hquote
    rcases hquote with rfl | rfl <;> simp at hrange

namespace StringBody

variable {bare : List Char}

theorem append {cs ds : List Char} (hcs : StringBody bare cs) (hds : StringBody bare ds) :
    StringBody bare (cs ++ ds) := by
  induction hcs with
  | nil => exact hds
  | plain hsafe hslash hquote _ ih => exact .plain hsafe hslash hquote ih
  | escape hc _ ih => exact .escape hc ih
  | unicode hlength hdigits _ ih =>
      rw [List.append_assoc]
      exact .unicode hlength hdigits ih

theorem mono {more cs : List Char} (hbare : bare ⊆ more) (h : StringBody bare cs) :
    StringBody more cs := by
  induction h with
  | nil => exact .nil
  | plain hsafe hslash hquote _ ih => exact .plain hsafe hslash (fun h => hbare (hquote h)) ih
  | escape hc _ ih => exact .escape hc ih
  | unicode hlength hdigits _ ih => exact .unicode hlength hdigits ih

/-- Neither bare nor in an escape is there a control or a line separator. -/
theorem forall_safe {cs : List Char} (h : StringBody bare cs) : ∀ c ∈ cs, isUnsafe c = false := by
  have hslash : isUnsafe '\\' = false := by simp [isUnsafe]
  induction h with
  | nil => simp
  | plain hsafe _ _ _ ih => exact List.forall_mem_cons.mpr ⟨hsafe, ih⟩
  | @escape c cs hc _ ih =>
      have hsafe : isUnsafe c = false := by
        simp only [isStringQuote, Bool.or_eq_true, beq_iff_eq] at hc
        rcases hc with (rfl | rfl) | rfl <;> simp [isUnsafe]
      exact List.forall_mem_cons.mpr ⟨hslash, List.forall_mem_cons.mpr ⟨hsafe, ih⟩⟩
  | unicode _ hdigits _ ih =>
      refine List.forall_mem_cons.mpr ⟨hslash, List.forall_mem_cons.mpr ⟨by simp [isUnsafe], ?_⟩⟩
      exact List.forall_mem_append.mpr ⟨fun d hd => (plain_of_isHexDigit (hdigits d hd)).1, ih⟩

/-- Characters that need no escape. -/
theorem of_all {cs : List Char}
    (h : ∀ c ∈ cs, isUnsafe c = false ∧ c ≠ '\\' ∧ (isStringQuote c → c ∈ bare)) :
    StringBody bare cs := by
  induction cs with
  | nil => exact .nil
  | cons c cs ih =>
      obtain ⟨⟨hsafe, hslash, hquote⟩, hcs⟩ := List.forall_mem_cons.mp h
      exact .plain hsafe hslash hquote (ih hcs)

/-- The text of a tag, whose only quotes are double ones. -/
theorem of_tag {cs : List Char} (h : ∀ c ∈ cs, isUnsafe c = false ∧ c ≠ '\\' ∧ c ≠ '\'')
    (hbare : '"' ∈ cs → '"' ∈ bare) : StringBody bare cs := by
  refine of_all fun c hc => ?_
  obtain ⟨hsafe, hslash, hsingle⟩ := h c hc
  refine ⟨hsafe, hslash, fun hquote => ?_⟩
  have hdouble : c = '"' := by simpa [isStringQuote, hsingle] using hquote
  rw [hdouble] at hc ⊢
  exact hbare hc

/-- A string goes on behind a body without its quote as if the body were not there. -/
theorem behindString_eq {quote : Char} (hquote : isStringQuote quote) (hbare : quote ∉ bare)
    {cs : List Char} (h : StringBody bare cs) (rest : List Char) :
    behindString quote (cs ++ rest) = behindString quote rest := by
  induction h with
  | nil => rfl
  | @plain c cs hsafe hslash hc _ ih =>
      have hne : c ≠ quote := by
        rintro rfl
        exact hbare (hc hquote)
      rw [List.cons_append, behindString_cons hsafe hslash hne, ih]
  | escape hc _ ih => exact ih
  | @unicode digits cs hlength hdigits _ ih =>
      have hplain : ∀ d ∈ digits, isUnsafe d = false ∧ d ≠ '\\' ∧ d ≠ quote := by
        intro d hd
        obtain ⟨hsafe, hslash, hnone⟩ := plain_of_isHexDigit (hdigits d hd)
        refine ⟨hsafe, hslash, ?_⟩
        rintro rfl
        simp [hquote] at hnone
      change behindString quote (digits ++ cs ++ rest) = _
      rw [List.append_assoc, behindString_append hplain, ih]

/-- A body between its quotes is one complete string. -/
theorem completes {quote : Char} (hquote : isStringQuote quote) (hbare : quote ∉ bare)
    {cs : List Char} (h : StringBody bare cs) : Completes quote cs := by
  intro rest
  have hslash : quote ≠ '\\' := by
    rintro rfl
    cases hquote
  rw [h.behindString_eq hquote hbare, behindString, if_pos rfl]
  intro _ _ hc
  exact absurd hc hslash

/-- Where a quote is bare, the string ends. -/
theorem not_completes {quote : Char} (hquote : isStringQuote quote) (hbare : quote ∉ bare)
    {cs more : List Char} (h : StringBody bare cs) : ¬ Completes quote (cs ++ quote :: more) := by
  intro hall
  have hfull := hall []
  have hends := h.completes hquote hbare (more ++ [quote])
  rw [List.append_assoc, List.cons_append, hends] at hfull
  simp at hfull

end StringBody

theorem isHexDigit_hexDigit {n : Nat} (h : n < 16) : isHexDigit (hexDigit n) := by
  decide +revert

theorem stringBody_escapeScriptChar (c : Char) : StringBody [] (escapeScriptChar c) := by
  unfold escapeScriptChar
  split
  · next hc =>
      refine .escape ?_ .nil
      simpa [isStringQuote, or_comm, or_assoc] using hc
  split
  · next hspecial =>
      change StringBody [] ('\\' :: 'u' :: [_, _, _, _] ++ [])
      refine .unicode rfl ?_ .nil
      have hdigit : ∀ m, isHexDigit (hexDigit (m % 16)) := fun m =>
        isHexDigit_hexDigit (Nat.mod_lt m (by decide))
      simp [hdigit]
  · next hc hspecial =>
      refine .plain ?_ ?_ ?_ .nil
      · simp [isScriptSpecial] at hspecial
        simp [isUnsafe, hspecial]
      · rintro rfl
        simp at hc
      · intro hquote
        simp [isStringQuote] at hquote
        tauto

/-- Escaped text may stand between any quotes. -/
theorem stringBody_escapeScript (s : String) : StringBody [] (escapeScript s).toList := by
  rw [escapeScript, String.toList_ofList, escapeScriptChars]
  induction s.toList with
  | nil => exact .nil
  | cons c cs ih =>
      rw [List.flatMap_cons]
      exact (stringBody_escapeScriptChar c).append ih

/-- Text that may stand between any quotes. -/
structure QuotedBody where
  chars : List Char
  body : StringBody [] chars

/-- The escaped form of a text. -/
def QuotedBody.ofText (s : String) : QuotedBody :=
  ⟨(escapeScript s).toList, stringBody_escapeScript s⟩

@[simp] theorem QuotedBody.chars_ofText (s : String) :
    (ofText s).chars = (escapeScript s).toList := rfl

/-- A piece of script output: escaped text, or one element around it. -/
inductive ScriptPiece where
  | text (body : QuotedBody)
  | bold (body : QuotedBody)
  | italic (body : QuotedBody)
  | link (href body : QuotedBody)
  | windowLink (href target body : QuotedBody)

namespace ScriptPiece

/-- The characters of a piece. -/
def chars : ScriptPiece → List Char
  | text body => body.chars
  | bold body => "<b>".toList ++ body.chars ++ "</b>".toList
  | italic body => "<i>".toList ++ body.chars ++ "</i>".toList
  | link href body =>
    "<a href=\"".toList ++ href.chars ++ "\">".toList ++ body.chars ++ "</a>".toList
  | windowLink href target body =>
    "<a href=\"".toList ++ href.chars ++ "\" target=\"".toList ++ target.chars ++ "\">".toList ++
      body.chars ++ "</a>".toList

theorem chars_text (b : QuotedBody) : (text b).chars = b.chars := rfl

theorem chars_bold (b : QuotedBody) :
    (bold b).chars = "<b>".toList ++ b.chars ++ "</b>".toList := rfl

theorem chars_italic (b : QuotedBody) :
    (italic b).chars = "<i>".toList ++ b.chars ++ "</i>".toList := rfl

theorem chars_link (href b : QuotedBody) :
    (link href b).chars =
      "<a href=\"".toList ++ href.chars ++ "\">".toList ++ b.chars ++ "</a>".toList := rfl

theorem chars_windowLink (href target b : QuotedBody) :
    (windowLink href target b).chars =
      "<a href=\"".toList ++ href.chars ++ "\" target=\"".toList ++ target.chars ++
        "\">".toList ++ b.chars ++ "</a>".toList := rfl

/-- Whether a piece is a link, with or without a window to open it in. -/
def isLink : ScriptPiece → Bool
  | link .. | windowLink .. => true
  | _ => false

/-- Every piece may stand between single quotes, and all but links between double quotes as well. -/
theorem stringBody_chars {bare : List Char} {p : ScriptPiece} (h : p.isLink → '"' ∈ bare) :
    StringBody bare p.chars := by
  have body : ∀ b : QuotedBody, StringBody bare b.chars := fun b => b.body.mono (by simp)
  have tag : ∀ cs : List Char, (∀ c ∈ cs, isUnsafe c = false ∧ c ≠ '\\' ∧ c ≠ '\'') →
      ('"' ∈ cs → p.isLink) → StringBody bare cs := fun _ hcs hquote =>
    .of_tag hcs fun hmem => h (hquote hmem)
  cases p with
  | text b => exact body b
  | bold b =>
      have opening := tag "<b>".toList (by simp [isUnsafe]) (by simp)
      have closing := tag "</b>".toList (by simp [isUnsafe]) (by simp)
      exact (opening.append (body b)).append closing
  | italic b =>
      have opening := tag "<i>".toList (by simp [isUnsafe]) (by simp)
      have closing := tag "</i>".toList (by simp [isUnsafe]) (by simp)
      exact (opening.append (body b)).append closing
  | link href b =>
      have opening := tag "<a href=\"".toList (by simp [isUnsafe]) fun _ => rfl
      have opened := tag "\">".toList (by simp [isUnsafe]) fun _ => rfl
      have closing := tag "</a>".toList (by simp [isUnsafe]) fun _ => rfl
      exact (((opening.append (body href)).append opened).append (body b)).append closing
  | windowLink href target b =>
      have opening := tag "<a href=\"".toList (by simp [isUnsafe]) fun _ => rfl
      have between := tag "\" target=\"".toList (by simp [isUnsafe]) fun _ => rfl
      have opened := tag "\">".toList (by simp [isUnsafe]) fun _ => rfl
      have closing := tag "</a>".toList (by simp [isUnsafe]) fun _ => rfl
      exact (((((opening.append (body href)).append between).append (body target)).append
        opened).append (body b)).append closing

/-- A link has a bare double quote in front of its address. -/
theorem exists_of_isLink {p : ScriptPiece} (h : p.isLink) :
    ∃ more, p.chars = "<a href=".toList ++ '"' :: more := by
  cases p with
  | link href b => exact ⟨_, rfl⟩
  | windowLink href target b => exact ⟨_, rfl⟩
  | _ => cases h

theorem stringBody_flatMap {bare : List Char} {pieces : List ScriptPiece}
    (h : ∀ p ∈ pieces, p.isLink → '"' ∈ bare) : StringBody bare (pieces.flatMap chars) := by
  induction pieces with
  | nil => exact .nil
  | cons p pieces ih =>
      obtain ⟨hp, hpieces⟩ := List.forall_mem_cons.mp h
      exact (stringBody_chars hp).append (ih hpieces)

/-- Up to its first link, output may stand between double quotes. -/
theorem exists_stringBody_of_isLink {pieces : List ScriptPiece} (h : ∃ p ∈ pieces, p.isLink) :
    ∃ front more, pieces.flatMap chars = front ++ '"' :: more ∧ StringBody [] front := by
  induction pieces with
  | nil => simp at h
  | cons p pieces ih =>
      by_cases hp : p.isLink
      · obtain ⟨more, hmore⟩ := exists_of_isLink hp
        refine ⟨"<a href=".toList, more ++ pieces.flatMap chars, ?_,
          .of_tag (by simp [isUnsafe]) (by decide)⟩
        rw [List.flatMap_cons, hmore, List.append_assoc, List.cons_append]
      · obtain ⟨front, more, hmore, hfront⟩ := ih (by simpa [hp] using h)
        refine ⟨p.chars ++ front, more, ?_, (stringBody_chars (by simp [hp])).append hfront⟩
        rw [List.flatMap_cons, hmore, List.append_assoc]

end ScriptPiece

/-- A text that is made of pieces of script output, and what can be said of where it may stand. -/
structure IsOutput (s : String) (pieces : List ScriptPiece) : Prop where
  eq : s.toList = pieces.flatMap ScriptPiece.chars
  safe : ∀ c ∈ s.toList, isUnsafe c = false
  single : Completes '\'' s.toList
  double : Completes '"' s.toList ↔ ∀ p ∈ pieces, p.isLink = false
  body : StringBody ['"'] s.toList
  escaped : StringBody [] s.toList ↔ ∀ p ∈ pieces, p.isLink = false

/-- A text that is a concatenation of pieces of script output. -/
def IsScript (s : String) : Prop :=
  ∃ pieces : List ScriptPiece, s.toList = pieces.flatMap ScriptPiece.chars

namespace IsScript

theorem empty : IsScript "" := ⟨[], rfl⟩

theorem append {s t : String} (hs : IsScript s) (ht : IsScript t) : IsScript (s ++ t) := by
  obtain ⟨ps, hs⟩ := hs
  obtain ⟨qs, ht⟩ := ht
  exact ⟨ps ++ qs, by rw [String.toList_append, hs, ht, List.flatMap_append]⟩

theorem of_piece {s : String} {p : ScriptPiece} (h : s.toList = p.chars) : IsScript s :=
  ⟨[p], by rw [h, List.flatMap_singleton]⟩

theorem escapeScript (s : String) : IsScript (Markup.escapeScript s) := by
  refine of_piece (p := .text (.ofText s)) ?_
  rw [ScriptPiece.chars_text, QuotedBody.chars_ofText]

theorem bold (s : String) : IsScript ("<b>" ++ Markup.escapeScript s ++ "</b>") := by
  refine of_piece (p := .bold (.ofText s)) ?_
  rw [ScriptPiece.chars_bold, QuotedBody.chars_ofText, String.toList_append, String.toList_append]

theorem italic (s : String) : IsScript ("<i>" ++ Markup.escapeScript s ++ "</i>") := by
  refine of_piece (p := .italic (.ofText s)) ?_
  rw [ScriptPiece.chars_italic, QuotedBody.chars_ofText, String.toList_append,
    String.toList_append]

theorem link (label href target : String) :
    IsScript ("<a href=\"" ++ Markup.escapeScript href ++ "\"" ++
      Format.script.targetAttribute target ++ ">" ++ Markup.escapeScript label ++ "</a>") := by
  unfold Format.targetAttribute
  split
  · refine of_piece (p := .link (.ofText href) (.ofText label)) ?_
    simp [ScriptPiece.chars_link, String.toList_append]
  · refine of_piece (p := .windowLink (.ofText href) (.ofText target) (.ofText label)) ?_
    simp [ScriptPiece.chars_windowLink, String.toList_append, Format.escape]

/-- What is made of pieces is a string between single quotes, and between double quotes if none of
the pieces is a link. -/
theorem exists_isOutput {s : String} (h : IsScript s) : ∃ pieces, IsOutput s pieces := by
  obtain ⟨pieces, hs⟩ := h
  have hbody : StringBody ['"'] s.toList := by
    rw [hs]
    exact ScriptPiece.stringBody_flatMap fun _ _ _ => List.mem_singleton_self _
  have hescaped : (∀ p ∈ pieces, p.isLink = false) → StringBody [] s.toList := by
    intro hnone
    rw [hs]
    exact ScriptPiece.stringBody_flatMap fun p hp hlink => by simp [hnone p hp] at hlink
  have hdouble : Completes '"' s.toList → ∀ p ∈ pieces, p.isLink = false := by
    intro hcompletes p hp
    by_contra hlink
    obtain ⟨front, more, hmore, hfront⟩ :=
      ScriptPiece.exists_stringBody_of_isLink ⟨p, hp, Bool.eq_true_of_not_eq_false hlink⟩
    rw [hs, hmore] at hcompletes
    exact hfront.not_completes rfl (List.not_mem_nil) hcompletes
  have hclosed : StringBody [] s.toList → Completes '"' s.toList := fun h =>
    h.completes rfl List.not_mem_nil
  exact ⟨pieces, hs, hbody.forall_safe, hbody.completes rfl (by decide),
    ⟨hdouble, fun h => hclosed (hescaped h)⟩, hbody, ⟨fun h => hdouble (hclosed h), hescaped⟩⟩

end IsScript

/-- Markup of the script format is made of pieces, and rendering escapes everything else. -/
theorem keeps_script : Format.script.Keeps IsScript where
  bold v := Format.rawIn_enclose .empty (.bold v.toText)
  italic v := Format.rawIn_enclose .empty (.italic v.toText)
  link label href target := Value.rawIn_raw.mpr (.link label.toText href.toText target.toText)
  render _ := Format.holds_render .empty .append .escapeScript

/-- Whenever evaluation succeeds, its script output is one complete string between single quotes,
and between double quotes exactly if there is no link in it: with all variables in which the raw
texts are script output, for every template, fragment or expression, every translation of every
table, from every depth and with every limit. The same holds of what a catalog translates. -/
theorem script_output_isOutput {vars : Vars} (hvars : vars.RawIn IsScript) :
    (∀ (scope : Scope) (n : Node) (depth : Nat) (v : Value), scope.format = .script →
      scope.vars = vars → ((scope.evalNode n).runAt depth).1 = .ok v →
      ∃ pieces, IsOutput (Format.script.render v) pieces) ∧
    ∀ (c : Catalog) (locale : String) (m : Message) (s : String), m.vars = vars →
      c.translate .script locale m = .ok s → ∃ pieces, IsOutput s pieces := by
  constructor
  · rintro scope n depth v hformat rfl hv
    have hraw := scope.yields_rawIn_evalNode (hformat ▸ keeps_script) hvars n depth v hv
    exact (keeps_script.render v hraw).exists_isOutput
  · rintro c locale m s rfl hs
    exact (Catalog.holds_translate keeps_script .empty hvars hs).exists_isOutput

/-- A scope with quotes in a variable. -/
def quotingScope : Scope :=
  ⟨.script, "en", .ofList [("q", .text "it's \"x\"")], .ofList [], 9⟩

/-- Bold markup and a link. -/
def quotingTemplate : Template :=
  [.expr (.call (.func .bold) [.ident "q"]),
    .expr (.call (.func .link) [.literal .string "x", .literal .string "y"])]

theorem script_output_isOutput_of_link :
    ∃ v, ((quotingScope.eval quotingTemplate).runAt 0).1 = .ok v ∧
      Format.script.render v = "<b>it\\'s \\\"x\\\"</b><a href=\"y\">x</a>" ∧
      ¬ Completes '"' (Format.script.render v).toList ∧
      ∃ pieces, IsOutput (Format.script.render v) pieces := by
  have hvars : Vars.RawIn IsScript quotingScope.vars := by
    intro e he
    rcases List.mem_singleton.mp (Dictionary.mem_entries_ofList he) with rfl
    exact Value.rawIn_text _
  refine ⟨_, rfl, by decide +kernel, ?_, ?_⟩
  · intro h
    have hends := h []
    revert hends
    decide +kernel
  · exact (script_output_isOutput hvars).1 quotingScope (.template quotingTemplate) 0 _ rfl rfl rfl

end Phrasebook.Markup
