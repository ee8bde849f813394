import Mathlib
import Phrasebook.Catalog.Translate
import Phrasebook.Proofs.Markup.Raw

/-!
# HTML output is well formed

Text is escaped if no character in it can end the text, open or close a tag, or end the value of an
attribute, and if every ampersand starts one of the entities that escaping writes. Markup is escaped
text with bold, italic and link elements in it, whose contents and attributes are escaped.

Whatever a template, the translations it asks for and the plain values of its variables are, the
HTML output is markup. Variables may hold raw text, as long as it is markup.
-/

namespace Phrasebook.Markup

/-- The characters that escaped text has none of. -/
def forbidden : List Char := ['<', '>', '"', '\'', '\x00']

/-- What an ampersand in escaped text may start. -/
def entities : List (List Char) :=
  [['&', 'a', 'm', 'p', ';'], ['&', '#', '3', '9', ';'], ['&', 'l', 't', ';'],
    ['&', 'g', 't', ';'], ['&', '#', '3', '4', ';']]

/-- Text that means itself in HTML, as content and as the value of an attribute. -/
def Escaped (cs : List Char) : Prop :=
  (∀ c ∈ cs, c ∉ forbidden) ∧ ∀ rest, '&' :: rest <:+ cs → ∃ e ∈ entities, e <+: '&' :: rest

/-- A piece of markup: escaped text, or one element around it. -/
inductive Piece : List Char → Prop where
  | text {e : List Char} : Escaped e → Piece e
  | bold {e : List Char} : Escaped e → Piece ("<b>".toList ++ e ++ "</b>".toList)
  | italic {e : List Char} : Escaped e → Piece ("<i>".toList ++ e ++ "</i>".toList)
  | link {href e : List Char} : Escaped href → Escaped e →
      Piece ("<a href=\"".toList ++ href ++ "\">".toList ++ e ++ "</a>".toList)
  | windowLink {href target e : List Char} : Escaped href → Escaped target → Escaped e →
      Piece ("<a href=\"".toList ++ href ++ "\" target=\"".toList ++ target ++ "\">".toList ++ e ++
        "</a>".toList)

/-- A text that is a concatenation of pieces of markup. -/
def IsMarkup (s : String) : Prop :=
  ∃ pieces : List (List Char), (∀ p ∈ pieces, Piece p) ∧ s.toList = pieces.flatten

namespace Escaped

theorem nil : Escaped [] := ⟨by simp, by simp⟩

theorem append {a b : List Char} (ha : Escaped a) (hb : Escaped b) : Escaped (a ++ b) := by
  refine ⟨?_, ?_⟩
  · intro c hc
    rcases List.mem_append.mp hc with hc | hc
    · exact ha.1 c hc
    · exact hb.1 c hc
  · rintro rest ⟨front, hfront⟩
    rcases List.append_eq_append_iff.mp hfront with ⟨inner, rfl, hinner⟩ | ⟨inner, rfl, rfl⟩
    · cases inner with
      | nil => exact hb.2 rest (by simp_all)
      | cons c inner =>
          obtain ⟨rfl, rfl⟩ := List.cons.inj hinner
          obtain ⟨e, he, hpre⟩ := ha.2 inner ⟨front, rfl⟩
          exact ⟨e, he, hpre.trans ⟨b, rfl⟩⟩
    · exact hb.2 rest ⟨inner, rfl⟩

/-- An entity has one ampersand, which starts it. -/
theorem entity {e : List Char} (he : e ∈ entities) : Escaped e := by
  have only : ∀ rest, '&' :: rest <:+ e → '&' :: rest = e := by
    intro rest hrest
    simp only [entities, List.mem_cons, List.not_mem_nil, or_false] at he
    rcases he with rfl | rfl | rfl | rfl | rfl <;> simpa [List.suffix_cons_iff] using hrest
  refine ⟨?_, fun rest hrest => ⟨e, he, (only rest hrest).symm ▸ List.prefix_rfl⟩⟩
  have allowed : ∀ e ∈ entities, ∀ c ∈ e, c ∉ forbidden := by simp [entities, forbidden]
  exact allowed e he

theorem singleton {c : Char} (hc : c ∉ forbidden) (hamp : c ≠ '&') : Escaped [c] := by
  refine ⟨by simpa using hc, fun rest hrest => ?_⟩
  rcases List.suffix_cons_iff.mp hrest with h | h
  · exact absurd (List.cons.inj h).1.symm hamp
  · simp at h

theorem escapeHtmlChar (c : Char) : Escaped (escapeHtmlChar c) := by
  unfold Markup.escapeHtmlChar
  split
  case h_6 => exact singleton (by decide) (by decide)
  case h_7 c _ _ _ _ _ _ => exact singleton (by simp_all [forbidden]) (by simp_all)
  all_goals exact entity (by decide)

/-- Escaping deserves its name. -/
theorem escapeHtml (s : String) : Escaped (Markup.escapeHtml s).toList := by
  rw [Markup.escapeHtml, String.toList_ofList, escapeHtmlChars]
  induction s.toList with
  | nil => exact nil
  | cons c cs ih =>
      rw [List.flatMap_cons]
      exact (escapeHtmlChar c).append ih

end Escaped

namespace IsMarkup

theorem empty : IsMarkup "" := ⟨[], by simp, rfl⟩

theorem of_piece {s : String} (h : Piece s.toList) : IsMarkup s := ⟨[s.toList], by simpa, by simp⟩

theorem append {s t : String} (hs : IsMarkup s) (ht : IsMarkup t) : IsMarkup (s ++ t) := by
  obtain ⟨ps, hps, hs⟩ := hs
  obtain ⟨qs, hqs, ht⟩ := ht
  refine ⟨ps ++ qs, ?_, by rw [String.toList_append, hs, ht, List.flatten_append]⟩
  intro p hp
  rcases List.mem_append.mp hp with hp | hp
  · exact hps p hp
  · exact hqs p hp

end IsMarkup

/-- Bold, italics and links are pieces of markup, and rendering escapes everything else. -/
theorem keeps_html : Format.html.Keeps IsMarkup where
  bold v := Format.rawIn_enclose .empty <| .of_piece <| by
    simpa [Format.escape, String.toList_append] using Piece.bold (Escaped.escapeHtml v.toText)
  italic v := Format.rawIn_enclose .empty <| .of_piece <| by
    simpa [Format.escape, String.toList_append] using Piece.italic (Escaped.escapeHtml v.toText)
  link label href target := by
    have hhref := Escaped.escapeHtml href.toText
    have hlabel := Escaped.escapeHtml label.toText
    refine Value.rawIn_raw.mpr (.of_piece ?_)
    by_cases ht : target.toText = ""
    · simpa [Format.targetAttribute, Format.escape, ht, String.toList_append] using
        Piece.link hhref hlabel
    · simpa [Format.targetAttribute, Format.escape, ht, String.toList_append] using
        Piece.windowLink hhref (Escaped.escapeHtml target.toText) hlabel
  render _ := Format.holds_render .empty .append fun s => .of_piece (.text (Escaped.escapeHtml s))

/-- Whenever evaluation succeeds, its HTML output is markup: for every template, fragment or
expression, every translation of every table, from every depth and with every limit, and with all
variables in which the raw texts are markup. The same holds of what a catalog translates. -/
theorem html_output_isMarkup :
    (∀ (scope : Scope) (n : Node) (depth : Nat) (v : Value), scope.format = .html →
      Vars.RawIn IsMarkup scope.vars → ((scope.evalNode n).runAt depth).1 = .ok v →
      IsMarkup (Format.html.render v)) ∧
    ∀ (c : Catalog) (locale : String) (m : Message) (s : String), Vars.RawIn IsMarkup m.vars →
      c.translate .html locale m = .ok s → IsMarkup s := by
  refine ⟨?_, ?_⟩
  · intro scope n depth v hformat hvars hv
    exact keeps_html.render v
      (scope.yields_rawIn_evalNode (hformat ▸ keeps_html) hvars n depth v hv)
  · intro c locale m s hvars hs
    rw [Catalog.translate] at hs
    split at hs
    · cases hs
      exact .empty
    split at hs
    · cases hs
    split at hs
    · cases hs
    split at hs
    · next v hv =>
        cases hs
        have hraw := Scope.yields_rawIn_translate (c.scope .html locale m.vars _) keeps_html hvars
          _ 0 _ hv
        exact keeps_html.render v (hraw v rfl)
    · cases hs
    · cases hs

/-- A translation that asks for itself, and renders its variable and a text. -/
def selfAsking : Translation :=
  .ofTemplate [.expr (.ident "value"), .text "<",
    .expr (.binary .and (.ident "value") (.call (.func .translate) [.literal .string "k"]))]

/-- A scope with markup in a variable, in which a translation asks for itself. -/
def selfAskingScope : Scope :=
  ⟨.html, "en", .ofList [("r", .raw "<i>x</i>")], .ofList [("k", selfAsking)], 9⟩

/-- Bold markup, and the translation that asks for itself. -/
def selfAskingTemplate : Template :=
  [.expr (.call (.func .bold) [.ident "r"]),
    .expr (.call (.func .translate) [.literal .string "k", .ident "r"])]

theorem html_output_isMarkup_of_selfAsking :
    ∃ v, ((selfAskingScope.eval selfAskingTemplate).runAt 0).1 = .ok v ∧
      Format.html.render v = "<b>&lt;i&gt;x&lt;/i&gt;</b><i>x</i>&lt;true" ∧
      IsMarkup (Format.html.render v) := by
  have hvars : Vars.RawIn IsMarkup selfAskingScope.vars := by
    intro e he
    rcases List.mem_singleton.mp (Dictionary.mem_entries_ofList he) with rfl
    have hx : Escaped ['x'] := Escaped.singleton (by decide) (by decide)
    exact Value.rawIn_raw.mpr (.of_piece (.italic hx))
  refine ⟨_, rfl, ?_, ?_⟩
  · decide +kernel
  · exact html_output_isMarkup.1 selfAskingScope (.template selfAskingTemplate) 0 _ rfl hvars rfl

end Phrasebook.Markup
