import Mathlib
import Phrasebook.Proofs.Evaluation.Nesting
import Phrasebook.Proofs.Evaluation.Variables
import Phrasebook.Proofs.Template.Blanks
import Phrasebook.Proofs.Translation.Keys
import Phrasebook.Proofs.Translation.Sources

/-!
# Evaluation of what is accepted

An accepted template has no span that could not be read, and neither has a translation from a
document that is compiled strictly. So evaluation never fails for such a span. Ranges and slices are
only there where a colon stands inside of an expression. Without colons evaluation fails for nothing
but its limit (`Scope.raises_of_accepted`): everything else that may be odd about a template, a
variable or a key has a value.

Which colons matter is a question of which sources are involved (`Json.Involves`): those to start
with, and the sources of each translation that an expression in an involved source may ask for.
-/

namespace Phrasebook

namespace Lexeme

theorem subset_separated {item : List Lexeme} {items : List (List Lexeme)} (h : item ∈ items)
    (trailing : Bool) : item ⊆ separated trailing items := by
  induction items with
  | nil => cases h
  | cons first items ih =>
      cases items with
      | nil =>
          obtain rfl := List.mem_singleton.mp h
          cases trailing <;> simp [separated]
      | cons second items =>
          change item ⊆ first ++ symbol .comma :: separated trailing (second :: items)
          obtain rfl | hothers := List.mem_cons.mp h
          · exact List.subset_append_left _ _
          · exact List.subset_append_of_subset_right _ (List.subset_cons_of_subset _ (ih hothers))

end Lexeme

namespace Expr

/-- Whether the own step of an expression may fail. -/
def mayRaise : Expr → Bool
  | .range _ _ | .slice _ _ _ | .invalid _ _ => true
  | _ => false

theorem Raises.mayRaise {e : Expr} {err : EvalError} (h : e.Raises err) : e.mayRaise := by
  cases h <;> rfl

/-- Without a colon an expression has neither ranges nor slices. -/
theorem Spelled.everywhere_not_mayRaise {e : Expr} {ls : List Lexeme} {closed : Bool}
    (h : e.Spelled ls closed) (hcolon : ∀ l ∈ ls, l.kind ≠ .colon) :
    e.Everywhere (·.mayRaise = false) := by
  induction h with
  | name name =>
      rw [ofName.eq_def]
      split <;> exact .leaf rfl rfl
  | literal => exact .leaf rfl rfl
  | group _ ih => exact ih fun l hl => hcolon l (by simp [hl])
  | unary _ _ ih =>
      exact .unary rfl (ih fun l hl => hcolon l (by simp [hl]))
  | binary _ _ _ ihl ihr =>
      have hlhs := ihl fun l hl => hcolon l (by simp [hl])
      have hrhs := ihr fun l hl => hcolon l (by simp [hl])
      exact .binary rfl hlhs hrhs
  | range | openRange | rangeFromZero | openRangeFromZero =>
      exact absurd rfl (hcolon (.symbol .colon) (by simp))
  | @index _ position _ _ _ _ _ ihb ihp =>
      have hbase := ihb fun l hl => hcolon l (by simp [hl])
      have hposition := ihp fun l hl => hcolon l (by simp [hl])
      cases position with
      | range start stop => cases hposition.own
      | _ => exact .intro rfl (by simpa [parts, Template.indexed] using ⟨hbase, hposition⟩)
  | select trailing items _ _ _ ihv ihp ihr =>
      have hvalue := ihv fun l hl => hcolon l (by simp [hl])
      have hitem : ∀ i ∈ items, ∀ l ∈ i.2.1 ++ .symbol .equal :: i.2.2, l.kind ≠ .colon := by
        intro i hi l hl
        have hsub := Lexeme.subset_separated (List.mem_map_of_mem
          (f := fun i => i.2.1 ++ .symbol .equal :: i.2.2) hi) trailing hl
        exact hcolon l (by simp [hsub])
      refine .select rfl hvalue (List.forall_mem_map.mpr fun i hi => ⟨?_, ?_⟩)
      · exact ihp i hi fun l hl => hitem i hi l (by simp [hl])
      · exact ihr i hi fun l hl => hitem i hi l (by simp [hl])
  | call trailing items _ _ ihc iha =>
      have hcallee := ihc fun l hl => hcolon l (by simp [hl])
      refine .call rfl hcallee (List.forall_mem_map.mpr fun i hi => iha i hi fun l hl => ?_)
      have hsub := Lexeme.subset_separated (List.mem_map_of_mem (f := (·.2)) hi) trailing hl
      exact hcolon l (by simp [hsub])

end Expr

namespace Template

theorem Spelled.everywhere_not_mayRaise {t : Template} {ls : List Lexeme} (h : t.Spelled ls)
    (hcolon : ∀ l ∈ ls, l.kind ≠ .colon) : t.Everywhere (·.mayRaise = false) := by
  induction h with
  | nil => exact fun e he => absurd he List.not_mem_nil
  | cons hf _ ih =>
      obtain ⟨hfirst, hothers⟩ := List.forall_mem_append.mp hcolon
      intro e he
      obtain rfl | he := List.mem_cons.mp he
      · cases hf with
        | expr he => exact he.everywhere_not_mayRaise fun l hl => hfirst l (by simp [hl])
      · exact ih hothers e he

/-- No token of a source is a colon. A colon in literal text or in quotes is not a token. -/
def NoColon (source : String) : Prop := ∀ token ∈ Token.scan source, token.kind ≠ .colon

instance (source : String) : Decidable (NoColon source) :=
  inferInstanceAs (Decidable (∀ token ∈ Token.scan source, token.kind ≠ .colon))

variable {source : String} {t : Template} (h : parse source = .ok t)

include h

theorem everywhere_valid_of_parse : t.Everywhere (·.isInvalid = false) := by
  obtain ⟨ls, -, hspelled⟩ := exists_spelled_of_parse h
  exact hspelled.everywhere_valid

theorem everywhere_not_mayRaise_of_parse (hcolon : NoColon source) :
    t.Everywhere (·.mayRaise = false) := by
  obtain ⟨ls, hls, hspelled⟩ := exists_spelled_of_parse h
  refine hspelled.everywhere_not_mayRaise fun l hl => ?_
  have hmem : l ∈ (Token.scan source).map Token.toLexeme := by simp [hls, hl]
  obtain ⟨token, htoken, rfl⟩ := List.mem_map.mp hmem
  exact hcolon token htoken

end Template

namespace Json

/-- The sources that are involved in evaluation: those to start with, and the sources of each
translation that an expression in an involved source may ask for. -/
inductive Involves (document : Json) (start : String → Prop) : String → Prop where
  | start {source : String} : start source → Involves document start source
  | asked {source key source' : String} {t : Template} {e : Expr} {leaf : Json} :
      Involves document start source → Template.parse source = .ok t → t.Contains e →
      e.MayAsk key → document.LastLeaf key leaf → source' ∈ leaf.sources →
      Involves document start source'

/-- An expression stands in an involved source. -/
def InvolvesExpr (document : Json) (start : String → Prop) (e : Expr) : Prop :=
  ∃ source t, document.Involves start source ∧ Template.parse source = .ok t ∧ t.Contains e

variable {document : Json} {start : String → Prop}

/-- What is involved comes from the document, unless it is there to start with. -/
theorem Involves.start_or_mem {source : String} (h : document.Involves start source) :
    start source ∨ ∃ path leaf, document.HasLeaf path leaf ∧ source ∈ leaf.sources := by
  cases h with
  | start h => exact .inl h
  | asked _ _ _ _ hlast hmem =>
      obtain ⟨path, hleaf, -⟩ := hlast.hasLeaf
      exact .inr ⟨path, _, hleaf, hmem⟩

theorem Involves.readsTo {source : String} (h : document.Involves start source) :
    Template.ReadsTo (document.InvolvesExpr start) source :=
  fun t ht => Template.everywhere_iff.mpr fun _ he => ⟨source, t, h, ht, he⟩

namespace InvolvesExpr

variable {e : Expr} (h : document.InvolvesExpr start e)

include h

theorem ne_invalidExpr {err : EvalError} (herr : e.Raises err) (lexeme : String) :
    err ≠ .invalidExpr lexeme := by
  obtain ⟨source, t, -, ht, he⟩ := h
  have hvalid := Template.everywhere_iff.mp (Template.everywhere_valid_of_parse ht) e he
  rintro rfl
  cases herr
  cases hvalid

theorem not_raises (hcolon : ∀ source, document.Involves start source → Template.NoColon source)
    (err : EvalError) : ¬ e.Raises err := by
  intro herr
  obtain ⟨source, t, hsource, ht, he⟩ := h
  have htotal := Template.everywhere_not_mayRaise_of_parse ht (hcolon source hsource)
  simpa [herr.mayRaise] using Template.everywhere_iff.mp htotal e he

end InvolvesExpr

end Json

namespace Table

variable {locale : String} {document : Json} {table : Table} {issues : List TemplateIssue}
  (h : Table.ofJson locale document true = .ok (table, issues))

include h

/-- A translation from a document that is compiled strictly consists of what the sources of its leaf
are read as. -/
theorem exists_lastLeaf_everywhere {key : String} {t : Translation}
    (ht : table.find? key = some t) : ∃ leaf, document.LastLeaf key leaf ∧
      ∀ P, (∀ source ∈ leaf.sources, Template.ReadsTo P source) → t.Everywhere P := by
  obtain ⟨entries, rfl, hentries⟩ := Translation.Compiler.yields_table _ _ _ _ _ h
  obtain ⟨leaf, hlast, own, hown⟩ :=
    (Translation.Compiler.find?_of_entries_iff hentries).mp ht
  refine ⟨leaf, hlast, fun P hP => ?_⟩
  exact Translation.Compiler.yields_everywhere ⟨locale, true⟩ rfl key hP _ _ _ hown

theorem closed_involvesExpr (start : String → Prop) :
    table.Closed (document.InvolvesExpr start) := by
  rintro e key t ⟨source, template, hsource, hparse, he⟩ hasks ht
  obtain ⟨leaf, hlast, heverywhere⟩ := exists_lastLeaf_everywhere h ht
  apply heverywhere
  intro source' hmem
  exact (Json.Involves.asked hsource hparse he hasks hlast hmem).readsTo

end Table

/-- Evaluation of an accepted template never fails for a span that could not be read, and neither
does choosing from a translation that is compiled strictly, or evaluating what is chosen. If no
involved source has a colon inside of an expression, they fail for nothing but the limit. -/
theorem Scope.raises_of_accepted {locale : String} {document : Json} {issues : List TemplateIssue}
    (scope : Scope) (h : Table.ofJson locale document true = .ok (scope.table, issues)) :
    (∀ source t, Template.parse source = .ok t →
      (scope.eval t).Raises (∀ lexeme, · ≠ .invalidExpr lexeme) ∧
      ((∀ s, document.Involves (· = source) s → Template.NoColon s) →
        (scope.eval t).Raises (· = .tooDeep scope.limit))) ∧
    (∀ key t, scope.table.find? key = some t → ∃ leaf, document.LastLeaf key leaf ∧
      (scope.choose t).Raises (∀ lexeme, · ≠ .invalidExpr lexeme) ∧
      (scope.translate t).Raises (∀ lexeme, · ≠ .invalidExpr lexeme) ∧
      ((∀ s, document.Involves (· ∈ leaf.sources) s → Template.NoColon s) →
        (scope.choose t).Raises (· = .tooDeep scope.limit) ∧
        (scope.translate t).Raises (· = .tooDeep scope.limit))) := by
  -- The expressions that evaluation may come to are those in involved sources; the two parts differ
  -- in the sources to start with.
  have hvalid : ∀ start e, document.InvolvesExpr start e → ∀ err, e.Raises err →
      ∀ lexeme, err ≠ .invalidExpr lexeme := fun _ _ he _ herr => he.ne_invalidExpr herr
  have htotal : ∀ start, (∀ s, document.Involves start s → Template.NoColon s) →
      ∀ e, document.InvolvesExpr start e → ∀ err, e.Raises err → err = .tooDeep scope.limit :=
    fun _ hcolon _ he err herr => absurd herr (he.not_raises hcolon err)
  have hdepth : ∀ lexeme, EvalError.tooDeep scope.limit ≠ .invalidExpr lexeme := by simp
  constructor
  · intro source t ht
    have hclosed := Table.closed_involvesExpr h (· = source)
    have hstart : document.Involves (· = source) source := .start rfl
    have hinvolved : (Node.template t).Everywhere (document.InvolvesExpr (· = source)) :=
      hstart.readsTo t ht
    exact ⟨scope.raises_evalNode hclosed (hvalid _) hdepth hinvolved,
      fun hcolon => scope.raises_evalNode hclosed (htotal _ hcolon) rfl hinvolved⟩
  · intro key t ht
    obtain ⟨leaf, hlast, heverywhere⟩ := Table.exists_lastLeaf_everywhere h ht
    have hclosed := Table.closed_involvesExpr h (· ∈ leaf.sources)
    have hinvolved : t.Everywhere (document.InvolvesExpr (· ∈ leaf.sources)) :=
      heverywhere _ fun source hsource => (Json.Involves.start hsource).readsTo
    refine ⟨leaf, hlast, scope.raises_choose hclosed (hvalid _) hdepth hinvolved,
      scope.raises_translate hclosed (hvalid _) hdepth hinvolved, fun hcolon => ?_⟩
    exact ⟨scope.raises_choose hclosed (htotal _ hcolon) rfl hinvolved,
      scope.raises_translate hclosed (htotal _ hcolon) rfl hinvolved⟩

/-- A document with a condition, names that are not there, a division by zero and a key that is not
there. -/
def Json.market : Json :=
  .object [("bye", .array [.string "if:n > 1", .string "Bye: \x7bnames[9]\x7d\x7b1 / 0\x7d",
    .string "\x7bt('gone')\x7d"])]

/-- A template that asks for a translation and selects from an option that is not there. -/
def marketSource : String := "\x7bt('bye', n) + size\x7d: \x7bsize => (1 = ':')\x7d"

/-- What the template is read as. -/
def marketTemplate : Template :=
  [.expr (.binary .add (.call (.func .translate) [.literal .string "bye", .ident "n"])
      (.ident "size")),
    .text ": ", .expr (.select (.ident "size") [(.literal .int "1", .literal .string ":")])]

/-- Where the template is evaluated, with no variables. -/
def stall (table : Table) : Scope := ⟨.html, "en", ∅, table, 20⟩

theorem noColon_of_market {path : List String} {leaf : Json} (h : Json.market.HasLeaf path leaf) :
    ∀ s ∈ leaf.sources, Template.NoColon s := by
  have hall : ∀ l ∈ Json.market.leaves, ∀ s ∈ l.2.sources, Template.NoColon s := by decide
  exact hall _ (Json.mem_leaves_iff.mpr h)

theorem Scope.raises_of_accepted_of_market : ∃ table,
    Table.ofJson "en" Json.market true = .ok (table, []) ∧
    Template.parse marketSource = .ok marketTemplate ∧
    (∀ s, Json.market.Involves (· = marketSource) s → Template.NoColon s) ∧
    ((stall table).eval marketTemplate).Raises (· = .tooDeep 20) ∧
    (∃ v, (((stall table).eval marketTemplate).runAt 0).1 = .ok v) ∧
    ∃ t leaf, table.find? "bye" = some t ∧ Json.market.LastLeaf "bye" leaf ∧
      (∀ s, Json.market.Involves (· ∈ leaf.sources) s → Template.NoColon s) ∧
      ((stall table).choose t).Raises (· = .tooDeep 20) ∧
      ((stall table).translate t).Raises (· = .tooDeep 20) := by
  obtain ⟨table, htable, hvalue, t, ht⟩ : ∃ table,
      Table.ofJson "en" Json.market true = .ok (table, []) ∧
      (∃ v, (((stall table).eval marketTemplate).runAt 0).1 = .ok v) ∧
      ∃ t, table.find? "bye" = some t := ⟨_, rfl, ⟨_, rfl⟩, _, rfl⟩
  obtain ⟨htemplate, htranslation⟩ := Scope.raises_of_accepted (stall table) htable
  have hparse : Template.parse marketSource = .ok marketTemplate := rfl
  have hsource : ∀ s, Json.market.Involves (· = marketSource) s → Template.NoColon s := by
    intro s hs
    obtain rfl | ⟨path, leaf, hleaf, hmem⟩ := hs.start_or_mem
    · decide
    · exact noColon_of_market hleaf s hmem
  obtain ⟨leaf, hlast, -, -, hall⟩ := htranslation "bye" t ht
  have hleaf : ∀ s, Json.market.Involves (· ∈ leaf.sources) s → Template.NoColon s := by
    intro s hs
    obtain hmem | ⟨path, leaf, hleaf, hmem⟩ := hs.start_or_mem
    · obtain ⟨path, hleaf, -⟩ := hlast.hasLeaf
      exact noColon_of_market hleaf s hmem
    · exact noColon_of_market hleaf s hmem
  exact ⟨table, htable, hparse, hsource, (htemplate _ _ hparse).2 hsource, hvalue, t, leaf, ht,
    hlast, hleaf, hall hleaf⟩

end Phrasebook
