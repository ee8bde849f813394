import Mathlib
import Phrasebook.Proofs.Evaluation.Values
import Phrasebook.Proofs.Markup.Layers
import Phrasebook.Proofs.Translation.Keys

/-!
# Markup functions and translations around an expression

An expression may stand inside of calls of the markup functions, as the label of links, and as the
value for other translations, which may put markup around it in turn. However these are nested, the
whole comes to the value of the expression in as many layers, from the innermost call on. So its
text is escaped by the innermost of them, and again by each markup function around that.
-/

namespace Phrasebook

open Evaluation

/-- A nest of calls around an expression. A translation has texts in front of and behind the value
that it shows, which it may wrap itself. -/
inductive Wrapping where
  | bare
  | bold (inner : Wrapping)
  | italic (inner : Wrapping)
  | link (inner : Wrapping) (href target : String)
  | shown (inner : Wrapping) (key : String) (front : List String) (body : Wrapping)
      (back : List String)

namespace Wrapping

/-- The expression that has another one inside of the calls. -/
def expr : Wrapping → Expr → Expr
  | bare, e => e
  | bold inner, e => .call (.func .bold) [inner.expr e]
  | italic inner, e => .call (.func .italic) [inner.expr e]
  | link inner href target, e =>
    .call (.func .link) [inner.expr e, .literal .string href, .literal .string target]
  | shown inner key _ _ _, e => .call (.func .translate) [.literal .string key, inner.expr e]

/-- The template that shows its value between two texts. -/
def template (front : List String) (body : Wrapping) (back : List String) : Template :=
  front.map .text ++ .expr (body.expr (.ident "value")) :: back.map .text

/-- The translations that are asked for are those of the table. -/
def Listed (table : Table) : Wrapping → Prop
  | bare => True
  | bold inner | italic inner | link inner _ _ => inner.Listed table
  | shown inner key front body back =>
    inner.Listed table ∧ body.Listed table ∧
      table.find? key = some (.ofTemplate (template front body back))

/-- The levels between an expression and the whole. A translation is two levels above its value. -/
def height : Wrapping → Nat
  | bare => 0
  | bold inner | italic inner | link inner _ _ => inner.height + 1
  | shown inner _ _ body _ => max inner.height (body.height + 1) + 1

/-- The layers that the calls put around a value, from the innermost one on. -/
def layers : Wrapping → List Layer
  | bare => []
  | bold inner => inner.layers ++ [.bold]
  | italic inner => inner.layers ++ [.italic]
  | link inner href target => inner.layers ++ [.link href target]
  | shown inner _ front body back => inner.layers ++ body.layers ++ [.shown front back]

end Wrapping

/-- A message for another translation carries the value under its name. -/
theorem Message.find?_nested (key value option : Value) :
    (Message.nested key value option).vars.find? "value" = some value := by
  refine Dictionary.find?_ofList_iff.mpr ⟨[], ("opt", option) :: value.timeFields, rfl, ?_⟩
  rw [List.forall_mem_cons]
  refine ⟨show "opt" ≠ "value" by decide, ?_⟩
  cases value <;> simp [Value.timeFields, Moment.fields, Duration.fields]

namespace Wrapping

variable {scope : Scope} {depth : Nat} {e : Expr} {v : Value}

theorem outcome_texts (hlt : depth < scope.limit) (texts : List String) :
    List.Forall₂ (fun f v => ((fragment evaluators scope f).runAt depth).1 = .ok v)
      (texts.map .text) (texts.map .text) := by
  rw [List.forall₂_map_left_iff, List.forall₂_map_right_iff]
  exact List.forall₂_same.mpr fun content _ => Scope.outcome_textFragment hlt content

/-- The template of a translation has the list of its texts, with the value between them. -/
theorem outcome_template {body : Wrapping} (front back : List String)
    (hbody : scope.ComesTo (depth + 1) (body.expr (.ident "value")) v) :
    ((scope.evalNode (.template (template front body back))).runAt depth).1 =
      .ok (.list (front.map .text ++ v :: back.map .text)) := by
  have hlt := hbody.lt_limit
  apply Scope.outcome_template (Nat.lt_of_succ_lt hlt)
  exact List.rel_append (outcome_texts hlt front) (.cons hbody.fragment (outcome_texts hlt back))

/-- The levels below a call are one less. -/
theorem comesTo_below {levels : Nat} (he : scope.ComesTo (depth + (levels + 1)) e v) :
    scope.ComesTo (depth + 1 + levels) e v :=
  he.mono (by omega)

/-- The whole comes to the value of the expression in the layers. -/
theorem comesTo (w : Wrapping) (hlisted : w.Listed scope.table)
    (he : scope.ComesTo (depth + w.height) e v) :
    scope.ComesTo depth (w.expr e) (Layer.wrap scope.format w.layers v) := by
  -- A translation is evaluated in a scope with variables of its own, where the body stands around
  -- the name of the value.
  induction w generalizing scope depth e v with
  | bare => exact he
  | bold inner ih =>
      have hinner := ih hlisted (comesTo_below he)
      rw [layers, Layer.wrap_append]
      exact .call (Nat.lt_of_succ_lt hinner.lt_limit) (.cons hinner .nil) rfl
  | italic inner ih =>
      have hinner := ih hlisted (comesTo_below he)
      rw [layers, Layer.wrap_append]
      exact .call (Nat.lt_of_succ_lt hinner.lt_limit) (.cons hinner .nil) rfl
  | link inner href target ih =>
      have hinner := ih hlisted (comesTo_below he)
      have htext (s : String) : scope.ComesTo (depth + 1) (.literal .string s) (.text s) :=
        .literal hinner.lt_limit _ _
      rw [layers, Layer.wrap_append]
      exact .call (Nat.lt_of_succ_lt hinner.lt_limit)
        (.cons hinner (.cons (htext href) (.cons (htext target) .nil))) rfl
  | shown inner key front body back ihInner ihBody =>
      obtain ⟨hinnerListed, hbodyListed, hfind⟩ := hlisted
      have hlt : depth + (max inner.height (body.height + 1) + 1) < scope.limit := he.lt_limit
      let u := Layer.wrap scope.format inner.layers v
      let own := { scope with vars := (Message.nested (.text key) u .empty).vars }
      have hinner : scope.ComesTo (depth + 1) (inner.expr e) u :=
        ihInner hinnerListed ((comesTo_below he).mono (by omega))
      have hkey : scope.ComesTo (depth + 1) (.literal .string key) (.text key) :=
        .literal (by omega) _ _
      have hvalue : own.ComesTo (depth + 2 + body.height) (.ident "value") u := by
        apply Scope.ComesTo.ident
        · show _ < scope.limit
          omega
        · exact Message.find?_nested (.text key) u .empty
      have hbody : own.ComesTo (depth + 2) (body.expr (.ident "value")) _ :=
        ihBody hbodyListed hvalue
      rw [layers, Layer.wrap_append, Layer.wrap_append]
      apply Scope.ComesTo.call (by omega) (.cons hkey (.cons hinner .nil))
      exact Scope.outcome_translation hfind (outcome_template front back hbody)

end Wrapping

/-- Where the output is HTML or a script, raw text passes through a markup function untouched if and
only if the format rewrites no character of it. In a nest of markup functions and translations, the
innermost call escapes the text of a value, and each markup function around that escapes it once
more. So between fixed texts, plain text comes out escaped once and again for each of these, and raw
text comes out escaped once for each markup function. -/
theorem Format.escapes_in_each_markup (f : Format) (hf : f ≠ .markdown) :
    (∀ r, r ≠ "" → ∀ href target : Value,
      (f.bold (.raw r) = .raw ("<b>" ++ r ++ "</b>") ↔ ∀ c ∈ r.toList, ¬f.Rewrites c) ∧
      (f.italic (.raw r) = .raw ("<i>" ++ r ++ "</i>") ↔ ∀ c ∈ r.toList, ¬f.Rewrites c) ∧
      (f.link (.raw r) href target =
          .raw ((Layer.link href.toText target.toText).opening f ++ r ++ "</a>") ↔
        ∀ c ∈ r.toList, ¬f.Rewrites c)) ∧
    ∀ w : Wrapping, ∃ front back, ∀ (scope : Scope) (depth : Nat) (e : Expr) (v : Value),
      scope.format = f → w.Listed scope.table → v.toText ≠ "" →
      scope.ComesTo (depth + w.height) e v →
      ∃ u, scope.ComesTo depth (w.expr e) u ∧
        f.render u =
          front ++ f.escape^[Layer.marks w.layers.tail] (Layer.innermost f w.layers v) ++ back ∧
        (v.raws = [] →
          f.render u = front ++ f.escape^[1 + Layer.marks w.layers.tail] v.toText ++ back) ∧
        ∀ r, v = .raw r → f.render u = front ++ f.escape^[Layer.marks w.layers] r ++ back := by
  constructor
  · intro r hr href target
    have hlink : f.link (.raw r) href target =
        (Layer.link href.toText target.toText).value f (.raw r) := by
      cases f <;> rfl
    rw [hlink]
    exact ⟨Layer.value_raw_iff hf (l := .bold) rfl hr, Layer.value_raw_iff hf (l := .italic) rfl hr,
      Layer.value_raw_iff hf (l := .link _ _) rfl hr⟩
  · intro w
    obtain ⟨front, back, hrender⟩ := Layer.render_wrap hf w.layers
    refine ⟨front, back, ?_⟩
    rintro scope depth e v rfl hlisted hv he
    refine ⟨_, w.comesTo hlisted he, hrender v hv, ?_, ?_⟩
    · intro hplain
      rw [hrender v hv, Layer.innermost_of_raws_eq_nil _ _ hplain, Nat.add_comm,
        Function.iterate_succ_apply]
    · rintro r rfl
      rw [hrender _ hv, Layer.iterate_innermost_raw]

/-- Italics around a translation that puts its value in bold. -/
def loudly : Wrapping := .italic (.shown .bare "shout" [] (.bold .bare) ["!"])

/-- A scope with this translation, and a variable whose text is written in another way. -/
def loudScope : Scope :=
  ⟨.html, "en", .ofList [("x", .text "&")],
    .ofList [("shout", .ofTemplate (Wrapping.template [] (.bold .bare) ["!"]))], 8⟩

/-- Two markup functions escape an ampersand twice, and one escapes a raw text once. -/
theorem Format.escapes_in_each_markup_of_loudly :
    Format.html ≠ .markdown ∧ "<i>r</i>" ≠ "" ∧
      Format.html.bold (.raw "<i>r</i>") ≠ .raw ("<b>" ++ "<i>r</i>" ++ "</b>") ∧
      loudly.Listed loudScope.table ∧ (Value.text "&").toText ≠ "" ∧
      loudScope.ComesTo (0 + loudly.height) (.ident "x") (.text "&") ∧
      ∃ front back u, loudScope.ComesTo 0 (loudly.expr (.ident "x")) u ∧
        Format.html.render u = front ++ "&amp;amp;" ++ back := by
  obtain ⟨hpasses, hnested⟩ := escapes_in_each_markup .html (by decide)
  have hlisted : loudly.Listed loudScope.table := ⟨trivial, trivial, rfl⟩
  have hx : loudScope.ComesTo (0 + loudly.height) (.ident "x") (.text "&") := rfl
  obtain ⟨front, back, hloudly⟩ := hnested loudly
  obtain ⟨u, hu, -, hplain, -⟩ :=
    hloudly loudScope 0 (.ident "x") (.text "&") rfl hlisted (by decide) hx
  refine ⟨by decide, by decide, ?_, hlisted, by decide, hx, front, back, u, hu, hplain rfl⟩
  intro hbold
  exact (hpasses "<i>r</i>" (by decide) .empty .empty).1.mp hbold '<' (by decide) (by decide)

end Phrasebook
