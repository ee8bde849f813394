import Mathlib
import Phrasebook.Proofs.Evaluation.Indifference
import Phrasebook.Proofs.Markup.Raw

/-!
# Formats differ in escaping only

Bold, italics, links and nested translations are the only functions whose values depend on the
output format, and the only ones whose values are raw. A template that calls none of them has the
same value in every format, and no raw text in it unless there is some in the variables.

The rendering of a value without raw text is its text, escaped. Values are rendered piece by piece,
which makes no difference, since escaping goes character by character.
-/

namespace Phrasebook

namespace Expr

/-- Whether an expression, if it is a call, calls by its name a function that computes with plain
text. -/
def callsPlainly : Expr → Bool
  | .call (.func function) _ => function.isPlain
  | .call _ _ => false
  | _ => true

theorem isPlain_of_mayCall {e : Expr} (h : e.callsPlainly) {function : Builtin}
    (hmay : e.MayCall function) : function.isPlain := by
  cases e with
  | call callee args =>
      cases callee with
      | func f =>
          obtain rfl : f = function := hmay
          exact h
      | _ => cases h
  | _ => cases hmay

end Expr

namespace Evaluation

variable {Q : String → Prop}

theorem apply_format {function : Builtin} (h : function.isPlain) (scope : Scope) (f f' : Format)
    (parts : Parts) (values : List Value) :
    apply parts { scope with format := f } function values =
      apply parts { scope with format := f' } function values := by
  cases function with
  | bold | italic | link | translate => cases h
  | _ => rfl

/-- Where only plain functions are called, all raw texts come from the variables. -/
theorem yields_rawIn_within (scope : Scope) (hvars : Vars.RawIn Q scope.vars) (levels : Nat)
    {n : Node} (h : n.Everywhere (·.callsPlainly)) :
    (nodeWithin levels scope n).Yields (·.RawIn Q) := by
  induction levels generalizing n with
  | zero => exact .throw _
  | succ levels ih =>
      refine Eval.Yields.deeper ?_ scope.limit
      cases n with
      | template t =>
          apply yields_template
          intro f hf
          exact ih (h.fragment hf)
      | fragment f =>
          cases f with
          | text content => exact .pure (Value.rawIn_text content)
          | expr e =>
              obtain ⟨hown, hbelow⟩ := h
              apply yields_expr hvars
              · intro function hmay values _
                exact yields_apply_of_isPlain (Expr.isPlain_of_mayCall hown hmay) values
              · intro p hp
                exact ih (hbelow p hp)

end Evaluation

namespace Format

variable (f : Format)

theorem escape_empty : f.escape "" = "" := by
  cases f <;> rfl

/-- Text may be escaped in pieces. -/
theorem escape_append (s t : String) : f.escape (s ++ t) = f.escape s ++ f.escape t := by
  cases f with
  | markdown => rfl
  | html => simp [escape, Markup.escapeHtml, Markup.escapeHtmlChars]
  | script => simp [escape, Markup.escapeScript, Markup.escapeScriptChars]

theorem appendTo_eq_escape {v : Value} (hv : v.raws = []) (front : String) :
    f.appendTo front v = front ++ f.escape v.toText := by
  induction v generalizing front with
  | raw s => cases hv
  | list items ih =>
      rw [appendTo]
      induction items generalizing front with
      | nil => rw [appendTo.appendItems, Value.toText_list_nil, escape_empty, String.append_empty]
      | cons v items ihItems =>
          obtain ⟨hfirst, hothers⟩ := List.append_eq_nil_iff.mp hv
          have hitems := ihItems (fun w hw => ih w (List.mem_cons_of_mem v hw)) hothers
            (front ++ f.escape v.toText)
          rw [appendTo.appendItems, ih v List.mem_cons_self hfirst, hitems,
            Value.toText_list_cons, escape_append, String.append_assoc]
  | _ => rfl

/-- Without raw text, rendering is escaping. -/
theorem render_eq_escape {v : Value} (hv : v.raws = []) : f.render v = f.escape v.toText := by
  rw [render, appendTo_eq_escape f hv, String.empty_append]

end Format

namespace Scope

/-- Where only plain functions are called, evaluation does not depend on the format. -/
theorem evalNode_format (scope : Scope) (f f' : Format) {n : Node}
    (h : n.Everywhere (·.callsPlainly)) :
    evalNode { scope with format := f } n = evalNode { scope with format := f' } n := by
  have hsame : n.Everywhere (·.SameStep { scope with format := f } { scope with format := f' }) := by
    refine h.mono (fun e he => ?_)
    constructor
    · rintro name -
      rfl
    · intro function hmay parts values
      exact Evaluation.apply_format (Expr.isPlain_of_mayCall he hmay) scope f f' parts values
  apply evalNode_congr _ hsame
  rfl

/-- Where only plain functions are called and no variable has raw text in it, evaluation takes the
same course in every format, to the same value or the same error. The HTML rendering of the value is
its Markdown rendering with HTML escapes, and the script rendering is that with script escapes. -/
theorem formats_differ_in_escaping (scope : Scope) {n : Node}
    (hcalls : n.Everywhere (·.callsPlainly)) (hvars : ∀ e ∈ scope.vars.entries, e.2.raws = [])
    (depth : Nat) :
    (∀ f, (evalNode { scope with format := f } n).runAt depth =
      (evalNode { scope with format := .markdown } n).runAt depth) ∧
    ∀ v, ((evalNode { scope with format := .markdown } n).runAt depth).1 = .ok v →
      Format.html.render v = Markup.escapeHtml (Format.markdown.render v) ∧
      Format.script.render v = Markup.escapeScript (Format.markdown.render v) := by
  constructor
  · intro f
    rw [scope.evalNode_format f .markdown hcalls]
  · intro v hv
    -- No text has the property `False`, so the raw texts that have it are none.
    have hnone : Vars.RawIn (fun _ => False) scope.vars := by
      intro e he
      exact Value.rawIn_of_raws_eq_nil (hvars e he)
    have hraw : v.RawIn fun _ => False :=
      Evaluation.yields_rawIn_within { scope with format := .markdown } hnone _ hcalls depth v hv
    have hraws : v.raws = [] := List.eq_nil_iff_forall_not_mem.mpr hraw
    have hmarkdown : Format.markdown.render v = v.toText := Format.markdown.render_eq_escape hraws
    rw [hmarkdown]
    constructor
    · exact Format.html.render_eq_escape hraws
    · exact Format.script.render_eq_escape hraws

/-- A template with text that every format writes in another way, some of it in a list. -/
def tagTemplate : Template :=
  [.text "<", .expr (.call (.func .split) [.ident "x", .literal .string " "]), .text "'>"]

/-- What it comes to if the variable in it has two words. -/
def tagValue : Value := .list [.text "<", .list [.text "a", .text "b"], .text "'>"]

theorem callsPlainly_tagTemplate : (Node.template tagTemplate).Everywhere (·.callsPlainly) := by
  intro e he
  obtain rfl : e = .call (.func .split) [.ident "x", .literal .string " "] := by
    simpa [tagTemplate] using he
  refine .intro rfl (List.forall_mem_cons.mpr ⟨.leaf rfl rfl, ?_⟩)
  exact List.forall_mem_singleton.mpr (.leaf rfl rfl)

/-- A scope with such a variable. -/
def tagScope : Scope := ⟨.markdown, "en", .ofList [("x", .text "a b")], ∅, 8⟩

theorem formats_differ_in_escaping_of_tag :
    ((evalNode { tagScope with format := .script } (.template tagTemplate)).runAt 0).1 =
      .ok tagValue ∧
    Format.html.render tagValue = "&lt;ab&#39;&gt;" ∧
    Format.script.render tagValue = "\\u003Cab\\'\\u003E" := by
  have hvars : ∀ e ∈ tagScope.vars.entries, e.2.raws = [] := by
    intro e he
    obtain rfl := List.mem_singleton.mp (Dictionary.mem_entries_ofList he)
    rfl
  have hvalue : ((tagScope.evalNode (.template tagTemplate)).runAt 0).1 = .ok tagValue := rfl
  obtain ⟨hsame, htext⟩ := formats_differ_in_escaping tagScope callsPlainly_tagTemplate hvars 0
  obtain ⟨hhtml, hscript⟩ := htext tagValue hvalue
  exact ⟨(congrArg Prod.fst (hsame .script)).trans hvalue, hhtml.trans rfl, hscript.trans rfl⟩

end Scope

end Phrasebook
