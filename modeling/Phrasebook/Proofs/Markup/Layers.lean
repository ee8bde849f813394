import Mathlib
import Phrasebook.Proofs.Markup.Escaping

/-!
# Layers of markup

A value may be wrapped in layers, of markup or of text around it. A layer of markup escapes the text
of what it encloses, whether that is plain or raw, and a layer of text renders what it encloses. So
raw text is left as it is by the layers of text, and escaped once by each layer of markup. Only text
without a character that the format rewrites passes through markup untouched.
-/

namespace Phrasebook

namespace Format

/-- The characters that a format writes in another way. -/
def Rewrites : Format → Char → Prop
  | markdown, _ => False
  | html, c => c ∈ ['&', '\'', '<', '>', '"', '\x00']
  | script, c => c ∈ ['\\', '\'', '"'] ∨ Markup.isScriptSpecial c

instance : (f : Format) → (c : Char) → Decidable (f.Rewrites c)
  | markdown, _ => inferInstanceAs (Decidable False)
  | html, _ => inferInstanceAs (Decidable (_ ∈ _))
  | script, _ => inferInstanceAs (Decidable (_ ∨ _))

/-- How a format writes a character. -/
def escapeChar : Format → Char → List Char
  | markdown, c => [c]
  | html, c => Markup.escapeHtmlChar c
  | script, c => Markup.escapeScriptChar c

theorem toList_escape (f : Format) (s : String) :
    (f.escape s).toList = s.toList.flatMap f.escapeChar := by
  cases f with
  | markdown => exact (List.flatMap_singleton' _).symm
  | html => exact String.toList_ofList
  | script => exact String.toList_ofList

theorem escapeChar_ne_nil (f : Format) (c : Char) : f.escapeChar c ≠ [] := by
  cases f with
  | markdown => exact List.cons_ne_nil _ _
  | html =>
      show Markup.escapeHtmlChar c ≠ []
      unfold Markup.escapeHtmlChar
      split <;> exact List.cons_ne_nil _ _
  | script =>
      show Markup.escapeScriptChar c ≠ []
      unfold Markup.escapeScriptChar
      split_ifs <;> exact List.cons_ne_nil _ _

theorem escapeChar_eq_singleton_iff (f : Format) (c : Char) :
    f.escapeChar c = [c] ↔ ¬f.Rewrites c := by
  cases f with
  | markdown => simp [escapeChar, Rewrites]
  | html =>
      show Markup.escapeHtmlChar c = [c] ↔ c ∉ ['&', '\'', '<', '>', '"', '\x00']
      unfold Markup.escapeHtmlChar
      split <;> simp_all
  | script =>
      show Markup.escapeScriptChar c = [c] ↔ ¬(c ∈ ['\\', '\'', '"'] ∨ Markup.isScriptSpecial c)
      unfold Markup.escapeScriptChar Markup.unicodeEscape
      split_ifs <;> simp_all

/-- If no element is dropped, a list is left as it is only if all of its elements are. -/
theorem flatMap_eq_self_iff {α : Type} {g : α → List α} (hg : ∀ x, g x ≠ []) (xs : List α) :
    xs.flatMap g = xs ↔ ∀ x ∈ xs, g x = [x] := by
  have hlength (ys : List α) : ys.length ≤ (ys.flatMap g).length := by
    induction ys with
    | nil => exact Nat.le_refl 0
    | cons y ys ih =>
        have hy := List.length_pos_of_ne_nil (hg y)
        rw [List.flatMap_cons, List.length_append, List.length_cons]
        omega
  induction xs with
  | nil => simp
  | cons x xs ih =>
      rw [List.flatMap_cons, List.forall_mem_cons]
      constructor
      · intro h
        have hx := List.length_pos_of_ne_nil (hg x)
        have hxs := hlength xs
        have htotal := congrArg List.length h
        rw [List.length_append, List.length_cons] at htotal
        have hone : (g x).length = [x].length := by
          rw [List.length_singleton]
          omega
        rw [← List.singleton_append] at h
        obtain ⟨hfirst, hothers⟩ := List.append_inj h hone
        exact ⟨hfirst, ih.mp hothers⟩
      · rintro ⟨hx, hxs⟩
        rw [hx, ih.mpr hxs, List.singleton_append]

variable (f : Format)

theorem escape_eq_self_iff (s : String) : f.escape s = s ↔ ∀ c ∈ s.toList, ¬f.Rewrites c := by
  rw [← String.toList_inj, toList_escape, flatMap_eq_self_iff f.escapeChar_ne_nil]
  simp only [escapeChar_eq_singleton_iff]

theorem escape_eq_empty_iff (s : String) : f.escape s = "" ↔ s = "" := by
  rw [← String.toList_eq_nil_iff, toList_escape, List.flatMap_eq_nil_iff,
    ← String.toList_eq_nil_iff, List.eq_nil_iff_forall_not_mem]
  simp only [f.escapeChar_ne_nil, imp_false]

/-- Text may be escaped in pieces, any number of times. -/
theorem iterate_escape_append (n : Nat) (s t : String) :
    f.escape^[n] (s ++ t) = f.escape^[n] s ++ f.escape^[n] t := by
  induction n generalizing s t with
  | zero => rfl
  | succ n ih =>
      simp only [Function.iterate_succ_apply]
      rw [escape_append, ih]

theorem appendTo_eq (front : String) (v : Value) : f.appendTo front v = front ++ f.render v := by
  induction v generalizing front with
  | list items ih =>
      rw [render, appendTo, appendTo]
      suffices h : ∀ front, appendTo.appendItems f front items =
          front ++ appendTo.appendItems f "" items from h front
      clear front
      induction items with
      | nil => simp [appendTo.appendItems]
      | cons v items ihItems =>
          have hitems := ihItems fun w hw => ih w (List.mem_cons_of_mem v hw)
          intro front
          rw [appendTo.appendItems, appendTo.appendItems, hitems, hitems (f.appendTo "" v),
            ih v List.mem_cons_self, ih v List.mem_cons_self "", String.empty_append,
            String.append_assoc]
  | _ => simp [render, appendTo]

@[simp] theorem render_raw (s : String) : f.render (.raw s) = s := String.empty_append

@[simp] theorem render_list_nil : f.render (.list []) = "" := rfl

@[simp] theorem render_list_cons (v : Value) (items : List Value) :
    f.render (.list (v :: items)) = f.render v ++ f.render (.list items) :=
  f.appendTo_eq (f.render v) (.list items)

theorem render_list_append (xs ys : List Value) :
    f.render (.list (xs ++ ys)) = f.render (.list xs) ++ f.render (.list ys) := by
  induction xs with
  | nil => simp
  | cons x xs ih => simp [ih, String.append_assoc]

/-- Only a value without text is rendered as nothing. -/
theorem render_eq_empty_iff (v : Value) : f.render v = "" ↔ v.toText = "" := by
  induction v with
  | raw s => simp
  | list items ih =>
      induction items with
      | nil => simp
      | cons v items ihItems =>
          have hfirst := ih v List.mem_cons_self
          have hothers := ihItems fun w hw => ih w (List.mem_cons_of_mem v hw)
          rw [render_list_cons, Value.toText_list_cons, String.append_eq_empty_iff,
            String.append_eq_empty_iff, hfirst, hothers]
  | _ => rw [render_eq_escape f rfl, escape_eq_empty_iff]

end Format

/-- What may be put around a value: markup, or the texts of a translation that shows it. -/
inductive Layer where
  | bold
  | italic
  | link (href target : String)
  | shown (front back : List String)

namespace Layer

/-- Whether a layer is one of markup. -/
def isMarkup : Layer → Bool
  | shown _ _ => false
  | _ => true

/-- A value in a layer. -/
def value (f : Format) : Layer → Value → Value
  | bold, v => f.bold v
  | italic, v => f.italic v
  | link href target, v => f.link v (.text href) (.text target)
  | shown front back, v => .raw (f.render (.list (front.map .text ++ v :: back.map .text)))

/-- What a layer puts in front of a value. -/
def opening (f : Format) : Layer → String
  | bold => "<b>"
  | italic => "<i>"
  | link href target => "<a href=\"" ++ f.escape href ++ "\"" ++ f.targetAttribute target ++ ">"
  | shown front _ => f.render (.list (front.map .text))

/-- What a layer puts behind a value. -/
def closing (f : Format) : Layer → String
  | bold => "</b>"
  | italic => "</i>"
  | link _ _ => "</a>"
  | shown _ back => f.render (.list (back.map .text))

/-- What a layer makes of the value itself. -/
def inside (f : Format) (l : Layer) (v : Value) : String :=
  if l.isMarkup then f.escape v.toText else f.render v

/-- Where there is text inside of a layer, there still is. -/
theorem inside_ne_empty (f : Format) (l : Layer) {v : Value} (hv : v.toText ≠ "") :
    l.inside f v ≠ "" := by
  unfold inside
  split
  · exact mt (f.escape_eq_empty_iff _).mp hv
  · exact mt (f.render_eq_empty_iff v).mp hv

variable {f : Format} (hf : f ≠ .markdown)

include hf

theorem value_eq (l : Layer) {v : Value} (hv : v.toText ≠ "") :
    l.value f v = .raw (l.opening f ++ l.inside f v ++ l.closing f) := by
  have henclose (opening closing : String) : Format.enclose opening (f.escape v.toText) closing =
      .raw (opening ++ f.escape v.toText ++ closing) :=
    if_neg (mt (f.escape_eq_empty_iff _).mp hv)
  cases l with
  | bold =>
      cases f with
      | markdown => exact absurd rfl hf
      | _ => exact henclose _ _
  | italic =>
      cases f with
      | markdown => exact absurd rfl hf
      | _ => exact henclose _ _
  | link href target =>
      cases f with
      | markdown => exact absurd rfl hf
      | _ => rfl
  | shown front back =>
      simp only [value, opening, inside, closing, isMarkup, Format.render_list_append,
        Format.render_list_cons, Bool.false_eq_true, if_false, String.append_assoc]

/-- Raw text passes through markup untouched only if the format rewrites no character of it. -/
theorem value_raw_iff {l : Layer} (hl : l.isMarkup) {r : String} (hr : r ≠ "") :
    l.value f (.raw r) = .raw (l.opening f ++ r ++ l.closing f) ↔
      ∀ c ∈ r.toList, ¬f.Rewrites c := by
  rw [value_eq hf l (v := .raw r) hr, inside, if_pos hl, ← f.escape_eq_self_iff, Value.raw.injEq]
  simp only [String.append_left_inj, String.append_right_inj, Value.toText_raw]

end Layer

namespace Layer

/-- A value in layers, from the innermost one on. -/
def wrap (f : Format) (layers : List Layer) (v : Value) : Value :=
  layers.foldl (fun v l => l.value f v) v

theorem wrap_append (f : Format) (layers others : List Layer) (v : Value) :
    wrap f (layers ++ others) v = wrap f others (wrap f layers v) :=
  List.foldl_append

/-- The number of layers of markup. -/
def marks (layers : List Layer) : Nat := layers.countP (·.isMarkup)

/-- What the innermost layer makes of a value; without layers, its rendering. -/
def innermost (f : Format) : List Layer → Value → String
  | [], v => f.render v
  | l :: _, v => l.inside f v

/-- Plain text is escaped by the innermost layer, whatever that is. -/
theorem innermost_of_raws_eq_nil (f : Format) (layers : List Layer) {v : Value}
    (hv : v.raws = []) : innermost f layers v = f.escape v.toText := by
  cases layers with
  | nil => exact f.render_eq_escape hv
  | cons l layers => rw [innermost, inside, f.render_eq_escape hv, ite_self]

/-- Raw text is escaped by a layer of markup only. -/
theorem iterate_inside_raw (f : Format) (l : Layer) (layers : List Layer) (r : String) :
    f.escape^[marks layers] (l.inside f (.raw r)) = f.escape^[marks (l :: layers)] r := by
  rw [inside, marks, marks, List.countP_cons]
  split
  · rw [Value.toText_raw, ← Function.iterate_succ_apply]
  · rw [f.render_raw, Nat.add_zero]

theorem iterate_innermost_raw (f : Format) (layers : List Layer) (r : String) :
    f.escape^[marks layers.tail] (innermost f layers (.raw r)) = f.escape^[marks layers] r := by
  cases layers with
  | nil => exact f.render_raw r
  | cons l layers => exact iterate_inside_raw f l layers r

variable {f : Format} (hf : f ≠ .markdown)

include hf

/-- The layers around the innermost one are layers around raw text. -/
theorem wrap_cons (l : Layer) {layers : List Layer}
    (hlayers : ∃ front back, ∀ r, r ≠ "" →
      wrap f layers (.raw r) = .raw (front ++ f.escape^[marks layers] r ++ back)) :
    ∃ front back, ∀ v : Value, v.toText ≠ "" →
      wrap f (l :: layers) v =
        .raw (front ++ f.escape^[marks layers] (l.inside f v) ++ back) := by
  obtain ⟨front, back, hlayers⟩ := hlayers
  refine ⟨front ++ f.escape^[marks layers] (l.opening f),
    f.escape^[marks layers] (l.closing f) ++ back, ?_⟩
  intro v hv
  have hne : l.opening f ++ l.inside f v ++ l.closing f ≠ "" := by
    simp only [ne_eq, String.append_eq_empty_iff, not_and]
    rintro ⟨-, hinside⟩
    exact absurd hinside (l.inside_ne_empty f hv)
  show wrap f layers (l.value f v) = _
  rw [value_eq hf l hv, hlayers _ hne, f.iterate_escape_append, f.iterate_escape_append]
  simp only [String.append_assoc]

/-- Raw text is escaped once by each layer of markup. -/
theorem wrap_raw (layers : List Layer) : ∃ front back, ∀ r, r ≠ "" →
    wrap f layers (.raw r) = .raw (front ++ f.escape^[marks layers] r ++ back) := by
  induction layers with
  | nil => exact ⟨"", "", fun r _ => by simp [wrap, marks]⟩
  | cons l layers ih =>
      obtain ⟨front, back, hwrap⟩ := wrap_cons hf l ih
      refine ⟨front, back, fun r hr => ?_⟩
      rw [hwrap (.raw r) hr, iterate_inside_raw]

/-- A value is escaped or rendered by the innermost layer, and escaped again by each layer of markup
around that. -/
theorem render_wrap (layers : List Layer) : ∃ front back, ∀ v : Value, v.toText ≠ "" →
    f.render (wrap f layers v) =
      front ++ f.escape^[marks layers.tail] (innermost f layers v) ++ back := by
  cases layers with
  | nil => exact ⟨"", "", fun v _ => by simp [wrap, marks, innermost]⟩
  | cons l layers =>
      obtain ⟨front, back, hwrap⟩ := wrap_cons hf l (wrap_raw hf layers)
      refine ⟨front, back, fun v hv => ?_⟩
      rw [hwrap v hv, f.render_raw]
      rfl

end Layer

end Phrasebook
