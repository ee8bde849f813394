import Mathlib
import Phrasebook.Catalog.Translate
import Phrasebook.Proofs.Evaluation.Congruence

/-!
# The raw texts inside of values

Raw text is not escaped when a value is rendered, so what the output looks like depends on the raw
texts that evaluation can produce. They come from three places only: from the variables, from the
markup functions of the format, and from nested translations, which are rendered values again.
Everything else computes with plain text.

A property of texts that holds of the first two and of every rendering is therefore one of all raw
texts in the results of evaluation (`Scope.yields_rawIn_evalNode`). Nested translations may ask for
each other in any way, also in a circle, since the proof goes by the levels that are left.
-/

namespace Phrasebook

namespace Value

/-- The raw texts at any depth of a value. -/
def raws : Value → List String
  | .raw s => [s]
  | .list items => rawsOf items
  | _ => []
where
  /-- The raw texts in the items of a list. -/
  rawsOf : List Value → List String
    | [] => []
    | v :: items => v.raws ++ rawsOf items

/-- All raw texts in a value, at any depth, have a property. -/
def RawIn (Q : String → Prop) (v : Value) : Prop := ∀ s ∈ v.raws, Q s

variable {Q : String → Prop}

theorem rawIn_of_raws_eq_nil {v : Value} (h : v.raws = []) : v.RawIn Q := by
  simp [RawIn, h]

@[simp] theorem rawIn_empty : empty.RawIn Q := rawIn_of_raws_eq_nil rfl

@[simp] theorem rawIn_text (s : String) : (text s).RawIn Q := rawIn_of_raws_eq_nil rfl

@[simp] theorem rawIn_raw {s : String} : (raw s).RawIn Q ↔ Q s := by
  simp [RawIn, raws]

@[simp] theorem rawIn_list {items : List Value} :
    (list items).RawIn Q ↔ ∀ v ∈ items, v.RawIn Q := by
  have h : ∀ items, (∀ s ∈ raws.rawsOf items, Q s) ↔ ∀ v ∈ items, v.RawIn Q := by
    intro items
    induction items with
    | nil => simp [raws.rawsOf]
    | cons v items ih =>
        simp only [raws.rawsOf, List.mem_append, or_imp, forall_and, List.mem_cons,
          forall_eq, ih]
        rfl
  exact h items

theorem RawIn.items {v : Value} (h : v.RawIn Q) : ∀ w ∈ v.items, w.RawIn Q := by
  have chars : ∀ s, ∀ w ∈ ofChars s, w.RawIn Q := by
    intro s w hw
    obtain ⟨c, -, rfl⟩ := List.mem_map.mp hw
    exact rawIn_text _
  cases v with
  | list items => exact rawIn_list.mp h
  | text s => exact chars s
  | raw s => exact chars s
  | _ => simp [Value.items, h]

end Value

/-- All raw texts in variables, at any depth, have a property. -/
def Vars.RawIn (Q : String → Prop) (vars : Vars) : Prop := ∀ e ∈ vars.entries, e.2.RawIn Q

namespace Dictionary

variable {α : Type}

theorem mem_of_find? {d : Dictionary α} {name : String} {v : α} (h : d.find? name = some v) :
    (name, v) ∈ d.entries :=
  mem_of_findIn h

theorem mem_entries_insertAll {entries : List (String × α)} {d : Dictionary α} {e : String × α}
    (h : e ∈ (d.insertAll entries).entries) : e ∈ d.entries ∨ e ∈ entries := by
  induction entries generalizing d with
  | nil => exact .inl h
  | cons first rest ih =>
      rcases ih (d := d.insert first.1 first.2) h with h | h
      · rcases mem_insertIn h with rfl | h
        · exact .inr (by simp)
        · exact .inl h
      · exact .inr (by simp [h])

theorem mem_entries_ofList {entries : List (String × α)} {e : String × α}
    (h : e ∈ (ofList entries).entries) : e ∈ entries := by
  rcases mem_entries_insertAll h with h | h
  · cases h
  · exact h

end Dictionary

namespace Vars

variable {Q : String → Prop}

theorem RawIn.find? {vars : Vars} (h : vars.RawIn Q) (name : String) :
    ((vars.find? name).getD .empty).RawIn Q := by
  cases hv : vars.find? name with
  | none => exact Value.rawIn_empty
  | some v => exact h _ (Dictionary.mem_of_find? hv)

/-- The fields of points and lengths of time are numbers and plain texts. -/
theorem raws_timeFields (v : Value) : ∀ e ∈ v.timeFields, e.2.raws = [] := by
  cases v <;> simp [Value.timeFields, Moment.fields, Duration.fields, Value.raws, Value.ofNat]

/-- The message of a nested translation carries the raw texts of its arguments on. -/
theorem rawIn_nested (key : Value) {value option : Value} (hv : value.RawIn Q)
    (ho : option.RawIn Q) : Vars.RawIn Q (Message.nested key value option).vars := by
  intro e he
  have h := Dictionary.mem_entries_ofList he
  rcases List.mem_cons.mp h with rfl | h
  · exact hv
  rcases List.mem_cons.mp h with rfl | h
  · exact ho
  exact Value.rawIn_of_raws_eq_nil (raws_timeFields value e h)

end Vars

/-- A format produces only raw texts with a property, and renders values whose raw texts have it
to texts that have it. -/
structure Format.Keeps (f : Format) (Q : String → Prop) : Prop where
  bold : ∀ v, (f.bold v).RawIn Q
  italic : ∀ v, (f.italic v).RawIn Q
  link : ∀ label href target, (f.link label href target).RawIn Q
  render : ∀ v : Value, v.RawIn Q → Q (f.render v)

theorem Format.rawIn_enclose {Q : String → Prop} (hempty : Q "") {opening text closing : String}
    (h : Q (opening ++ text ++ closing)) : (Format.enclose opening text closing).RawIn Q := by
  unfold Format.enclose
  split
  · exact Value.rawIn_raw.mpr hempty
  · exact Value.rawIn_raw.mpr h

/-- A property of escaped text that is kept by concatenation is one of renderings, item by item. -/
theorem Format.holds_render {Q : String → Prop} {f : Format} (hempty : Q "")
    (happend : ∀ {s t}, Q s → Q t → Q (s ++ t)) (hescape : ∀ s, Q (f.escape s)) {v : Value}
    (hv : v.RawIn Q) : Q (f.render v) := by
  have holds : ∀ {front : String}, Q front → ∀ {v : Value}, v.RawIn Q → Q (f.appendTo front v) := by
    intro front hfront v hv
    induction v generalizing front with
    | raw s => exact happend hfront (Value.rawIn_raw.mp hv)
    | list items ih =>
        have hitems := Value.rawIn_list.mp hv
        clear hv
        rw [Format.appendTo]
        induction items generalizing front with
        | nil => exact hfront
        | cons v items ihItems =>
            have first := ih v (by simp) hfront (hitems v (by simp))
            exact ihItems (fun w hw => ih w (by simp [hw])) first fun w hw =>
              hitems w (by simp [hw])
    | _ => exact happend hfront (hescape _)
  exact holds hempty hv

namespace Evaluation

variable {Q : String → Prop} {f : Format}

/-- Operators compute with plain text; even the sum of raw texts is plain. -/
theorem raws_unary (op : UnaryOp) (v : Value) : (unary op v).raws = [] := by
  cases op <;> cases v <;> rfl

theorem raws_binary (op : BinaryOp) (a b : Value) : (binary op a b).raws = [] := by
  have repeated : ∀ s n, (Value.repeatText s n).raws = [] := by
    intro s n
    simp only [Value.repeatText]
    split <;> rfl
  cases op with
  | add =>
      simp only [binary, Value.add]
      repeat' split
      all_goals rfl
  | sub =>
      simp only [binary, Value.sub]
      split <;> rfl
  | mul =>
      simp only [binary, Value.mul]
      repeat' split
      all_goals first | exact repeated _ _ | rfl
  | div =>
      simp only [binary, Value.div]
      repeat' split
      all_goals rfl
  | rem =>
      simp only [binary, Value.mod]
      split <;> rfl
  | _ => rfl

theorem raws_decided {op : BinaryOp} {a v : Value} (h : decided? op a = some v) : v.raws = [] := by
  cases op <;> simp only [decided?] at h <;> try contradiction
  all_goals
    split at h <;> cases h
    rfl

theorem raws_literal (kind : LiteralKind) (lexeme : String) : (literal kind lexeme).raws = [] := by
  cases kind <;> rfl

theorem rawIn_itemAt {base : Value} (h : base.RawIn Q) (position : Int64) :
    (itemAt base position).RawIn Q := by
  simp only [itemAt]
  generalize (if position.toInt < 0 then _ else _ : Int) = i
  split
  · exact Value.rawIn_empty
  rw [List.getD_eq_getElem?_getD]
  cases hv : base.items[i.toNat]? with
  | none => exact Value.rawIn_empty
  | some v => exact h.items v (List.mem_of_getElem? hv)

theorem rawIn_itemsBetween {items : List Value} (h : ∀ v ∈ items, v.RawIn Q) (start stop : Int) :
    (itemsBetween items start stop).RawIn Q := by
  simp only [itemsBetween]
  generalize (if stop < 0 then _ else _ : Int) = last
  split
  · exact Value.rawIn_list.mpr fun v hv => h v (List.mem_of_mem_take (List.mem_of_mem_drop hv))
  · exact Value.rawIn_empty

end Evaluation

/-- Whether a function computes with plain text, in the same way in every format. -/
def Builtin.isPlain : Builtin → Bool
  | .len | .join | .split | .padLeft | .padRight | .trimLeft | .trimRight | .integer | .fraction
  | .abs | .plural => true
  | .bold | .italic | .link | .translate => false

namespace Evaluation

variable {Q : String → Prop} {f : Format}

/-- Functions that compute with plain text have no raw results. -/
theorem rawIn_call?_of_isPlain {function : Builtin} (h : function.isPlain) (args : List Value) :
    ((f.call? function args).getD .empty).RawIn Q := by
  have hplain : ∀ v : Value, v.abs.raws = [] := by
    intro v
    cases v <;> rfl
  cases function with
  | split =>
      refine Value.rawIn_list.mpr fun v hv => ?_
      obtain ⟨s, -, rfl⟩ := List.mem_map.mp hv
      exact Value.rawIn_text s
  | abs => exact Value.rawIn_of_raws_eq_nil (hplain _)
  | bold | italic | link | translate => cases h
  | _ => exact Value.rawIn_of_raws_eq_nil rfl

/-- What the evaluators of parts have to ensure, for the step from the parts to the whole. -/
def Parts.KeepsRaw (parts : Parts) (f : Format) (Q : String → Prop) : Prop :=
  ∀ scope n, scope.format = f → Vars.RawIn Q scope.vars → (parts.node scope n).Yields (·.RawIn Q)

variable {parts : Parts} {scope : Scope}

theorem yields_slice {base : Expr} (hbase : (parts.expr scope base).Yields (·.RawIn Q))
    (start : Expr) (stop : Option Expr) :
    (slice parts scope base start stop).Yields (·.RawIn Q) := by
  refine hbase.bind fun v hv => ?_
  split
  · refine (Eval.Yields.trivial _).bind fun _ _ => (Eval.Yields.trivial _).bind fun first _ => ?_
    have finish : ∀ last, Eval.Yields (pure (itemsBetween v.items first last)) (·.RawIn Q) :=
      fun last => .pure (rawIn_itemsBetween hv.items first last)
    cases stop with
    | none => exact (Eval.Yields.trivial _).bind fun last _ => finish last
    | some stop =>
        exact (Eval.Yields.trivial _).bind fun _ _ =>
          (Eval.Yields.trivial _).bind fun last _ => finish last
  · exact .throw _

theorem yields_firstOption (v : Value) {options : List (Expr × Expr)}
    (hresults : ∀ o ∈ options, (parts.expr scope o.2).Yields (·.RawIn Q)) :
    (firstOption parts scope v options).Yields (·.RawIn Q) := by
  induction options with
  | nil => exact .pure Value.rawIn_empty
  | cons option options ih =>
      obtain ⟨hresult, hothers⟩ := List.forall_mem_cons.mp hresults
      rw [firstOption]
      split
      · exact hresult
      · refine (Eval.Yields.trivial _).bind fun _ _ => ?_
        split
        · exact hresult
        · exact ih hothers

theorem yields_call {function : Builtin} {args : List Expr}
    (happly : ∀ values, (∀ v ∈ values, v.RawIn Q) →
      (apply parts scope function values).Yields (·.RawIn Q))
    (hparts : ∀ a ∈ args, (parts.expr scope a).Yields (·.RawIn Q)) :
    (call parts scope function args).Yields (·.RawIn Q) := by
  rw [call_eq]
  exact (Eval.Yields.mapM hparts).bind happly

/-- The raw texts of an expression come from variables, from its parts, and from the functions that
it may call. -/
theorem yields_expr (hvars : Vars.RawIn Q scope.vars) {e : Expr}
    (happly : ∀ function, e.MayCall function → ∀ values, (∀ v ∈ values, v.RawIn Q) →
      (apply parts scope function values).Yields (·.RawIn Q))
    (hparts : ∀ p ∈ e.parts, (parts.expr scope p).Yields (·.RawIn Q)) :
    (expr parts scope e).Yields (·.RawIn Q) := by
  cases e with
  | ident name => exact .pure (hvars.find? name)
  | func function => exact .pure (Value.rawIn_text _)
  | literal kind lexeme => exact .pure (Value.rawIn_of_raws_eq_nil (raws_literal kind lexeme))
  | unary op operand =>
      exact (Eval.Yields.trivial _).bind fun v _ =>
        .pure (Value.rawIn_of_raws_eq_nil (raws_unary op v))
  | binary op lhs rhs =>
      refine (Eval.Yields.trivial _).bind fun a _ => ?_
      split
      · next v hv => exact .pure (Value.rawIn_of_raws_eq_nil (raws_decided hv))
      · exact (Eval.Yields.trivial _).bind fun b _ =>
          .pure (Value.rawIn_of_raws_eq_nil (raws_binary op a b))
  | range => exact .throw _
  | index base position =>
      refine (hparts base (by simp [Expr.parts])).bind fun v hv => ?_
      exact (Eval.Yields.trivial _).bind fun _ _ => .pure (rawIn_itemAt hv _)
  | slice base start stop => exact yields_slice (hparts base (by simp [Expr.parts])) start stop
  | select value options =>
      refine (Eval.Yields.trivial _).bind fun v _ => yields_firstOption v fun o ho => ?_
      exact hparts o.2 (List.mem_cons_of_mem _ (List.mem_flatMap.mpr ⟨o, ho, by simp⟩))
  | call callee args =>
      cases callee with
      | func function => exact yields_call (happly function rfl) hparts
      | _ =>
          obtain ⟨-, hargs⟩ := List.forall_mem_cons.mp hparts
          refine (Eval.Yields.trivial _).bind fun _ _ => ?_
          split
          · next function _ => exact yields_call (happly function trivial) hargs
          · exact .pure Value.rawIn_empty
  | invalid => exact .throw _

theorem yields_template {t : Template}
    (hparts : ∀ f ∈ t, (parts.node scope (.fragment f)).Yields (·.RawIn Q)) :
    (node parts scope (.template t)).Yields (·.RawIn Q) := by
  refine (Eval.Yields.mapM (Q := (·.RawIn Q)) fun f hf => ?_).bind fun vs hvs =>
    .pure (Value.rawIn_list.mpr hvs)
  unfold fragment
  split
  · exact .pure Value.rawIn_empty
  · exact hparts f hf

/-- A function that computes with plain text adds no raw texts. -/
theorem yields_apply_of_isPlain {function : Builtin} (h : function.isPlain) (values : List Value) :
    (apply parts scope function values).Yields (·.RawIn Q) := by
  cases function with
  | plural => exact .pure (Value.rawIn_text _)
  | translate => cases h
  | _ => exact .pure (rawIn_call?_of_isPlain h values)

section Step

variable (hf : f.Keeps Q) (hparts : parts.KeepsRaw f Q) (hformat : scope.format = f)

include hf hparts hformat

theorem yields_translation {key value option : Value} (hv : value.RawIn Q) (ho : option.RawIn Q) :
    (translation parts scope key value option).Yields (·.RawIn Q) := by
  simp only [translation]
  split
  · exact .pure Value.rawIn_empty
  refine Eval.Yields.isolated ((Eval.Yields.trivial _).bind fun chosen _ => ?_)
  cases chosen with
  | none => exact .pure Value.rawIn_empty
  | some template =>
      refine (hparts _ _ ?_ ?_).bind fun w hw => .pure ?_
      · exact hformat
      · exact Vars.rawIn_nested key hv ho
      · exact Value.rawIn_raw.mpr (hformat ▸ hf.render w hw)

/-- Besides the functions that compute with plain text, there are those for markup, and the one that
asks for another translation. -/
theorem yields_apply (function : Builtin) {values : List Value}
    (hvalues : ∀ v ∈ values, v.RawIn Q) :
    (apply parts scope function values).Yields (·.RawIn Q) := by
  have arg : ∀ i, (values.getD i .empty).RawIn Q := by
    intro i
    rw [List.getD_eq_getElem?_getD]
    cases hv : values[i]? with
    | none => exact Value.rawIn_empty
    | some v => exact hvalues v (List.mem_of_getElem? hv)
  cases function with
  | bold => exact .pure (hformat ▸ hf.bold _)
  | italic => exact .pure (hformat ▸ hf.italic _)
  | link => exact .pure (hformat ▸ hf.link _ _ _)
  | translate => exact yields_translation hf hparts hformat (arg 1) (arg 2)
  | _ => exact yields_apply_of_isPlain rfl values

theorem yields_node (hvars : Vars.RawIn Q scope.vars) (n : Node) :
    (node parts scope n).Yields (·.RawIn Q) := by
  cases n with
  | template t => exact yields_template fun f _ => hparts scope _ hformat hvars
  | fragment f =>
      cases f with
      | text content => exact .pure (Value.rawIn_text content)
      | expr e =>
          apply yields_expr hvars
          · intro function _ values hvalues
            exact yields_apply hf hparts hformat function hvalues
          · intro p _
            exact hparts scope _ hformat hvars

end Step

/-- Evaluation with any number of levels left keeps the property, also where translations ask for
each other. -/
theorem keepsRaw_within (hf : f.Keeps Q) (levels : Nat) :
    Parts.KeepsRaw ⟨nodeWithin levels, chooseWithin levels⟩ f Q := by
  induction levels with
  | zero =>
      intro scope n _ _
      exact .throw _
  | succ levels ih =>
      intro scope n hformat hvars
      exact (yields_node hf ih hformat hvars n).deeper scope.limit

end Evaluation

namespace Scope

variable {Q : String → Prop} (scope : Scope)

/-- If the raw texts of the variables have a property that the format keeps, so have those of every
value that a template, a fragment or an expression evaluates to. -/
theorem yields_rawIn_evalNode (hf : scope.format.Keeps Q) (hvars : Vars.RawIn Q scope.vars)
    (n : Node) : (scope.evalNode n).Yields (·.RawIn Q) := by
  intro depth v hv
  exact Evaluation.keepsRaw_within hf _ scope n rfl hvars depth v hv

theorem yields_rawIn_translate (hf : scope.format.Keeps Q) (hvars : Vars.RawIn Q scope.vars)
    (t : Translation) : (scope.translate t).Yields fun result => ∀ v ∈ result, v.RawIn Q := by
  refine (Eval.Yields.trivial _).bind fun chosen _ => ?_
  cases chosen with
  | none => exact .pure (by simp)
  | some template =>
      exact (yields_rawIn_evalNode scope hf hvars _).bind fun v hv => .pure (by simpa using hv)

end Scope

/-- What a catalog translates a message to is nothing, or the rendering of a value. -/
theorem Catalog.holds_translate {Q : String → Prop} {f : Format} (hf : f.Keeps Q) (hempty : Q "")
    {c : Catalog} {locale : String} {m : Message} (hvars : Vars.RawIn Q m.vars) {s : String}
    (h : c.translate f locale m = .ok s) : Q s := by
  rw [Catalog.translate] at h
  split at h
  · cases h
    exact hempty
  split at h
  · cases h
  split at h
  · cases h
  split at h
  · next v hv =>
      cases h
      have hraw := Scope.yields_rawIn_translate (c.scope f locale m.vars _) hf hvars _ 0 _ hv
      exact hf.render v (hraw v rfl)
  · cases h
  · cases h

end Phrasebook
