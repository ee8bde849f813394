import Mathlib
import Phrasebook.Proofs.Catalog.Nested

/-!
# The values of expressions

`scope.ComesTo depth e v` is total correctness of an expression: evaluation from that depth has the
value `v`. There is one rule for each construct, which takes the values of the parts, one level
deeper, to the value of the whole. What comes to a value does so from every smaller depth as well,
so the values of the parts may be known from any greater depth.
-/

namespace Phrasebook

open Evaluation

namespace Eval

variable {α β : Type}

/-- A sequence goes on with the result of a steady first part. -/
theorem Steady.outcome_bind_of_ok {act : Eval α} (h : act.Steady) {depth : Nat} {a : α}
    (ha : (act.runAt depth).1 = .ok a) (f : α → Eval β) :
    ((act >>= f).runAt depth).1 = ((f a).runAt depth).1 := by
  rw [h.outcome_bind, ha]
  rfl

/-- A list of steady computations has the list of their results. -/
theorem outcome_mapM {f : α → Eval β} (h : ∀ x, (f x).Steady) {depth : Nat} {xs : List α}
    {ys : List β} (hresults : List.Forall₂ (fun x y => ((f x).runAt depth).1 = .ok y) xs ys) :
    ((xs.mapM f).runAt depth).1 = .ok ys := by
  induction hresults with
  | nil => rfl
  | @cons x y xs ys hx _ ih =>
      have hsteady : (xs.mapM f).Steady := congruence_steady.mapM (g := f) fun x _ => h x
      rw [List.mapM_cons, (h x).outcome_bind_of_ok hx, hsteady.outcome_bind_of_ok ih]
      rfl

end Eval

namespace Scope

/-- From a depth, evaluation of an expression has a value. -/
def ComesTo (scope : Scope) (depth : Nat) (e : Expr) (v : Value) : Prop :=
  ((scope.evalExpr e).runAt depth).1 = .ok v

namespace ComesTo

variable {scope : Scope} {depth : Nat} {e : Expr} {v : Value}

theorem lt_limit (h : scope.ComesTo depth e v) : depth < scope.limit := by
  by_contra hdeep
  rw [ComesTo, evalExpr_eq, Eval.outcome_deeper, if_pos (Nat.le_of_not_lt hdeep)] at h
  cases h

/-- From a smaller depth, an expression has the same value. -/
theorem mono {shallow : Nat} (h : scope.ComesTo depth e v) (hle : shallow ≤ depth) :
    scope.ComesTo shallow e v := by
  obtain hdeep | hsame := scope.approximates_evalNode (.fragment (.expr e)) hle
  · cases h.symm.trans hdeep
  · exact hsame.symm.trans h

/-- An expression has the value of its step, which is one level deeper. -/
theorem step (hlt : depth < scope.limit)
    (h : ((expr evaluators scope e).runAt (depth + 1)).1 = .ok v) : scope.ComesTo depth e v := by
  rw [ComesTo, evalExpr_eq, Eval.outcome_deeper, if_neg (Nat.not_le.mpr hlt)]
  exact h

theorem literal (hlt : depth < scope.limit) (kind : LiteralKind) (lexeme : String) :
    scope.ComesTo depth (.literal kind lexeme) (literal kind lexeme) :=
  step hlt rfl

theorem ident (hlt : depth < scope.limit) {name : String} (h : scope.vars.find? name = some v) :
    scope.ComesTo depth (.ident name) v := by
  apply step hlt
  show Except.ok ((scope.vars.find? name).getD .empty) = _
  rw [h, Option.getD_some]

/-- Sequencing goes on with the value of a part. -/
theorem outcome_bind {α : Type} (h : scope.ComesTo depth e v) (f : Value → Eval α) :
    ((evaluators.expr scope e >>= f).runAt depth).1 = ((f v).runAt depth).1 :=
  (scope.steady_evalExpr e).outcome_bind_of_ok h f

theorem unary {operand : Expr} (h : scope.ComesTo (depth + 1) operand v) (op : UnaryOp) :
    scope.ComesTo depth (.unary op operand) (unary op v) := by
  apply step (Nat.lt_of_succ_lt h.lt_limit)
  rw [expr, h.outcome_bind]
  rfl

variable {base start stop position : Expr} {a b i : Int64}

theorem index (hbase : scope.ComesTo (depth + 1) base v)
    (hposition : scope.ComesTo (depth + 1) position (.int i)) :
    scope.ComesTo depth (.index base position) (itemAt v i) := by
  apply step (Nat.lt_of_succ_lt hbase.lt_limit)
  rw [expr, hbase.outcome_bind, hposition.outcome_bind]
  rfl

theorem slice (hbase : scope.ComesTo (depth + 1) base v) (hv : isSliceable v)
    (hstart : scope.ComesTo (depth + 1) start (.int a))
    (hstop : scope.ComesTo (depth + 1) stop (.int b)) :
    scope.ComesTo depth (.slice base start (some stop))
      (itemsBetween v.items a.toInt b.toInt) := by
  apply step (Nat.lt_of_succ_lt hbase.lt_limit)
  rw [expr, Evaluation.slice, hbase.outcome_bind, if_pos hv, hstart.outcome_bind]
  show ((evaluators.expr scope stop >>= _).runAt (depth + 1)).1 = _
  rw [hstop.outcome_bind]
  rfl

/-- A call has the value of the function for the values of the arguments. -/
theorem call {function : Builtin} {args : List Expr} {values : List Value}
    (hlt : depth < scope.limit) (hargs : List.Forall₂ (scope.ComesTo (depth + 1)) args values)
    (happly : ((apply evaluators scope function values).runAt (depth + 1)).1 = .ok v) :
    scope.ComesTo depth (.call (.func function) args) v := by
  have hvalues := Eval.outcome_mapM scope.steady_evalExpr hargs
  rw [ComesTo, (Calls.direct function).outcome_evalExpr hvalues, Eval.outcome_deeper,
    if_neg (Nat.not_le.mpr hlt)]
  exact happly

/-- The fragment that is an expression has the value of the expression. -/
theorem fragment (h : scope.ComesTo depth e v) :
    ((fragment evaluators scope (.expr e)).runAt depth).1 = .ok v := by
  cases e with
  | invalid start stop =>
      -- A fragment like this is empty, but as an expression it fails.
      have hlt := h.lt_limit
      rw [ComesTo, evalExpr_eq, Eval.outcome_deeper, if_neg (Nat.not_le.mpr hlt)] at h
      cases h
  | _ => exact h

end ComesTo

variable {scope : Scope} {depth : Nat}

theorem outcome_textFragment (hlt : depth < scope.limit) (content : String) :
    ((fragment evaluators scope (.text content)).runAt depth).1 = .ok (.text content) := by
  show ((scope.evalNode (.fragment (.text content))).runAt depth).1 = _
  rw [evalNode_eq, Eval.outcome_deeper, if_neg (Nat.not_le.mpr hlt)]
  rfl

/-- A template has the list of the values of its fragments. -/
theorem outcome_template (hlt : depth < scope.limit) {t : Template} {values : List Value}
    (h : List.Forall₂ (fun f v => ((fragment evaluators scope f).runAt (depth + 1)).1 = .ok v) t
      values) :
    ((scope.evalNode (.template t)).runAt depth).1 = .ok (.list values) := by
  rw [evalNode_eq, Eval.outcome_deeper, if_neg (Nat.not_le.mpr hlt)]
  exact (scope.steady_fragments t).outcome_bind_of_ok
    (Eval.outcome_mapM scope.steady_fragment h) _

/-- Asking for a translation that is a template gives the rendering of its value. -/
theorem outcome_translation {key value option v : Value} {t : Template}
    (hfind : scope.table.find? key.toText = some (.ofTemplate t))
    (hvalue : ((evalNode { scope with vars := (Message.nested key value option).vars }
      (.template t)).runAt depth).1 = .ok v) :
    ((translation evaluators scope key value option).runAt depth).1 =
      .ok (.raw (scope.format.render v)) := by
  let inner := { scope with vars := (Message.nested key value option).vars }
  have htranslate : ((inner.translate (.ofTemplate t)).runAt depth).1 = .ok (some v) := by
    rw [outcome_translate_of_unconditional rfl rfl]
    exact congrArg _ hvalue
  rw [translation_eq hfind]
  exact (inner.steady_translate _).outcome_bind_of_ok htranslate _

end Scope

end Phrasebook
