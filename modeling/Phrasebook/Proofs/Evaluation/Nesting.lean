import Mathlib
import Phrasebook.Proofs.Evaluation.Congruence
import Phrasebook.Proofs.Template.Completeness
import Phrasebook.Proofs.Template.Soundness

/-!
# When evaluation is nested too deeply

Evaluation fails for its depth exactly if it would visit more levels than the limit allows. Reading
a template bounds its nesting too, but not by the same measure: the room for the extensions of an
operand does not depend on the depth of the operand itself. So a template that is accepted may have
more levels than the bound on nesting says, and then evaluation with the same bound fails.
-/

namespace Phrasebook

namespace Eval

variable {α β : Type}

/-- With a number of levels left below the limit, a computation has the outcome of a survey, unless
the survey visits more levels than are left; then it fails for its depth. The survey visits no more
levels than a given number. -/
def Follows (limit levels bound : Nat) (act survey : Eval α) : Prop :=
  ∃ outcome visited, survey.Surveys outcome visited ∧ visited ≤ bound ∧
    (∀ n, outcome ≠ .error (.tooDeep n)) ∧
    act.runAt (limit - levels) =
      (if visited ≤ levels then outcome else .error (.tooDeep limit), limit - levels)

namespace Follows

variable {limit levels bound : Nat} {act survey : Eval α} {f g : α → Eval β}

theorem pure (a : α) : Follows limit levels bound (pure a) (pure a) :=
  ⟨.ok a, 0, .pure a, Nat.zero_le _, by simp, by rw [runAt_pure, if_pos (Nat.zero_le _)]⟩

theorem throw {e : EvalError} (h : ∀ n, e ≠ .tooDeep n) :
    Follows limit levels bound (throw e : Eval α) (throw e) :=
  ⟨.error e, 0, .throw e, Nat.zero_le _, by simpa using h,
    by rw [runAt_throw, if_pos (Nat.zero_le _)]⟩

theorem mono {bound' : Nat} (h : Follows limit levels bound act survey) (hle : bound ≤ bound') :
    Follows limit levels bound' act survey := by
  obtain ⟨outcome, visited, hsurvey, hbound, hrest⟩ := h
  exact ⟨outcome, visited, hsurvey, Nat.le_trans hbound hle, hrest⟩

theorem bind (h : Follows limit levels bound act survey)
    (hf : ∀ a, Follows limit levels bound (f a) (g a)) :
    Follows limit levels bound (act >>= f) (survey >>= g) := by
  obtain ⟨outcome, visited, hsurvey, hbound, hdeep, hrun⟩ := h
  cases outcome with
  | error e =>
      refine ⟨.error e, visited, hsurvey.bind_error, hbound, by simpa using hdeep, ?_⟩
      by_cases hvisited : visited ≤ levels
      · rw [runAt_bind, hrun, if_pos hvisited, if_pos hvisited]
      · rw [runAt_bind, hrun, if_neg hvisited, if_neg hvisited]
  | ok a =>
      obtain ⟨outcome', visited', hsurvey', hbound', hdeep', hrun'⟩ := hf a
      refine ⟨outcome', max visited visited', hsurvey.bind hsurvey', by omega, hdeep', ?_⟩
      -- If the first part exceeds the limit, the second one is not run.
      by_cases hvisited : visited ≤ levels
      · rw [runAt_bind, hrun, if_pos hvisited]
        simp only [hrun', Nat.max_le, hvisited, true_and]
      · rw [runAt_bind, hrun, if_neg hvisited, if_neg (by omega)]

theorem congruence (limit levels bound : Nat) :
    Congruence fun _ x y => Follows limit levels bound x y where
  pure := .pure
  throw := .throw
  bind := .bind

/-- Going one level deeper takes up one of the levels that are left. -/
theorem deeper (h : Follows limit levels bound act survey) (hlevels : levels < limit) :
    Follows limit (levels + 1) (bound + 1) (deeper limit act) (counted survey) := by
  obtain ⟨outcome, visited, hsurvey, hbound, hdeep, hrun⟩ := h
  refine ⟨outcome, visited + 1, hsurvey.counted, Nat.succ_le_succ hbound, hdeep, ?_⟩
  have hdepth : limit - (levels + 1) + 1 = limit - levels := by omega
  rw [runAt_deeper, if_neg (by omega), hdepth, hrun, ← hdepth]
  simp only [Nat.add_le_add_iff_right, Nat.add_sub_cancel]

/-- No level is left for what a survey of one more level visits. -/
theorem exhausted (h : Follows limit levels bound act survey) :
    Follows limit 0 (bound + 1) (MonadExcept.throw (.tooDeep limit)) (counted survey) := by
  obtain ⟨outcome, visited, hsurvey, hbound, hdeep, -⟩ := h
  exact ⟨outcome, visited + 1, hsurvey.counted, Nat.succ_le_succ hbound, hdeep,
    by rw [runAt_throw, if_neg (Nat.not_succ_le_zero _)]⟩

end Follows

end Eval

namespace Evaluation

/-- What follows a survey at each level of a node follows it at all of them. -/
theorem follows_nodeWithin {n : Node} {bound room levels : Nat} {scope : Scope}
    (hlevels : levels ≤ scope.limit)
    (hstep : ∀ levels ≤ scope.limit, Eval.Follows scope.limit levels bound
      (node ⟨nodeWithin levels, chooseWithin levels⟩ scope n) (node (surveys room) scope n)) :
    Eval.Follows scope.limit levels (bound + 1) (nodeWithin levels scope n)
      (surveyWithin (room + 1) scope n) := by
  cases levels with
  | zero => exact (hstep 0 (Nat.zero_le _)).exhausted
  | succ levels => exact (hstep levels (Nat.le_of_succ_le hlevels)).deeper hlevels

/-- Evaluation of an expression with some levels left below the limit follows a survey with room
for all levels of the expression. -/
theorem follows_expr_nodeWithin {e : Expr} (hcalls : e.Everywhere (·.callsDirectly)) {room : Nat}
    (hroom : e.levels ≤ room) {levels : Nat} {scope : Scope} (hlevels : levels ≤ scope.limit) :
    Eval.Follows scope.limit levels e.levels (nodeWithin levels scope (.fragment (.expr e)))
      (surveyWithin room scope (.fragment (.expr e))) := by
  induction room generalizing e levels with
  | zero =>
      rw [Expr.levels_eq] at hroom
      cases hroom
  | succ room ih =>
      obtain ⟨hcall, hbelow⟩ := hcalls
      rw [Expr.levels_eq e]
      refine follows_nodeWithin hlevels fun levels hle => ?_
      have congruence :=
        Eval.Follows.congruence scope.limit levels (greatest (e.parts.map Expr.levels))
      apply related_expr congruence
      · rintro name -
        rfl
      · intro function hmay
        exact related_apply congruence rfl rfl fun hasks =>
          absurd hasks (Expr.ne_translate_of_mayCall hcall hmay)
      · intro p hp
        have hp' := Expr.levels_le_of_mem_parts hp
        exact (ih (hbelow p hp) (by omega) hle).mono (le_greatest (List.mem_map_of_mem hp))

theorem follows_template {t : Template} (hcalls : t.Everywhere (·.callsDirectly)) {levels : Nat}
    {scope : Scope} (hlevels : levels ≤ scope.limit) :
    Eval.Follows scope.limit levels t.levels (nodeWithin levels scope (.template t))
      (surveyWithin t.levels scope (.template t)) := by
  refine follows_nodeWithin hlevels fun levels hle => ?_
  refine ((Eval.Follows.congruence _ _ _).mapM fun f hf => ?_).bind fun _ => .pure _
  have hbound := le_greatest (List.mem_map_of_mem (f := Fragment.levels) hf)
  unfold fragment
  split
  · exact .pure _
  · cases f with
    | text content =>
        obtain ⟨room, hroom⟩ := Nat.exists_eq_add_of_le' hbound
        have htext : Eval.Follows scope.limit levels 1
            (nodeWithin levels scope (.fragment (.text content)))
            (surveyWithin (room + 1) scope (.fragment (.text content))) :=
          follows_nodeWithin hle fun _ _ => .pure _
        rw [hroom]
        exact htext.mono (Nat.le_add_left _ _)
    | expr e => exact (follows_expr_nodeWithin (hcalls e hf) hbound hle).mono hbound

end Evaluation

namespace Expr.Spelled

/-- What has a spelling could be read. -/
theorem everywhere_valid {e : Expr} {ls : List Lexeme} {closed : Bool} (h : e.Spelled ls closed) :
    e.Everywhere (·.isInvalid = false) := by
  have leaf : ∀ {e : Expr}, e.isInvalid = false → e.parts = [] →
      e.Everywhere (·.isInvalid = false) := fun hvalid hparts => .intro hvalid (by simp [hparts])
  have zero : Expr.zero.Everywhere (·.isInvalid = false) := leaf rfl rfl
  induction h with
  | name name =>
      unfold ofName
      split <;> exact leaf rfl rfl
  | literal => exact leaf rfl rfl
  | group _ ih => exact ih
  | unary _ _ ih => exact .unary rfl ih
  | binary _ _ _ ihl ihr => exact .binary rfl ihl ihr
  | range _ _ ihs ihe => exact .range rfl ihs (by simpa using ihe)
  | openRange _ ih => exact .range rfl ih (by simp)
  | rangeFromZero _ ih => exact .range rfl zero (by simpa using ih)
  | openRangeFromZero => exact .range rfl zero (by simp)
  | @index _ position _ _ _ _ _ ihb ihp =>
      cases position with
      | range start stop =>
          obtain ⟨-, hbounds⟩ := ihp
          exact .intro rfl (List.forall_mem_cons.mpr ⟨ihb, hbounds⟩)
      | _ => exact .intro rfl (by simpa [parts, Template.indexed] using ⟨ihb, ihp⟩)
  | select _ items _ _ _ ihv ihp ihr =>
      exact .select rfl ihv (List.forall_mem_map.mpr fun i hi => ⟨ihp i hi, ihr i hi⟩)
  | call _ items _ _ ihc iha => exact .call rfl ihc (List.forall_mem_map.mpr iha)

end Expr.Spelled

/-- No expression in an accepted template stands for a span that could not be read. -/
theorem Template.Spelled.everywhere_valid {t : Template} {ls : List Lexeme} (h : t.Spelled ls) :
    t.Everywhere (·.isInvalid = false) := by
  induction h with
  | nil => intro e he; cases he
  | cons hf _ ih =>
      intro e he
      rcases List.mem_cons.mp he with rfl | he
      · cases hf with
        | expr he => exact he.everywhere_valid
      · exact ih e he

/-- Evaluation of an accepted template, in which all calls are direct, fails for its depth exactly
if it visits more levels than the limit allows. It visits no more than the template has, and all of
them if it always looks at all parts. -/
theorem Scope.eval_tooDeep_iff {source : String} {t : Template} (h : Template.parse source = .ok t)
    (hcalls : t.Everywhere (·.callsDirectly)) (scope : Scope) :
    ((∃ limit, ((scope.eval t).runAt 0).1 = .error (.tooDeep limit)) ↔
        scope.limit < scope.visited t) ∧
      scope.visited t ≤ t.levels ∧
      (t.Everywhere (·.usesAllParts) → scope.visited t = t.levels) := by
  obtain ⟨ls, -, hspelled⟩ := Template.exists_spelled_of_parse h
  obtain ⟨outcome, visited, hsurvey, hbound, hdeep, hrun⟩ :=
    Evaluation.follows_template hcalls (Nat.le_refl scope.limit)
  have hvisited : scope.visited t = visited := by
    rw [Scope.visited, hsurvey 0, Nat.zero_max]
  have heval : ((scope.eval t).runAt 0).1 =
      if visited ≤ scope.limit then outcome else .error (.tooDeep scope.limit) := by
    rw [Nat.sub_self] at hrun
    exact congrArg Prod.fst hrun
  refine ⟨?_, hvisited ▸ hbound, fun hused =>
    visited_eq_levels hused hcalls hspelled.everywhere_valid scope⟩
  rw [hvisited, heval]
  by_cases hle : visited ≤ scope.limit
  · simp [hle, hdeep]
  · simp [hle, Nat.lt_of_not_le hle]

/-- A sum that starts with a negative number, by the number of its additions. -/
def longSum : Nat → Expr
  | 0 => .unary .minus (.literal .int "1")
  | n + 1 => .binary .add (longSum n) (.literal .int "1")

theorem levels_longSum (n : Nat) : (longSum n).levels = n + 2 := by
  induction n with
  | zero => rfl
  | succ n ih => simp [longSum, Expr.levels, ih]

/-- What holds of sums, negations and numbers holds everywhere in a long sum. -/
theorem everywhere_longSum {P : Expr → Prop} (hsum : ∀ a b, P (.binary .add a b))
    (hminus : ∀ a, P (.unary .minus a)) (hone : ∀ lexeme, P (.literal .int lexeme)) (n : Nat) :
    (longSum n).Everywhere P := by
  have one : (Expr.literal .int "1").Everywhere P := .intro (hone _) (by simp [Expr.parts])
  induction n with
  | zero => exact .intro (hminus _) (by simpa [longSum, Expr.parts] using one)
  | succ n ih => exact .intro (hsum _ _) (by simpa [longSum, Expr.parts] using ⟨ih, one⟩)

namespace Template

open Reader

theorem writable_one : (Expr.literal .int "1").Writable := .literal ⟨'1', [], rfl, rfl, rfl⟩

theorem writable_longSum (n : Nat) : (longSum n).Writable := by
  induction n with
  | zero => exact .unary .minus writable_one
  | succ n ih => exact .binary .add ih writable_one

theorem written_longSum (n : Nat) :
    (longSum (n + 1)).written = (longSum n).written ++ [.symbol .plus, ⟨.int, "1"⟩] := by
  have hweaker : (longSum n).weaker Power.term.rank = false := by cases n <;> rfl
  change Lexeme.group ((longSum n).weaker Power.term.rank) _ ++ _ = _
  rw [hweaker]
  rfl

/-- Each addition takes one level of the room, and the negation in front of all of them takes no
more than a number does. -/
theorem reaches_longSum (room : Nat) (hroom : 3 ≤ room) {n : Nat} (hn : n < room) {s : Reader}
    {l : Lexeme} {rest : List Lexeme} (hs : s.lexemes = (longSum n).written ++ l :: rest)
    (hstops : Stops Power.term.rank l) : Reaches .none room s (n + 1) (longSum n) (l :: rest) := by
  have one := readBack_of_writable writable_one
  induction n generalizing l rest with
  | zero =>
      obtain _ | room := room
      · cases hroom
      obtain ⟨t, hread, ht⟩ :=
        readOperand_unary .minus one room (by simpa [Expr.operations] using hroom) hs
          (hstops.mono (by decide))
      exact reaches_of_readOperand hread ht
  | succ n ih =>
      -- The sum so far has used up a level for each addition, so one more is left for the number.
      have hplus : Extension.ofKind? (Lexeme.symbol .plus).kind = some (.binary .add) := rfl
      have hs' : s.lexemes = (longSum n).written ++ .symbol .plus :: ⟨.int, "1"⟩ :: l :: rest := by
        simpa [written_longSum] using hs
      refine (ih (by omega) hs' (stops_of_ofKind? hplus)).extend hplus (by decide) (by omega) ?_
      intro room' t hroom' ht
      have hop := arrives_advance ht (by simp)
      obtain ⟨u, hread, hu⟩ := (one .term room' _ _ _ hop.lexemes (by simp [Expr.operations]; omega)
        (show Power.term.rank < Power.call.rank by decide) (hstops.mono (by decide))).done hstops
      exact ⟨u, by simp only [readExtension, BinaryOp.power, hread, longSum], hop.trans hu⟩

/-- The room suffices for one addition less than it has levels. -/
theorem parse_longSum {n : Nat} (hn : n + 1 < maxNesting) :
    parse (longSum n).source = .ok [.expr (longSum n)] := by
  refine parse_source_of_readsWhole (writable_longSum n) fun s l rest hs hl => ?_
  have hreach := reaches_longSum (maxNesting - 1) (by decide) (by omega) hs
    (stops_of_ofKind?_eq_none hl _)
  exact hreach.done (stops_of_ofKind?_eq_none hl _)

end Template

/-- A scope without variables and other translations. -/
def plainScope : Scope := ⟨.html, "en", .ofList [], .ofList [], defaultMaxDepth⟩

theorem Scope.eval_tooDeep_iff_of_longSum :
    Template.parse (longSum 126).source = .ok [.expr (longSum 126)] ∧
      plainScope.visited [.expr (longSum 126)] = 129 ∧
      ∃ limit, ((plainScope.eval [.expr (longSum 126)]).runAt 0).1 = .error (.tooDeep limit) := by
  have hparse := Template.parse_longSum (n := 126) (by decide)
  have everywhere : ∀ P : Expr → Prop, (longSum 126).Everywhere P →
      Template.Everywhere P [.expr (longSum 126)] := by
    intro P hP e he
    cases List.mem_singleton.mp he
    exact hP
  have hcalls := everywhere _ (everywhere_longSum (P := (·.callsDirectly)) (fun _ _ => rfl)
    (fun _ => rfl) (fun _ => rfl) 126)
  have hused := everywhere _ (everywhere_longSum (P := (·.usesAllParts)) (fun _ _ => rfl)
    (fun _ => rfl) (fun _ => rfl) 126)
  obtain ⟨hdeep, -, hall⟩ := eval_tooDeep_iff hparse hcalls plainScope
  have hvisited : plainScope.visited [.expr (longSum 126)] = 129 := by
    rw [hall hused]
    simp [Template.levels, Fragment.levels, levels_longSum]
  exact ⟨hparse, hvisited, hdeep.mpr (by rw [hvisited]; decide)⟩

end Phrasebook
