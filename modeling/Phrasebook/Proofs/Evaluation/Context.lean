import Mathlib
import Phrasebook.Proofs.Evaluation.Descent

/-!
# Contexts

A context is a scope together with the depth that evaluation has come to in it. Requests in a
context ask for the value of a template or fragment, or for the template that is chosen from a
translation. A request gets a reply or an error, and the scope is only read for it; what it may
change is the depth, which goes down and comes up again many times on the way.

Main statement: behind a request the context is what it was in front of it, whatever comes of the
request (`Context.context_kept`). So the replies in a context depend neither on their order nor on
what else is asked for in it.
-/

namespace Phrasebook

/-- A scope, and the depth that evaluation has come to in it. -/
structure Context where
  scope : Scope
  depth : Nat

/-- What is asked for in a context. -/
inductive Request where
  | eval (n : Node)
  | choose (t : Translation)

/-- What a request comes to, unless it fails. -/
inductive Reply where
  | value (v : Value)
  | chosen (template? : Option Template)

/-- The computation that answers a request. -/
def Request.act (scope : Scope) : Request → Eval Reply
  | eval n => return .value (← scope.evalNode n)
  | choose t => return .chosen (← scope.choose t)

namespace Context

/-- What comes of a request in a context, and the context behind it. -/
def answer (c : Context) (request : Request) : Except EvalError Reply × Context :=
  let (outcome, depth) := (request.act c.scope).runAt c.depth
  (outcome, { c with depth })

/-- What comes of requests one after the other, and the context behind all of them. A request that
fails does not keep those behind it from being answered. -/
def answers (c : Context) : List Request → List (Except EvalError Reply) × Context
  | [] => ([], c)
  | request :: requests =>
    let (outcome, c) := c.answer request
    let (outcomes, c) := c.answers requests
    (outcome :: outcomes, c)

end Context

/-- The computation that answers a request ends at the depth at which it starts. -/
theorem Request.steady_act (scope : Scope) (request : Request) : (request.act scope).Steady := by
  cases request with
  | eval n => exact (scope.steady_evalNode n).bind fun _ _ => rfl
  | choose t => exact (scope.steady_choose t).bind fun _ _ => rfl

namespace Context

theorem answer_eq (c : Context) (request : Request) :
    c.answer request = (((request.act c.scope).runAt c.depth).1, c) := by
  rw [answer, (request.steady_act c.scope).runAt_eq]

theorem answers_eq (c : Context) (requests : List Request) :
    c.answers requests = (requests.map fun request => (c.answer request).1, c) := by
  induction requests with
  | nil => rfl
  | cons request requests ih =>
      have hfirst := c.answer_eq request
      rw [answers, hfirst]
      simp only [ih, List.map_cons, hfirst]

/-- Whatever comes of a request, a value, a choice or an error at any place below, the context
behind it is the one in front of it, in its depth and in its scope. So any requests in a context, of
which some may fail, come to what each of them comes to alone, and leave the context as it is. -/
theorem context_kept (c : Context) :
    (∀ n, ∃ outcome, c.answer (.eval n) = (outcome, c)) ∧
    (∀ t, ∃ outcome, c.answer (.choose t) = (outcome, c)) ∧
    ∀ requests, c.answers requests = (requests.map fun request => (c.answer request).1, c) :=
  ⟨fun n => ⟨_, c.answer_eq (.eval n)⟩, fun t => ⟨_, c.answer_eq (.choose t)⟩, c.answers_eq⟩

/-- A condition that is too deep, in a context below the top: the choice fails, and the value that
is asked for behind it does not. -/
example :
    let guarded : Translation :=
      (Translation.ofTemplate []).guardedBy (.fragment (.expr (.unary .not (.ident "x"))))
    let c : Context := ⟨⟨.html, "en", ∅, ∅, 5⟩, 3⟩
    c.answers [.choose guarded, .eval (.fragment (.text "x"))] =
      ([.error (.tooDeep 5), .ok (.value (.text "x"))], c) := rfl

end Context

end Phrasebook
