import Phrasebook.Dictionary
import Phrasebook.Template.Tree

/-!
# Translations

A translation has a template, or alternatives of which the first that applies is taken. A condition
guards both. The translations of a locale form a table by key.
-/

namespace Phrasebook

/-- A translation. -/
structure Translation where
  condition : Option Node
  value : Option Template
  group : List Translation

namespace Translation

/-- A property of all translations follows from its transfer from the alternatives. -/
@[induction_eliminator]
theorem induct {P : Translation → Prop}
    (mk : ∀ condition value group, (∀ t ∈ group, P t) → P ⟨condition, value, group⟩)
    (t : Translation) : P t := by
  refine Translation.rec (motive_1 := P) (motive_2 := fun group => ∀ t ∈ group, P t) mk ?_ ?_ t
  all_goals simp_all

/-- The translation that never applies. -/
def never : Translation := ⟨none, none, []⟩

/-- The translation that is a template. -/
def ofTemplate (t : Template) : Translation := ⟨none, some t, []⟩

/-- The translation that is the first of its alternatives that applies. -/
def ofGroup (group : List Translation) : Translation := ⟨none, none, group⟩

/-- A translation guarded by a condition. A condition that is already there holds as well. -/
def guardedBy (t : Translation) (condition : Node) : Translation :=
  if t.condition.isSome then ⟨some condition, none, [t]⟩ else { t with condition := some condition }

/-- Whether a translation has no template anywhere, so that it never applies. -/
def isEmpty : Translation → Bool
  | ⟨_, value, group⟩ => value.isNone && areEmpty group
where
  /-- Whether all alternatives are empty. -/
  areEmpty : List Translation → Bool
    | [] => true
    | t :: group => t.isEmpty && areEmpty group

/-- All templates and conditions of a translation, from the top. -/
def nodes : Translation → List Node
  | ⟨condition, value, group⟩ =>
    condition.toList ++ (value.map Node.template).toList ++ nodesOf group
where
  /-- All templates and conditions of alternatives. -/
  nodesOf : List Translation → List Node
    | [] => []
    | t :: group => t.nodes ++ nodesOf group

end Translation

/-- The translations of a locale by their keys. -/
abbrev Table := Dictionary Translation

end Phrasebook
