import Constituency.Pattern.Basic

/-!
# What patterns mean

The solutions of a pattern at a node are the bindings under which the node fits it, as a list in
the order of preference. The meaning of a condition is put together from those of its parts:
conjunctions pass every solution of one part on to the next, disjunctions put the solutions of
their parts one after the other, and a relation does so with the solutions of its target at every
candidate.
-/

namespace Constituency

namespace Description

/-- The bindings after a node has been found to fit: a reference to an unbound variable binds it. -/
def bindReference (d : Description) (b : Bindings) (id : NodeId) : Bindings :=
  match d.test with
  | .sameNode v => if (b.node? v).isNone then b.bind v id else b
  | _ => b

end Description

/-- Binds a variable to a node, unless it is bound to another one. -/
def Bindings.capture (b : Bindings) (id : NodeId) : Option VarId → Option Bindings
  | none => some b
  | some v => if (b.node? v).all (· == id) then some (b.bind v id) else none

/-- The bindings after a node has been found to look as described and has been named. -/
def Scene.enter (s : Scene) (d : Description) (v : Option VarId) (id : NodeId) (b : Bindings) :
    Option Bindings :=
  if d.holds s.tree s.marks b id then (d.bindReference b id).capture id v else none

mutual

/-- The bindings under which a node fits a pattern, given those made before. -/
def NodePattern.solutions (s : Scene) : NodePattern → NodeId → Bindings → List Bindings
  | .mk d v none, id, b => (s.enter d v id b).toList
  | .mk d v (some c), id, b =>
    match s.enter d v id b with
    | none => []
    | some b => c.solutions s id b

/-- The bindings under which a node meets a condition, given those made before. -/
def Condition.solutions (s : Scene) : Condition → NodeId → Bindings → List Bindings
  | .all cs, id, b => Condition.solutionsAll s cs id b
  | .any cs, id, b => Condition.solutionsAny s cs id b
  | .not c, id, b => if (c.solutions s id b).isEmpty then [b] else []
  | .optional c, id, b =>
    match c.solutions s id b with
    | [] => [b]
    | found => found
  | .related r target, id, b => (r.candidates s b id).flatMap fun x => target.solutions s x b

/-- The bindings under which a node meets all of several conditions. -/
def Condition.solutionsAll (s : Scene) : List Condition → NodeId → Bindings → List Bindings
  | [], _, b => [b]
  | c :: cs, id, b => (c.solutions s id b).flatMap (Condition.solutionsAll s cs id)

/-- The bindings under which a node meets one of several conditions. -/
def Condition.solutionsAny (s : Scene) : List Condition → NodeId → Bindings → List Bindings
  | [], _, _ => []
  | c :: cs, id, b => c.solutions s id b ++ Condition.solutionsAny s cs id b

end

end Constituency
