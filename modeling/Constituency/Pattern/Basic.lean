import Constituency.Pattern.Relation

/-!
# Patterns

A pattern describes a node, may name it, and may set conditions on its relations to other nodes,
which are described by patterns in turn. Conditions are combined by conjunction, disjunction and
negation; an optional condition contributes what it binds where it can be met, and is passed over
elsewhere.
-/

namespace Constituency

mutual

/-- What a node must look like, the variable it is bound to, and what it must be related to. -/
inductive NodePattern where
  | mk (description : Description) (capture : Option VarId) (condition : Option Condition)

/-- A condition on the relations of a node. -/
inductive Condition where
  | all (parts : List Condition)
  | any (parts : List Condition)
  | not (part : Condition)
  | optional (part : Condition)
  | related (relation : Relation) (target : NodePattern)

end

namespace NodePattern

/-- What the node must look like. -/
def description : NodePattern → Description
  | .mk d _ _ => d

/-- The variable the node is bound to. -/
def capture : NodePattern → Option VarId
  | .mk _ v _ => v

/-- What the node must be related to. -/
def condition : NodePattern → Option Condition
  | .mk _ _ c => c

end NodePattern

/-- The conjunction of two conditions; conjunctions are joined rather than nested. -/
def Condition.merge : Condition → Condition → Condition
  | .all xs, .all ys => .all (xs ++ ys)
  | .all xs, y => .all (xs ++ [y])
  | x, .all ys => .all (x :: ys)
  | x, y => .all [x, y]

/-- The pattern with one more condition. -/
def NodePattern.and : NodePattern → Condition → NodePattern
  | .mk d v none, c => .mk d v (some c)
  | .mk d v (some k), c => .mk d v (some (k.merge c))

mutual

/-- The number of patterns and conditions that a pattern is made of. -/
def NodePattern.size : NodePattern → Nat
  | .mk _ _ none => 1
  | .mk _ _ (some c) => c.size + 1

/-- The number of patterns and conditions that a condition is made of. -/
def Condition.size : Condition → Nat
  | .all cs => Condition.sizeAll cs + 1
  | .any cs => Condition.sizeAll cs + 1
  | .not c => c.size + 1
  | .optional c => c.size + 1
  | .related _ target => target.size + 1

/-- The number of patterns and conditions that several conditions are made of. -/
def Condition.sizeAll : List Condition → Nat
  | [] => 0
  | c :: cs => c.size + Condition.sizeAll cs

end

mutual

/-- Whether two patterns are the same, regular expressions being compared by their texts. -/
def NodePattern.beq : NodePattern → NodePattern → Bool
  | .mk d v none, .mk d' v' none => d == d' && v == v'
  | .mk d v (some c), .mk d' v' (some c') => d == d' && v == v' && c.beq c'
  | _, _ => false

/-- Whether two conditions are the same. -/
def Condition.beq : Condition → Condition → Bool
  | .all cs, .all cs' => Condition.beqAll cs cs'
  | .any cs, .any cs' => Condition.beqAll cs cs'
  | .not c, .not c' => c.beq c'
  | .optional c, .optional c' => c.beq c'
  | .related r t, .related r' t' => r == r' && t.beq t'
  | _, _ => false

/-- Whether two lists of conditions are the same. -/
def Condition.beqAll : List Condition → List Condition → Bool
  | [], [] => true
  | c :: cs, c' :: cs' => c.beq c' && Condition.beqAll cs cs'
  | _, _ => false

end

instance : BEq NodePattern := ⟨NodePattern.beq⟩

/-- A pattern as it was read: its text, its root, and the names of its variables. -/
structure Pattern where
  source : String
  root : NodePattern
  /-- The names of the variables, in the order in which they first appear. -/
  names : List String
  /-- For each variable, whether it is bound anywhere outside negations. -/
  visible : List Bool
  marks : Marks

/-- The names that a match can bind: those bound outside negations. -/
def Pattern.captureNames (p : Pattern) : List String :=
  (p.names.zip p.visible).filterMap fun (name, visible) => if visible then some name else none

end Constituency
