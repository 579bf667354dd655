import Constituency.Pattern.Reader
import Constituency.Proofs.Pattern.Occurrences

/-!
# Writing patterns

A pattern is written with quoted labels, `&` between the parts of a conjunction and `|` between
those of a disjunction, brackets around each of these that is part of a condition, and parentheses
around the targets of relations. The names of its variables and the tokens of its relations are
chosen by a `Spelling`.

Not every pattern can be written so: a conjunction or disjunction must have at least two parts, a
label test at least one alternative, and none of the alternatives may be a regular expression.
Positions of children must fit a signed word of 32 bits and must not be zero
(`NodePattern.Writable`).
-/

namespace Constituency

/-- Whether a relation is written with an argument. -/
def Relation.hasArgument : Relation → Bool
  | .nthChild _ | .nthChildOf _ | .dominatesVia _ | .dominatedByVia _ => true
  | _ => false

/-- How the variables and the relations of patterns are written. -/
structure Spelling where
  name : VarId → String
  token : Relation → String
  isToken : ∀ r : Relation, r.hasArgument = false → Relation.ofToken? (token r) = some r

/-- The usual token of a relation without an argument. -/
def Relation.token : Relation → String
  | .dominates => "<<"
  | .dominatedBy => ">>"
  | .parentOf => "<"
  | .childOf => ">"
  | .firstChild => "<,"
  | .lastChild => "<-"
  | .onlyChild => "<:"
  | .firstChildOf => ">,"
  | .lastChildOf => ">-"
  | .onlyChildOf => ">:"
  | .leftmostDescendant => "<<,"
  | .rightmostDescendant => "<<-"
  | .leftmostDescendantOf => ">>,"
  | .rightmostDescendantOf => ">>-"
  | .unaryDominates => "<<:"
  | .unaryDominatedBy => ">>:"
  | .sister => "$"
  | .leftSisterOf => "$++"
  | .rightSisterOf => "$--"
  | .immediateLeftSisterOf => "$+"
  | .immediateRightSisterOf => "$-"
  | .precedes => ".."
  | .immediatelyPrecedes => "."
  | .follows => ",,"
  | .immediatelyFollows => ","
  | .equals => "=="
  | .nthChild _ | .nthChildOf _ | .dominatesVia _ | .dominatedByVia _ => ""

/-- The spelling with the usual tokens. -/
def Spelling.usual (name : VarId → String) : Spelling where
  name
  token := Relation.token
  isToken r h := by cases r <;> first | rfl | exact absurd h (by simp [Relation.hasArgument])

/-! ## Descriptions -/

/-- A text with a backslash before each backslash and each quotation mark. -/
def Text.escape : List Char → List Char
  | [] => []
  | c :: cs => if c == '\\' || c == '"' then '\\' :: c :: escape cs else c :: escape cs

/-- A text in quotation marks. -/
def Text.quote (cs : List Char) : List Char := '"' :: (escape cs ++ ['"'])

/-- The word of a predicate. -/
def Predicate.word : Predicate → String
  | .leaf => "leaf"
  | .preterminal => "preterminal"
  | .root => "root"

/-- An alternative of a label test as it is written; regular expressions are not written. -/
def Atom.written : Atom → List Char
  | .literal l => Text.quote l.toList
  | .category l => '@' :: Text.quote l.toList
  | .regex _ => []

/-- Whether an alternative is no regular expression. -/
def Atom.Writable : Atom → Prop
  | .regex _ => False
  | _ => True

/-- A label test as it is written. -/
def LabelTest.written (σ : Spelling) : LabelTest → List Char
  | .any => ['_', '_']
  | .oneOf atoms => ['|'].intercalate (atoms.map Atom.written)
  | .sameNode v => '=' :: (σ.name v).toList
  | .sameLabel v => '~' :: (σ.name v).toList

/-- Whether a label test can be written. -/
def LabelTest.Writable : LabelTest → Prop
  | .oneOf atoms => atoms ≠ [] ∧ ∀ a ∈ atoms, a.Writable
  | _ => True

/-- Predicates as they are written. -/
def Predicate.writtenAll (ps : List Predicate) : List Char :=
  ps.flatMap fun p => ':' :: p.word.toList

/-- The name that captures a node as it is written. -/
def Spelling.capture (σ : Spelling) : Option VarId → List Char
  | none => []
  | some v => '=' :: (σ.name v).toList

/-- A description as it is written, with the name that captures the node. -/
def Description.written (σ : Spelling) (d : Description) (v : Option VarId) : List Char :=
  (if d.negated then ['!'] else []) ++
    (d.test.written σ ++ (Predicate.writtenAll d.predicates ++ σ.capture v))

/-! ## Conditions -/

/-- A relation as it is written. -/
def Relation.written (σ : Spelling) : Relation → List Char
  | .nthChild n => '<' :: (toString n).toList
  | .nthChildOf n => '>' :: (toString n).toList
  | .dominatesVia d => '<' :: '+' :: '(' :: (d.written σ none ++ [')'])
  | .dominatedByVia d => '>' :: '+' :: '(' :: (d.written σ none ++ [')'])
  | r => (σ.token r).toList

/-- Whether a relation can be written. -/
def Relation.Writable : Relation → Prop
  | .nthChild n => n ≠ 0 ∧ Text.fitsInt32 n = true
  | .nthChildOf n => n ≠ 0 ∧ Text.fitsInt32 n = true
  | .dominatesVia d => d.test.Writable
  | .dominatedByVia d => d.test.Writable
  | _ => True

/-- A text with brackets around it, if it is part of a condition. -/
def Text.bracketed (isPart : Bool) (cs : List Char) : List Char :=
  if isPart then '[' :: (cs ++ [']']) else cs

mutual

/-- A pattern as it is written. -/
def NodePattern.written (σ : Spelling) : NodePattern → List Char
  | .mk d v none => d.written σ v
  | .mk d v (some c) => d.written σ v ++ ' ' :: c.written σ false

/-- A condition as it is written. -/
def Condition.written (σ : Spelling) (isPart : Bool) : Condition → List Char
  | .all cs => Text.bracketed isPart ([' ', '&', ' '].intercalate (Condition.writtenAll σ cs))
  | .any cs => Text.bracketed isPart ([' ', '|', ' '].intercalate (Condition.writtenAll σ cs))
  | .not c => '!' :: c.written σ true
  | .optional c => '?' :: c.written σ true
  | .related r p => r.written σ ++ ' ' :: '(' :: (p.written σ ++ [')'])

/-- The parts of a condition as they are written. -/
def Condition.writtenAll (σ : Spelling) : List Condition → List (List Char)
  | [] => []
  | c :: cs => c.written σ true :: Condition.writtenAll σ cs

end

mutual

/-- Whether a pattern can be written. -/
def NodePattern.Writable : NodePattern → Prop
  | .mk d _ none => d.test.Writable
  | .mk d _ (some c) => d.test.Writable ∧ c.Writable

/-- Whether a condition can be written. -/
def Condition.Writable : Condition → Prop
  | .all cs => 2 ≤ cs.length ∧ Condition.WritableAll cs
  | .any cs => 2 ≤ cs.length ∧ Condition.WritableAll cs
  | .not c => c.Writable
  | .optional c => c.Writable
  | .related r p => r.Writable ∧ p.Writable

/-- Whether several conditions can be written. -/
def Condition.WritableAll : List Condition → Prop
  | [] => True
  | c :: cs => c.Writable ∧ Condition.WritableAll cs

end

/-! ## Variables -/

/-- A label test with other variables. -/
def LabelTest.rename (f : VarId → VarId) : LabelTest → LabelTest
  | .sameNode v => .sameNode (f v)
  | .sameLabel v => .sameLabel (f v)
  | test => test

/-- A description with other variables. -/
def Description.rename (f : VarId → VarId) (d : Description) : Description :=
  { d with test := d.test.rename f }

/-- A relation with other variables. -/
def Relation.rename (f : VarId → VarId) : Relation → Relation
  | .dominatesVia d => .dominatesVia (d.rename f)
  | .dominatedByVia d => .dominatedByVia (d.rename f)
  | r => r

mutual

/-- A pattern with other variables. -/
def NodePattern.rename (f : VarId → VarId) : NodePattern → NodePattern
  | .mk d v none => .mk (d.rename f) (v.map f) none
  | .mk d v (some c) => .mk (d.rename f) (v.map f) (some (c.rename f))

/-- A condition with other variables. -/
def Condition.rename (f : VarId → VarId) : Condition → Condition
  | .all cs => .all (Condition.renameAll f cs)
  | .any cs => .any (Condition.renameAll f cs)
  | .not c => .not (c.rename f)
  | .optional c => .optional (c.rename f)
  | .related r p => .related (r.rename f) (p.rename f)

/-- Several conditions with other variables. -/
def Condition.renameAll (f : VarId → VarId) : List Condition → List Condition
  | [] => []
  | c :: cs => c.rename f :: Condition.renameAll f cs

end

namespace NodePattern

/-- The variables of a pattern in the order in which they first appear. -/
def firstVariables (p : NodePattern) : List VarId := p.variables.eraseDups

/-- The pattern with its variables numbered in the order in which they first appear. -/
def numbered (p : NodePattern) : NodePattern := p.rename p.firstVariables.idxOf

/-- Whether every reference is to a variable that is captured somewhere; a reference outside
negations, to one that is captured outside negations. -/
def SeesCaptures (p : NodePattern) : Prop :=
  ∀ o ∈ p.occurrences false, o.captures = false → ∃ o' ∈ p.occurrences false,
    o'.captures = true ∧ o'.var = o.var ∧ (o.negated = false → o'.negated = false)

/-- Whether the variables of a pattern have names of their own. -/
structure Named (σ : Spelling) (p : NodePattern) : Prop where
  isName : ∀ v ∈ p.variables, Text.isName (σ.name v).toList = true
  injective : ∀ v ∈ p.variables, ∀ u ∈ p.variables, σ.name v = σ.name u → v = u

end NodePattern

end Constituency
