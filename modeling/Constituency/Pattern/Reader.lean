import Constituency.Pattern.Basic
import Constituency.Pattern.Grammar

/-!
# Reading patterns

A text is parsed by the grammar of patterns, and its parse is turned into a pattern. Variables are
numbered by the first appearance of their names. Every reference must be to a name that is captured
somewhere; outside negations, to one that is captured outside negations.
-/

namespace Constituency

/-- Why a text is not a pattern. -/
inductive PatternError.Cause where
  | grammar (failure : Grammar.Failure PatternRule)
  | incomplete
  | capturedInChain
  | positionOutOfRange
  | positionZero
  | unknownRelation
  | capturedTwice
  | invalidRegex
  | unknownName (name : String)
  | capturedOnlyInNegation (name : String)

/-- The wording of a cause. -/
def PatternError.Cause.message : PatternError.Cause → String
  | grammar f => f.message PatternRule.display
  | incomplete => "Incomplete pattern"
  | capturedInChain => "Names cannot be captured inside a dominance chain"
  | positionOutOfRange => "Child position out of range"
  | positionZero => "Child positions start at 1"
  | unknownRelation => "Unknown relation"
  | capturedTwice => "Node is named more than once"
  | invalidRegex => "Invalid regex"
  | unknownName n => "Unknown name '" ++ n ++ "'"
  | capturedOnlyInNegation n => "Name '" ++ n ++ "' is only captured inside a negation"

/-- A cause, where it shows, in bytes from the start, and the text there. -/
structure PatternError where
  position : Nat
  fragment : List Char
  cause : PatternError.Cause

/-- The wording of an error. -/
def PatternError.message (e : PatternError) : String :=
  "Pattern syntax error at position " ++ toString e.position ++ ": " ++ e.cause.message
    ++ " (near \x60" ++ String.ofList e.fragment ++ "\x60)"

namespace Text

/-- The text with every `a` directly before a `b` taken out together with it and `c` put there. -/
def replacePair (a b c : Char) : List Char → List Char
  | x :: y :: cs =>
    if x == a && y == b then c :: replacePair a b c cs else x :: replacePair a b c (y :: cs)
  | cs => cs

/-- The text of a quoted label: escaped quotes first, escaped backslashes after them. -/
def unquote (cs : List Char) : List Char :=
  replacePair '\\' '\\' '\\' (replacePair '\\' '"' '"' cs)

/-- The text of a regular expression between slashes. -/
def unslash (cs : List Char) : List Char :=
  replacePair '\\' '/' '/' cs

end Text

namespace PatternReader

/-- A parse of a part of a pattern. -/
abbrev Part := Grammar.Parse PatternRule

/-- An occurrence of a name in a pattern. -/
structure Mention where
  name : String
  /-- Whether the name is given to a node here, and not referred to. -/
  captures : Bool
  negated : Bool
  start : Nat
  fragment : List Char

/-- The name that a capture or a reference contains. -/
def nameOf (p : Part) : String :=
  match p.parts with
  | n :: _ => String.ofList n.text
  | [] => ""

mutual

/-- The names in a part, in the order of the text. -/
def mentions (negated : Bool) : Part → List Mention
  | .node .term _ _ (.node .negation _ _ _ :: ps) => mentionsAll true ps
  | .node .capture i cs ps => [⟨nameOf (.node .capture i cs ps), true, negated, i, cs⟩]
  | .node .sameNode i cs ps => [⟨nameOf (.node .sameNode i cs ps), false, negated, i, cs⟩]
  | .node .sameLabel i cs ps => [⟨nameOf (.node .sameLabel i cs ps), false, negated, i, cs⟩]
  | .node _ _ _ ps => mentionsAll negated ps

/-- The names in several parts. -/
def mentionsAll (negated : Bool) : List Part → List Mention
  | [] => []
  | p :: ps => mentions negated p ++ mentionsAll negated ps

end

/-- The text being read and the names in it. -/
structure Source where
  text : List Char
  names : List String

/-- An error at a part. -/
def Source.error {α : Type} (s : Source) (p : Part) (c : PatternError.Cause) :
    Except PatternError α :=
  .error ⟨Text.byteOffset s.text p.start, p.text, c⟩

/-- The error of a part that lacks something. -/
def Source.incomplete {α : Type} (s : Source) : Except PatternError α :=
  .error ⟨Text.byteLength s.text, [], .incomplete⟩

/-- The variable of a name. -/
def Source.variable (s : Source) (name : String) : VarId := s.names.idxOf name

/-- The text of a bare or quoted label. -/
def labelText (p : Part) : String :=
  match p with
  | .node .quoted _ _ (body :: _) => String.ofList (Text.unquote body.text)
  | p => String.ofList p.text

/-- Reads one alternative of a label test. -/
def atom (s : Source) (p : Part) : Except PatternError Atom :=
  match p with
  | .node .atom _ _ [.node .regex i cs (body :: _)] =>
    match Regex.compile? (String.ofList (Text.unslash body.text)) with
    | some r => .ok (.regex r)
    | none => s.error (.node .regex i cs [body]) .invalidRegex
  | .node .atom _ _ [.node .category _ _ (label :: _)] => .ok (.category (labelText label))
  | .node .atom _ _ [label] => .ok (.literal (labelText label))
  | _ => s.incomplete

/-- Reads a label test. -/
def labelTest (s : Source) (p : Part) : Except PatternError LabelTest :=
  match p.parts with
  | [.node .wildcard _ _ _] => .ok .any
  | [.node .sameNode i cs ps] => .ok (.sameNode (s.variable (nameOf (.node .sameNode i cs ps))))
  | [.node .sameLabel i cs ps] => .ok (.sameLabel (s.variable (nameOf (.node .sameLabel i cs ps))))
  | [.node .alternatives _ _ atoms] => .oneOf <$> atoms.mapM (atom s)
  | _ => s.incomplete

/-- The predicate of a word. -/
def predicateOf (word : List Char) : Predicate :=
  if word == "leaf".toList then .leaf
  else if word == "preterminal".toList then .preterminal
  else .root

/-- Reads one part of a description, after those before it. -/
def describePart (s : Source) (sofar : Description × Option VarId) (p : Part) :
    Except PatternError (Description × Option VarId) :=
  let (d, capture) := sofar
  match p.rule with
  | .descriptionNegation => .ok ({ d with negated := true }, capture)
  | .labelTest => do
    let test ← labelTest s p
    return ({ d with test }, capture)
  | .predicate =>
    match p.parts with
    | kind :: _ => .ok ({ d with predicates := d.predicates ++ [predicateOf kind.text] }, capture)
    | [] => s.incomplete
  | .capture =>
    if capture.isSome then s.error p .capturedTwice
    else .ok (d, some (s.variable (nameOf p)))
  | _ => .ok (d, capture)

/-- Reads a description and the variable that captures the node. -/
def describe (s : Source) (p : Part) : Except PatternError (Description × Option VarId) :=
  p.parts.foldlM (describePart s) (.any, none)

/-- Reads a child position: not zero, and a signed word of 32 bits. -/
def childPosition (s : Source) (p : Part) : Except PatternError Int :=
  match Text.signedDecimal? (p.text.drop 1) with
  | some n =>
    if !Text.fitsInt32 n then s.error p .positionOutOfRange
    else if n == 0 then s.error p .positionZero
    else .ok n
  | none => s.error p .positionOutOfRange

/-- Reads a relation. -/
def relationOf (s : Source) (p : Part) : Except PatternError Relation :=
  match p.parts with
  | [.node .chainOp i cs [direction, between]] => do
    let (d, capture) ← describe s between
    if capture.isSome then s.error (.node .chainOp i cs []) .capturedInChain
    else if direction.text == "<+".toList then return .dominatesVia d
    else return .dominatedByVia d
  | [.node .nthOp i cs ps] => do
    let n ← childPosition s (.node .nthOp i cs ps)
    if cs.head? == some '<' then return .nthChild n else return .nthChildOf n
  | [.node .simpleOp i cs ps] =>
    match Relation.ofToken? (String.ofList cs) with
    | some r => .ok r
    | none => s.error (.node .simpleOp i cs ps) .unknownRelation
  | _ => s.incomplete

/-- One condition, or the disjunction of several. -/
def anyOf : List Condition → Condition
  | [c] => c
  | cs => .any cs

/-- One condition, or the conjunction of several. -/
def allOf : List Condition → Condition
  | [c] => c
  | cs => .all cs

mutual

/-- Reads a node with its relations. -/
def nodePattern (s : Source) : Part → Except PatternError NodePattern
  | .node .nodeExpr _ _ [head] => nodePattern s head
  | .node .nodeExpr _ _ [head, relations] => do
    let p ← nodePattern s head
    let c ← condition s relations
    return p.and c
  | .node .description i cs ps => do
    let (d, v) ← describe s (.node .description i cs ps)
    return .mk d v none
  | _ => s.incomplete

/-- Reads a condition. -/
def condition (s : Source) : Part → Except PatternError Condition
  | .node .disjunction _ _ ps => anyOf <$> conditions s ps
  | .node .conjunction _ _ ps => allOf <$> conditions s ps
  | .node .term _ _ [.node .negation _ _ _, p] => .not <$> condition s p
  | .node .term _ _ [.node .optional _ _ _, p] => .optional <$> condition s p
  | .node .term _ _ [p] => condition s p
  | .node .relation _ _ [op, target] => do
    let r ← relationOf s op
    let t ← nodePattern s target
    return .related r t
  | _ => s.incomplete

/-- Reads several conditions. -/
def conditions (s : Source) : List Part → Except PatternError (List Condition)
  | [] => .ok []
  | p :: ps => do
    let c ← condition s p
    let cs ← conditions s ps
    return c :: cs

end

/-- Whether a name is captured outside negations. -/
def isVisible (ms : List Mention) (name : String) : Bool :=
  ms.any fun m => m.captures && !m.negated && m.name == name

/-- What is wrong with a reference, given all occurrences of names. -/
def referenceFault (ms : List Mention) (m : Mention) : Option PatternError.Cause :=
  if m.captures then none
  else if !ms.any fun other => other.captures && other.name == m.name then
    some (.unknownName m.name)
  else if !m.negated && !isVisible ms m.name then some (.capturedOnlyInNegation m.name)
  else none

/-- The first reference to a name that it cannot refer to. -/
def firstFault (s : Source) (ms : List Mention) : Option PatternError :=
  ms.findSome? fun m =>
    (referenceFault ms m).map fun c => ⟨Text.byteOffset s.text m.start, m.fragment, c⟩

end PatternReader

/-- The text from a place up to the next blank. -/
def Text.wordAt (cs : List Char) (offset : Nat) : List Char :=
  (cs.drop offset).takeWhile (!isBlank ·)

/-- Reads a pattern. -/
def Pattern.parse (source : String) (marks : Marks) : Except PatternError Pattern :=
  let text := source.toList
  match patternGrammar.parse .pattern text with
  | .error f =>
    .error ⟨Text.byteOffset text f.offset, Text.wordAt text f.offset, .grammar f⟩
  | .ok p =>
    let ms := PatternReader.mentions false p
    let s : PatternReader.Source := ⟨text, (ms.map (·.name)).eraseDups⟩
    match p.parts with
    | node :: _ => do
      let root ← PatternReader.nodePattern s node
      match PatternReader.firstFault s ms with
      | some e => throw e
      | none =>
        return {
          source
          root
          names := s.names
          visible := s.names.map (PatternReader.isVisible ms)
          marks }
    | [] => s.incomplete

end Constituency
