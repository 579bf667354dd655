import Constituency.Search.Enumeration
import Constituency.Surgery.Edit

/-!
# Applying scripts to matches

The operations of a script are carried out one after the other, on the nodes that a match captures
and on those that templates have made since. An operation that refers to a name without a node, or
that the tree refuses, is reported and passed over; the others are still carried out.

What a passed over operation made before it was given up stays: copies and trees of templates lie
detached in the arena, and the names that they declared have their nodes.
-/

namespace Constituency

/-- Why an operation was not carried out. -/
inductive Obstacle where
  | unresolved (name : String)
  | mismatch (name : String) (label : Label)
  | refused (reason : Refusal)
deriving DecidableEq, Repr

/-- A report of an operation that was passed over, or of the part of one. -/
inductive Diagnostic where
  /-- No node has the name. -/
  | unresolvedNode (name : String)
  /-- The label of the node has no match, and was left as it is. -/
  | regexMismatch (name : String) (label : Label)
  /-- The tree does not admit the operation. -/
  | skipped (keyword : String) (reason : Refusal)
deriving DecidableEq, Repr

/-- The wording of a report. -/
def Diagnostic.message : Diagnostic → String
  | unresolvedNode name => "Unresolved node '" ++ name ++ "'"
  | regexMismatch name label =>
    "Relabel regex does not match '" ++ label ++ "' (node '" ++ name ++ "')"
  | skipped keyword reason => "Skipped " ++ keyword ++ ": " ++ reason.message

/-- The report of an obstacle to an operation. -/
def Obstacle.report (keyword : String) : Obstacle → Diagnostic
  | unresolved name => .unresolvedNode name
  | mismatch name label => .regexMismatch name label
  | refused reason => .skipped keyword reason

/-- An application of a script under way. -/
structure Surgery where
  tree : Tree
  /-- The match that the script is applied to. -/
  matched : Match
  /-- The nodes made for the names that templates declare, the latest first. -/
  created : List (String × NodeId)

/-- A step of an application; an obstacle does not undo what the step did before. -/
abbrev Step := ExceptT Obstacle (StateM Surgery)

namespace Surgery

/-- The node of a name: one that a template made, or else one that the match captured. -/
def node? (s : Surgery) (name : String) : Option NodeId :=
  (s.created.lookup name).or (s.matched.node? name)

/-- The node of a name, which the arena has to have. -/
def fetch (s : Surgery) (name : String) : Except Obstacle NodeId :=
  match s.node? name with
  | some id => if s.tree.contains id then .ok id else .error (.refused .unknownNode)
  | none => .error (.unresolved name)

/-- The labelled tree at the node of a name. -/
def fetchConstituent (s : Surgery) (name : String) : Except Obstacle Constituent :=
  (s.fetch name).map s.tree.constituent

/-- The label that a replacement gives in place of a match. -/
def expand (s : Surgery) (m : Regex.Found) : List ReplacementPart → Except Obstacle (List Char)
  | [] => .ok []
  | .text cs :: parts => do
    let rest ← s.expand m parts
    return cs ++ rest
  | .group n :: parts => do
    let rest ← s.expand m parts
    return m.groupText n ++ rest
  | .label name :: parts => do
    let id ← s.fetch (String.ofList name)
    let rest ← s.expand m parts
    return (s.tree.label id).toList ++ rest

/-- The label that a node gets. -/
def relabelled (s : Surgery) (name : String) (id : NodeId) : Relabelling → Except Obstacle Label
  | .literal l => .ok l
  | .matching r parts =>
    let label := s.tree.label id
    match r.find? label.toList with
    | none => .error (.mismatch name label)
    | some m => do
      let text ← s.expand m parts
      return String.ofList (m.replace text)

/-- The same application with names of one node passed to another. -/
def rename (s : Surgery) (discarded substitute : NodeId) : Surgery :=
  { s with created := s.created.map fun (name, id) =>
      (name, if id == discarded then substitute else id) }

end Surgery

namespace Step

/-- The node of a name. -/
def fetch (name : String) : Step NodeId := do
  ofExcept ((← get).fetch name)

/-- Reads something off the tree, which may refuse it. -/
def ask {α : Type} (question : Tree → Except Refusal α) : Step α := do
  ofExcept ((question (← get).tree).mapError .refused)

/-- Changes the tree, which may refuse it on the way. -/
def edit {α : Type} (change : Edit α) : Step α := do
  let s ← get
  let (result, tree) := change.run.run s.tree
  set { s with tree }
  ofExcept (result.mapError .refused)

/-- Adds a labelled tree to the arena, detached. -/
def graft (c : Constituent) : Step NodeId := do
  let (tree, id) := (← get).tree.graft c
  modify fun s => { s with tree }
  return id

/-- Refuses the operation unless a condition on the tree holds. -/
def require (reason : Refusal) (condition : Tree → Bool) : Step Unit :=
  ask fun t => if condition t then .ok () else .error reason

/-- Makes a tree from a template and gives its root and its foot. The names that the template
declares get their nodes. -/
def instantiate (template : Template) : Step (NodeId × Option NodeId) := do
  match template.tree with
  | none => throw (.refused .templateEmpty)
  | some slots =>
    let filled ← ofExcept (slots.fill (← get).fetchConstituent)
    let root ← graft (filled.map Prod.fst)
    let made := filled.preorder.zipIdx root
    let names := made.filterMap fun ((_, slot), id) => (slot.bind Slot.declared?).map (·, id)
    modify fun s => { s with created := names ++ s.created }
    let foot := made.find? fun ((_, slot), _) => slot.any Slot.isFoot
    return (root, foot.map Prod.snd)

/-- Makes a tree from a template that has a foot. -/
def instantiateWithFoot (template : Template) : Step (NodeId × NodeId) := do
  match ← instantiate template with
  | (root, some foot) => return (root, foot)
  | (_, none) => throw (.refused .templateWithoutFoot)

/-- Makes what is to be inserted. -/
def make : Operand → Step NodeId
  | .copyOf name => do
    let c ← ofExcept ((← get).fetchConstituent name)
    graft c
  | .made template => do
    let (root, _) ← instantiate template
    return root

/-- Makes what is to be inserted, one operand after the other. -/
def makeAll : List Operand → Step (List NodeId)
  | [] => return []
  | o :: os => do
    let id ← make o
    let ids ← makeAll os
    return id :: ids

/-- Adjoins a tree made from a template to a node. -/
def adjoin (mode : AdjunctionMode) (template : Template) (target : NodeId) : Step Unit := do
  require .targetNotAttached (·.isAttached target)
  let (root, foot) ← instantiateWithFoot template
  edit (.adjoin target root foot mode)
  match mode with
  | .root => return
  | .head => modify (·.rename root target)
  | .foot => modify (·.rename foot target)

/-- Encloses sisters, or one node, in a tree made from a template. -/
def enclose (template : Template) (first : NodeId) (last : Option NodeId) : Step Unit := do
  require .nodeNotAttached (·.isAttached first)
  match last.filter (· != first) with
  | none =>
    let (root, foot) ← instantiateWithFoot template
    edit (.encloseNode first root foot)
  | some last =>
    let span ← ask (·.sistersBetween first last)
    let (root, foot) ← instantiateWithFoot template
    edit (.encloseSisters span root foot)

end Step

namespace Surgery

/-- Carries out a step, and reports under a keyword what hinders it. -/
def attempt (s : Surgery) (keyword : String) (step : Step Unit) : Surgery × List Diagnostic :=
  match step.run.run s with
  | (.ok (), s) => (s, [])
  | (.error o, s) => (s, [o.report keyword])

/-- Makes a change at every node that one of several names has. -/
def forEach (keyword : String) (change : NodeId → Edit Unit) :
    List String → Surgery → Surgery × List Diagnostic
  | [], s => (s, [])
  | name :: names, s =>
    let (s, reports) := s.attempt keyword do
      let id ← Step.fetch name
      Step.edit (change id)
    let (s, more) := forEach keyword change names s
    (s, reports ++ more)

end Surgery

namespace Operation

/-- Carries out an operation, and reports under a keyword what is passed over. -/
def runAs (keyword : String) (marks : Marks) : Operation → Surgery → Surgery × List Diagnostic
  | delete names, s => s.forEach keyword .detach names
  | prune names, s => s.forEach keyword .prune names
  | coindex names, s => s.forEach keyword (.coindex (s.tree.maxCoindex marks + 1)) names
  | ifExists name negated guarded, s =>
    if (s.node? name).isSome != negated then guarded.runAs keyword marks s else (s, [])
  | excise top bottom, s => s.attempt keyword do
    let top ← Step.fetch top
    let bottom ← Step.fetch bottom
    Step.edit (.excise top bottom)
  | relabel name how, s => s.attempt keyword do
    let id ← Step.fetch name
    let label ← ofExcept ((← get).relabelled name id how)
    Step.edit (.relabel id label)
  | insert operand place, s => s.attempt keyword do
    let anchor ← Step.fetch place.anchor
    let (parent, index) ← Step.ask (·.locate place anchor none)
    let id ← Step.make operand
    Step.edit (.insert parent index id)
  | move name place, s => s.attempt keyword do
    let id ← Step.fetch name
    let anchor ← Step.fetch place.anchor
    Step.ask (·.checkMove id anchor)
    let (parent, index) ← Step.ask (·.locate place anchor (some id))
    Step.edit (.move id parent index)
  | replace name operands, s => s.attempt keyword do
    let id ← Step.fetch name
    Step.require .nodeNotAttached (·.isAttached id)
    let made ← Step.makeAll operands
    Step.edit (.putInPlace id made)
  | adjoin mode template target, s => s.attempt keyword do
    let target ← Step.fetch target
    Step.adjoin mode template target
  | createSubtree template first last, s => s.attempt keyword do
    let first ← Step.fetch first
    let last ← last.mapM Step.fetch
    Step.enclose template first last

/-- Carries out an operation, and reports under its own keyword what is passed over. -/
def run (o : Operation) (marks : Marks) (s : Surgery) : Surgery × List Diagnostic :=
  o.runAs o.keyword marks s

/-- Carries out operations in order. -/
def runAll (marks : Marks) : List Operation → Surgery → Surgery × List Diagnostic
  | [], s => (s, [])
  | o :: os, s =>
    let (s, reports) := o.run marks s
    let (s, more) := runAll marks os s
    (s, reports ++ more)

end Operation

/-- What an application of a script came to. -/
structure Outcome where
  tree : Tree
  diagnostics : List Diagnostic
  /-- Whether the structure of the tree has changed, and not only its labels. -/
  restructured : Bool

/-- Applies a script to a match in a tree. -/
def Script.apply (s : Script) (t : Tree) (m : Match) : Outcome :=
  let (after, diagnostics) := Operation.runAll s.marks s.operations ⟨t, m, []⟩
  ⟨after.tree, diagnostics, after.tree.revision != t.revision⟩

end Constituency
