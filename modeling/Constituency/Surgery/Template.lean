import Constituency.Bracket.Parser
import Constituency.Bracket.Printer

/-!
# Templates

A template is written in bracketed notation with three kinds of marks. `LABEL=name` gives a name to
the node that is made from it, a leaf `LABEL@` is the foot, and a leaf `=name` is a hole, to be
filled with a copy of the node of that name. Marks are not part of the labels; a co-index such as
the one of `NP=2` is, since names begin with a letter there.
-/

namespace Constituency

/-- A node of a template. -/
inductive Slot where
  | node (label : Label) (name : Option String) (isFoot : Bool)
  | hole (name : String)
deriving DecidableEq, Repr

namespace Slot

/-- The label that a node of a template is shown with. -/
def label : Slot → Label
  | node l _ _ => l
  | hole n => "=" ++ n

/-- The name that a node of a template declares. -/
def declared? : Slot → Option String
  | node _ n _ => n
  | hole _ => none

/-- The name that a hole asks for. -/
def asked? : Slot → Option String
  | node _ _ _ => none
  | hole n => some n

/-- Whether the node is marked as the foot. -/
def isFoot : Slot → Bool
  | node _ _ f => f
  | hole _ => false

/-- Takes the name off a label: what follows its last equals sign, if that is a name that begins
with a letter and something stands before the sign. -/
def splitName (cs : List Char) : List Char × Option (List Char) :=
  let name := (cs.reverse.takeWhile (· != '=')).reverse
  let base := cs.take (cs.length - name.length - 1)
  if cs.contains '=' && !base.isEmpty && Text.isName name && name.head?.any Char.isAlpha then
    (base, some name)
  else (cs, none)

/-- Reads the marks of a label. -/
def ofLabel (isLeaf : Bool) (l : Label) : Slot :=
  let cs := l.toList
  if isLeaf && cs.head? == some '=' && Text.isName (cs.drop 1) then
    hole (String.ofList (cs.drop 1))
  else
    let foot := isLeaf && cs.length > 1 && cs.getLast? == some '@'
    let (base, name) := splitName (if foot then cs.dropLast else cs)
    node (String.ofList base) (name.map String.ofList) foot

end Slot

/-- A template: its text and, unless it is empty, its nodes. -/
structure Template where
  source : String
  tree : Option (Rose Slot)

namespace Template

instance : BEq Template := ⟨fun a b => a.source == b.source⟩

/-- What is wrong with a template. -/
inductive Fault where
  | brackets (cause : Bracket.ParseError.Cause)
  | secondFoot
  | declaredTwice (name : String)
deriving DecidableEq, Repr

/-- The wording of a fault. -/
def Fault.message : Fault → String
  | brackets c => c.message
  | secondFoot => "Auxiliary tree has more than one foot"
  | declaredTwice n => "Name '" ++ n ++ "' declared twice"

mutual

/-- A labelled tree with the marks of its labels read. -/
def mark : Constituent → Rose Slot
  | .node l cs => .node (Slot.ofLabel cs.isEmpty l) (markAll cs)

/-- Several labelled trees with the marks of their labels read. -/
def markAll : List Constituent → List (Rose Slot)
  | [] => []
  | c :: cs => mark c :: markAll cs

end

/-- The first fault among nodes, after those that had a foot or declared given names. -/
def firstFault (footSeen : Bool) (names : List String) : List Slot → Option Fault
  | [] => none
  | s :: ss =>
    if s.isFoot && footSeen then some .secondFoot
    else
      match s.declared? with
      | none => firstFault (footSeen || s.isFoot) names ss
      | some n =>
        if names.contains n then some (.declaredTwice n)
        else firstFault (footSeen || s.isFoot) (n :: names) ss

/-- The nodes in order. -/
def slots (t : Template) : List Slot :=
  match t.tree with
  | none => []
  | some r => r.preorder

/-- Reads a template. -/
def parse (cs : List Char) : Except Fault Template :=
  match Bracket.parse cs with
  | .error e => .error (.brackets e.cause)
  | .ok c =>
    let t : Template := ⟨String.ofList cs, c.map mark⟩
    match firstFault false [] t.slots with
    | some f => .error f
    | none => .ok t

/-- The template as a labelled tree. -/
def constituent (t : Template) : Option Constituent :=
  t.tree.map (·.map Slot.label)

/-- The place of the foot among the nodes. -/
def foot? (t : Template) : Option Nat := t.slots.findIdx? Slot.isFoot

/-- The declared names, in order. -/
def declaredNames (t : Template) : List String := t.slots.filterMap Slot.declared?

/-- The names that holes ask for, in order. -/
def askedNames (t : Template) : List String := t.slots.filterMap Slot.asked?

/-- The written form of the template without its marks. -/
def render (t : Template) : String := Bracket.render t.constituent

end Template

namespace Rose

variable {ε : Type}

mutual

/-- A template with its holes filled, or the first error in filling one. Every node remembers what
it was made from. -/
def fill (find : String → Except ε Constituent) : Rose Slot → Except ε (Rose (Label × Option Slot))
  | .node (.hole n) _ => do
    let c ← find n
    return c.map (·, none)
  | .node s cs => do
    let cs ← fillAll find cs
    return .node (s.label, some s) cs

/-- Several templates with their holes filled. -/
def fillAll (find : String → Except ε Constituent) :
    List (Rose Slot) → Except ε (List (Rose (Label × Option Slot)))
  | [] => .ok []
  | r :: rs => do
    let r ← r.fill find
    let rs ← fillAll find rs
    return r :: rs

end

end Rose

end Constituency
