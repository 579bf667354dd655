import Constituency.Pattern.Reader
import Constituency.Surgery.Grammar
import Constituency.Surgery.Operation

/-!
# Reading scripts

A text is parsed by the grammar of scripts, and its parse is turned into operations. A script that
is read for a pattern may only refer to the names that the pattern captures and to those that the
templates of earlier operations declare; a script that is read without a pattern may refer to any.
-/

namespace Constituency

/-- Why a text is not a script. -/
inductive ScriptError.Cause where
  | grammar (failure : Grammar.Failure ScriptRule)
  | incomplete
  | positionOutOfRange
  | positionZero
  | template (fault : Template.Fault)
  | noFoot
  | invalidRegex
  | replacement (text : List Char) (fault : Replacement.Fault)
  | noOperations

/-- The wording of a cause. -/
def ScriptError.Cause.message : ScriptError.Cause → String
  | grammar f => f.message ScriptRule.display
  | incomplete => "Incomplete operation"
  | positionOutOfRange => "Child position out of range"
  | positionZero => "Child positions start at 1"
  | template f => f.message
  | noFoot => "Auxiliary tree needs a foot (a leaf marked with @)"
  | invalidRegex => "Invalid regex"
  | replacement text f => f.message text
  | noOperations => "Pattern has no operations"

/-- What is wrong with a script, and where, in bytes from the start. -/
inductive ScriptError where
  /-- The text is not well-formed; the fragment is the text at the position. -/
  | malformed (position : Nat) (fragment : List Char) (cause : ScriptError.Cause)
  /-- No node can have the name. -/
  | unresolved (name : String) (position : Nat)

/-- The wording of an error. -/
def ScriptError.message : ScriptError → String
  | malformed position fragment cause =>
    "Surgery syntax error at position " ++ toString position ++ ": " ++ cause.message
      ++ " (near \x60" ++ String.ofList fragment ++ "\x60)"
  | unresolved name position =>
    "Unresolved node name '" ++ name ++ "' at position " ++ toString position

namespace ScriptReader

/-- A parse of a part of a script. -/
abbrev Part := Grammar.Parse ScriptRule

/-- The text being read, and the names that may be referred to, unless all may. -/
structure Source where
  text : List Char
  known : Option (List String)

/-- The position of a part, in bytes. -/
def Source.position (s : Source) (p : Part) : Nat := Text.byteOffset s.text p.start

/-- An error at a part. -/
def Source.error {α : Type} (s : Source) (p : Part) (c : ScriptError.Cause) :
    Except ScriptError α :=
  .error (.malformed (s.position p) p.text c)

/-- The error of a part that lacks something. -/
def Source.incomplete {α : Type} (s : Source) : Except ScriptError α :=
  .error (.malformed (Text.byteLength s.text) [] .incomplete)

/-- Whether a name may be referred to. -/
def Source.knows (s : Source) (name : String) : Bool :=
  s.known.all (·.contains name)

/-- The source for what follows an operation. -/
def Source.declare (s : Source) (names : List String) : Source :=
  { s with known := s.known.map (· ++ names) }

/-- Checks that names at a part may be referred to. -/
def checkNames (s : Source) (p : Part) (names : List String) : Except ScriptError Unit :=
  match names.find? (!s.knows ·) with
  | some name => .error (.unresolved name (s.position p))
  | none => .ok ()

/-- Reads a name of a node. -/
def reference (s : Source) (p : Part) : Except ScriptError String := do
  let name := String.ofList p.text
  checkNames s p [name]
  return name

/-- Reads a template, which must have a foot where that is asked for. -/
def readTemplate (s : Source) (needsFoot : Bool) (p : Part) : Except ScriptError Template :=
  match Template.parse p.text with
  | .error f => s.error p (.template f)
  | .ok t => do
    if needsFoot && t.foot?.isNone then s.error p .noFoot
    checkNames s p t.askedNames
    return t

/-- Reads what is inserted. -/
def readOperand (s : Source) (p : Part) : Except ScriptError Operand :=
  match p.parts with
  | [.node .template i cs ps] => .made <$> readTemplate s false (.node .template i cs ps)
  | [name] => .copyOf <$> reference s name
  | _ => s.incomplete

/-- Reads a child position: not zero, and a signed word of 32 bits. -/
def childPosition (s : Source) (p : Part) : Except ScriptError Int :=
  match Text.signedDecimal? (p.text.drop 1) with
  | some n =>
    if !Text.fitsInt32 n then s.error p .positionOutOfRange
    else if n == 0 then s.error p .positionZero
    else .ok n
  | none => s.error p .positionOutOfRange

/-- Reads a place. -/
def readPlace (s : Source) (p : Part) : Except ScriptError Place :=
  match p.parts with
  | [op, anchor] => do
    let anchor ← reference s anchor
    if op.text == "$+".toList then return .leftOf anchor
    else if op.text == "$-".toList then return .rightOf anchor
    else return .child anchor (← childPosition s op)
  | _ => s.incomplete

/-- The names of nodes whose labels a replacement uses. -/
def labelNames (parts : List ReplacementPart) : List String :=
  parts.filterMap fun
    | .label name => some (String.ofList name)
    | _ => none

/-- Reads a new label. -/
def readLabel (s : Source) (p : Part) : Except ScriptError Relabelling :=
  match p.parts with
  | [.node .relabelRegex _ _ [body, replacement]] =>
    match Regex.compile? (String.ofList (Text.unslash body.text)) with
    | none => s.error body .invalidRegex
    | some r =>
      match Replacement.parse replacement.text with
      | .error f => s.error replacement (.replacement replacement.text f)
      | .ok parts => do
        checkNames s replacement (labelNames parts)
        return .matching r parts
  | [.node .quoted _ _ [body]] => .ok (.literal (String.ofList (Text.unquote body.text)))
  | [.node .bareLabel _ cs _] => .ok (.literal (String.ofList cs))
  | _ => s.incomplete

/-- The mode of adjunction that a word stands for. -/
def adjunctionMode (word : List Char) : AdjunctionMode :=
  if word == "adjoinH".toList then .head
  else if word == "adjoinF".toList then .foot
  else .root

/-- Reads an operation without a guard: its word and what the word applies to. -/
def readEdit (s : Source) (p : Part) : Except ScriptError Operation :=
  match p.rule, p.parts with
  | .delete, _ :: names => .delete <$> names.mapM (reference s)
  | .prune, _ :: names => .prune <$> names.mapM (reference s)
  | .coindex, _ :: names => .coindex <$> names.mapM (reference s)
  | .excise, [_, top, bottom] => return .excise (← reference s top) (← reference s bottom)
  | .relabel, [_, name, label] => return .relabel (← reference s name) (← readLabel s label)
  | .insert, [_, operand, place] => return .insert (← readOperand s operand) (← readPlace s place)
  | .move, [_, name, place] => return .move (← reference s name) (← readPlace s place)
  | .replace, _ :: name :: operands =>
    return .replace (← reference s name) (← operands.mapM (readOperand s))
  | .adjoin, [word, template, target] =>
    return .adjoin (adjunctionMode word.text) (← readTemplate s true template)
      (← reference s target)
  | .createSubtree, [_, template, first] =>
    return .createSubtree (← readTemplate s true template) (← reference s first) none
  | .createSubtree, [_, template, first, last] =>
    return .createSubtree (← readTemplate s true template) (← reference s first)
      (some (← reference s last))
  | _, _ => s.incomplete

/-- Reads an operation with its guards. -/
def readOperation (s : Source) : Part → Except ScriptError Operation
  | .node .operation _ _ [.node .ifExists _ _ [_, _, name, guarded]] => do
    let name ← reference s name
    let guarded ← readOperation s guarded
    return .ifExists name false guarded
  | .node .operation _ _ [.node .ifExists _ _ [_, _, _, name, guarded]] => do
    let name ← reference s name
    let guarded ← readOperation s guarded
    return .ifExists name true guarded
  | .node .operation _ _ [p] => readEdit s p
  | _ => s.incomplete

/-- Reads operations, each of which may refer to what those before it declare. -/
def readOperations (s : Source) : List Part → Except ScriptError (List Operation)
  | [] => .ok []
  | p :: ps => do
    let o ← readOperation s p
    let os ← readOperations (s.declare o.declaredNames) ps
    return o :: os

/-- Reads the operations of a script. -/
def operations (text : List Char) (known : Option (List String)) :
    Except ScriptError (List Operation) :=
  match scriptGrammar.parse .script text with
  | .error f =>
    .error (.malformed (Text.byteOffset text f.offset)
      ((text.drop f.offset).takeWhile (· != '\n')) (.grammar f))
  | .ok p => readOperations ⟨text, known⟩ (p.parts.filter (·.rule == .operation))

end ScriptReader

namespace Script

/-- Reads a script whatever names it refers to. -/
def parse (source : String) : Except ScriptError Script := do
  let operations ← ScriptReader.operations source.toList none
  return ⟨source, operations, Marks.standard⟩

/-- Reads a script for the matches of a pattern. -/
def parseFor (p : Pattern) (source : String) : Except ScriptError Script := do
  let operations ← ScriptReader.operations source.toList (some p.captureNames)
  return ⟨source, operations, p.marks⟩

end Script

end Constituency
