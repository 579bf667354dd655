import Constituency.Regex.Basic
import Constituency.Regex.NamedClass

/-!
# Reading regular expressions

The notation is the usual one, with Unicode classes and named groups, and without look-around and
back-references. All that is wrong with an expression is wrong in the same way here: there is no
term for it.

The reader keeps the flags in force and the groups that are open. Every step takes at least one
character, so the length of the text bounds the number of steps.

An expression may not be nested too deeply. Groups, repetitions, sequences, choices, bracketed
classes and the operations in these are one level each; sequences, choices and the members of a
class only if there is more than one. The depth is that of the notation, not that of the term made
from it.
-/

namespace Constituency.Regex

/-- The flags in force at a place. -/
structure Flags where
  caseless : Bool := false
  multiLine : Bool := false
  dotAll : Bool := false
  lazyFirst : Bool := false
  unicode : Bool := true
  anyLineEnd : Bool := false
  spaced : Bool := false
deriving DecidableEq, Repr

/-- The depth of what has parts of some depths: one level more, unless there is only one part. -/
def depthOf : List Nat → Nat
  | [] => 0
  | [d] => d
  | ds => 1 + ds.foldl Nat.max 0

/-- An expression with the depth of its notation. -/
structure Term where
  expr : Expr
  depth : Nat := 0

/-- A part of a sequence: a term, or a place where flags change, which cannot be repeated. -/
inductive Piece where
  | term (t : Term)
  | flags

namespace Piece

/-- The expression of a part. -/
def expr : Piece → Expr
  | term t => t.expr
  | flags => .empty

/-- The depth of a part. -/
def depth : Piece → Nat
  | term t => t.depth
  | flags => 0

end Piece

/-- What has been read at one level of grouping. -/
structure Level where
  /-- The parts of the sequence being read, last to first. -/
  pieces : List Piece := []
  /-- The finished alternatives, last to first. -/
  branches : List Term := []

/-- A group whose closing parenthesis has not been read, with what surrounds it. -/
structure OpenGroup where
  outer : Level
  outerFlags : Flags
  index : Option Nat

/-- The state of the reader. -/
structure ParserState where
  level : Level := {}
  flags : Flags := {}
  groups : List OpenGroup := []
  groupCount : Nat := 0
  groupNames : List (List Char) := []

namespace Level

/-- The sequence being read. -/
def sequence (l : Level) : Term :=
  ⟨.inSequence (l.pieces.reverse.map (·.expr)), depthOf (l.pieces.map (·.depth))⟩

/-- The whole level. -/
def term (l : Level) : Term :=
  let branches := (l.sequence :: l.branches).reverse
  ⟨.choice (branches.map (·.expr)), depthOf (branches.map (·.depth))⟩

/-- The level with one more part. -/
def add (l : Level) (p : Piece) : Level :=
  { l with pieces := p :: l.pieces }

end Level

/-- The text after a comment, which the end of its line ends. -/
def dropComment : List Char → List Char
  | [] => []
  | '\n' :: cs => cs
  | _ :: cs => dropComment cs

/-- The text after blanks and comments, up to `fuel` of them. -/
def dropSpaceUpTo : Nat → List Char → List Char
  | 0, cs => cs
  | n + 1, cs =>
    match cs with
    | [] => []
    | c :: rest =>
      if Text.isBlank c then dropSpaceUpTo n rest
      else if c == '#' then dropSpaceUpTo n (dropComment rest)
      else cs

/-- The text after blanks and comments, where these do not count. -/
def Flags.dropSpace (f : Flags) (cs : List Char) : List Char :=
  if f.spaced then dropSpaceUpTo cs.length cs else cs

namespace Flags

/-- The characters of words. -/
def word (f : Flags) : CharSet :=
  if f.unicode then Text.Property.word else asciiWord

/-- The decimal digits. -/
def digit (f : Flags) : CharSet :=
  if f.unicode then Text.Category.decimalNumber else .range '0' '9'

/-- The blanks. -/
def space (f : Flags) : CharSet :=
  if f.unicode then Text.Property.whiteSpace.set else .ofHex "9-d 20"

/-- The set with the case variants that the flags ask for. -/
def fold (f : Flags) (s : CharSet) : CharSet :=
  if f.caseless then (if f.unicode then s.folded else s.foldedAscii) else s

/-- The complement of a set; characters are not told apart byte by byte. -/
def negate? (f : Flags) (negated : Bool) (s : CharSet) : Option CharSet :=
  if negated then (if f.unicode then some s.compl else none) else some s

end Flags

/-! ## Escapes -/

/-- What a backslash and the characters after it stand for. -/
inductive Escape where
  | char (c : Char)
  | set (s : CharSet)
  | look (l : Look)

/-- The characters with a meaning of their own. -/
def isMeta (c : Char) : Bool :=
  ['\\', '.', '+', '*', '?', '(', ')', '|', '[', ']', '\x7b', '\x7d', '^', '$', '#', '&', '-',
    '~'].contains c

/-- The characters that a backslash before them leaves as they are. -/
def isEscapable (c : Char) : Bool :=
  isMeta c || (c.toNat < 128 && !c.isAlphanum && c != '<' && c != '>')

/-- The value of a hexadecimal digit. -/
def hexDigit? (c : Char) : Option Nat :=
  if c.isDigit then some (c.toNat - 48)
  else if 'a' ≤ c && c ≤ 'f' then some (c.toNat - 87)
  else if 'A' ≤ c && c ≤ 'F' then some (c.toNat - 55)
  else none

/-- The character with a code point, if there is one. -/
def charOf? (n : Nat) : Option Char :=
  if n.isValidChar then some (Char.ofNat n) else none

/-- Exactly `n` hexadecimal digits, after a value read so far. -/
def hexDigits (f : Flags) : Nat → Nat → List Char → Option (Char × List Char)
  | 0, value, cs => (charOf? value).map (·, cs)
  | n + 1, value, c :: cs => do
    let d ← hexDigit? c
    let rest := f.dropSpace cs
    if n > 0 && rest.isEmpty then none else hexDigits f n (16 * value + d) rest
  | _ + 1, _, [] => none

/-- The hexadecimal digits up to a closing brace. -/
def bracedHex (f : Flags) : Nat → List Char → List Char → Option (Char × List Char)
  | 0, _, _ => none
  | fuel + 1, digits, cs =>
    match f.dropSpace cs with
    | [] => none
    | c :: rest =>
      if c == '\x7d' then do
        if digits.isEmpty then none
        else
          let values ← digits.reverse.mapM hexDigit?
          let ch ← charOf? (values.foldl (fun n d => 16 * n + d) 0)
          return (ch, f.dropSpace rest)
      else if (hexDigit? c).isSome then bracedHex f fuel (c :: digits) rest
      else none

/-- A character given by its code point; `n` is the number of digits without braces. -/
def hexEscape (f : Flags) (n : Nat) (cs : List Char) : Option (Char × List Char) := do
  let (c, rest) ← match f.dropSpace cs with
    | [] => none
    | '\x7b' :: rest => bracedHex f (rest.length + 1) [] rest
    | cs => hexDigits f n 0 cs
  if !f.unicode && n == 2 && c.toNat ≥ 128 then none else some (c, rest)

/-- The set of a property name between braces, with or without a value. -/
def propertySet? (name : List Char) : Option (Bool × CharSet) :=
  match name.idxOf? '!' with
  | some i =>
    if (name.drop i)[1]? == some '=' then
      (propertyValued? (name.take i) (name.drop (i + 2))).map (true, ·)
    else split
  | none => split
where
  /-- The name and value around the first colon, or else around the first equals sign. -/
  split : Option (Bool × CharSet) :=
    match (name.idxOf? ':').or (name.idxOf? '=') with
    | some i => (propertyValued? (name.take i) (name.drop (i + 1))).map (false, ·)
    | none => (propertyNamed? name).map (false, ·)

/-- A Unicode property: one letter, or a name between braces. -/
def propertyEscape (f : Flags) (negated : Bool) (cs : List Char) :
    Option (CharSet × List Char) := do
  if !f.unicode then none
  else
    let ((inverted, s), rest) ← match f.dropSpace cs with
      | [] => none
      | '\x7b' :: rest =>
        let name := rest.takeWhile (· != '\x7d')
        let after := rest.drop name.length
        if after.isEmpty then none
        else
          let name := if f.spaced then name.filter (!Text.isBlank ·) else name
          (propertySet? name).map (·, after.drop 1)
      | '\\' :: _ => none
      | c :: rest => (propertyNamed? [c]).map fun s => ((false, s), rest)
    return (.negateIf (negated != inverted) (f.fold s), rest)

/-- A word boundary of one kind between braces, such as `start-half`. No match is found if the
braces hold something else than letters, so that a repetition count can follow a word boundary. -/
def braceBoundary (f : Flags) (cs : List Char) : Option (Option Look × List Char) :=
  match cs with
  | '\x7b' :: rest =>
    let isNamePart (c : Char) : Bool := c.isAlpha || c == '-'
    match f.dropSpace rest with
    | [] => none
    | c :: _ =>
      if !isNamePart c then some (none, cs)
      else
        let body := rest.takeWhile (· != '\x7d')
        let after := rest.drop body.length
        let name := if f.spaced then body.filter (!Text.isBlank ·) else body
        if after.isEmpty then none
        else match String.ofList name with
          | "start" => some (some (.wordStart f.word), after.drop 1)
          | "end" => some (some (.wordEnd f.word), after.drop 1)
          | "start-half" => some (some (.wordStartHalf f.word), after.drop 1)
          | "end-half" => some (some (.wordEndHalf f.word), after.drop 1)
          | _ => none
  | _ => some (none, cs)

/-- Reads what follows a backslash. -/
def escape (f : Flags) : List Char → Option (Escape × List Char)
  | [] => none
  | c :: cs =>
    let set (negated : Bool) (s : CharSet) : Option (Escape × List Char) :=
      (f.negate? negated s).map (.set ·, cs)
    match c with
    | 'x' => (hexEscape f 2 cs).map fun (c, rest) => (.char c, rest)
    | 'u' => (hexEscape f 4 cs).map fun (c, rest) => (.char c, rest)
    | 'U' => (hexEscape f 8 cs).map fun (c, rest) => (.char c, rest)
    | 'p' => (propertyEscape f false cs).map fun (s, rest) => (.set s, rest)
    | 'P' => (propertyEscape f true cs).map fun (s, rest) => (.set s, rest)
    | 'd' => set false f.digit
    | 'D' => set true f.digit
    | 's' => set false f.space
    | 'S' => set true f.space
    | 'w' => set false f.word
    | 'W' => set true f.word
    | 'a' => some (.char '\x07', cs)
    | 'f' => some (.char '\x0c', cs)
    | 't' => some (.char '\t', cs)
    | 'n' => some (.char '\n', cs)
    | 'r' => some (.char '\r', cs)
    | 'v' => some (.char '\x0b', cs)
    | 'A' => some (.look .textStart, cs)
    | 'z' => some (.look .textEnd, cs)
    | 'b' => (braceBoundary f cs).map fun (l, rest) =>
      (.look (l.getD (.wordBoundary f.word)), rest)
    | 'B' => some (.look (.noWordBoundary f.word), cs)
    | '<' => some (.look (.wordStart f.word), cs)
    | '>' => some (.look (.wordEnd f.word), cs)
    | c => if isEscapable c then some (.char c, cs) else none

/-! ## Bracketed classes -/

/-- An operation between sets. -/
inductive SetOp where
  | inter
  | diff
  | symmDiff

/-- The result of an operation. -/
def SetOp.apply : SetOp → CharSet → CharSet → CharSet
  | inter => .inter
  | diff => .diff
  | symmDiff => .symmDiff

/-- A set with the depth of its notation. -/
structure SetTerm where
  set : CharSet
  depth : Nat := 0

/-- A bracketed class that has been opened. -/
structure OpenClass where
  negated : Bool
  /-- The members read since the last operation, last to first. -/
  members : List SetTerm := []
  /-- The operation before them and what stands to its left. -/
  pending : Option (SetTerm × SetOp) := none

namespace OpenClass

/-- The class with more members. -/
def add (k : OpenClass) (s : SetTerm) : OpenClass :=
  { k with members := s :: k.members }

/-- All that has been read, with the pending operation carried out. -/
def total (f : Flags) (k : OpenClass) : SetTerm :=
  let members := CharSet.unions (k.members.map (·.set))
  let depth := depthOf (k.members.map (·.depth))
  match k.pending with
  | none => ⟨members, depth⟩
  | some (left, op) =>
    ⟨op.apply (f.fold left.set) (f.fold members), 1 + Nat.max left.depth depth⟩

/-- The class after an operation sign. -/
def operate (f : Flags) (k : OpenClass) (op : SetOp) : OpenClass :=
  { k with members := [], pending := some (k.total f, op) }

/-- The set of a class at its closing bracket. -/
def close? (f : Flags) (k : OpenClass) : Option SetTerm := do
  let t := k.total f
  let s ← f.negate? k.negated (f.fold t.set)
  return ⟨s, 1 + t.depth⟩

end OpenClass

/-- A member of a class: a character, which can begin a range, or a set. -/
inductive ClassItem where
  | char (c : Char)
  | set (s : CharSet)

/-- The members of an item. -/
def ClassItem.members : ClassItem → CharSet
  | char c => .single c
  | set s => s

/-- Reads one member of a class. -/
def classItem (f : Flags) : List Char → Option (ClassItem × List Char)
  | [] => none
  | '\\' :: cs => do
    match ← escape f cs with
    | (.char c, rest) => some (.char c, rest)
    | (.set s, rest) => some (.set s, rest)
    | (.look _, _) => none
  | c :: cs => if !f.unicode && c.toNat ≥ 128 then none else some (.char c, cs)

/-- Reads a member of a class or a range of them. -/
def classRange (f : Flags) (cs : List Char) : Option (CharSet × List Char) := do
  let (item, rest) ← classItem f cs
  match f.dropSpace rest with
  | [] => none
  | '-' :: after =>
    match f.dropSpace after with
    | ']' :: _ | '-' :: _ => some (item.members, f.dropSpace rest)
    | [] => none
    | next =>
      match item, ← classItem f next with
      | .char a, (.char b, rest) => if a ≤ b then some (.range a b, rest) else none
      | _, _ => none
  | rest => some (item.members, rest)

/-- An ASCII class such as `[:alpha:]`, after its first bracket. It may be one that the flags
refuse, and then there is no set for it. -/
def asciiClass? (f : Flags) (cs : List Char) : Option (Option CharSet × List Char) :=
  match cs with
  | ':' :: rest =>
    let (negated, rest) := match rest with
      | '^' :: rest => (true, rest)
      | _ => (false, rest)
    let name := rest.takeWhile (· != ':')
    match rest.drop name.length with
    | ':' :: ']' :: after =>
      match asciiNamed? (String.ofList name) with
      | some s => some (f.negate? negated (f.fold s), after)
      | none => none
    | _ => none
  | _ => none

/-- The hyphens at the start of a class, which stand for themselves. -/
def leadingHyphens (f : Flags) : Nat → OpenClass → Bool → List Char →
    Option (OpenClass × Bool × List Char)
  | 0, _, _, _ => none
  | fuel + 1, k, found, cs =>
    match f.dropSpace cs with
    | [] => none
    | '-' :: rest => leadingHyphens f fuel (k.add ⟨.single '-', 0⟩) true rest
    | cs => some (k, found, cs)

/-- Opens a class, after its first bracket. A closing bracket at the very start is a member. -/
def openClass (f : Flags) (cs : List Char) : Option (OpenClass × List Char) := do
  let (negated, cs) := match f.dropSpace cs with
    | '^' :: rest => (true, rest)
    | cs => (false, cs)
  match ← leadingHyphens f (cs.length + 1) { negated } false cs with
  | (k, false, ']' :: rest) =>
    if (f.dropSpace rest).isEmpty then none else some (k.add ⟨.single ']', 0⟩, rest)
  | (k, _, cs) => some (k, cs)

/-- Reads classes to the closing bracket of the outermost one, innermost first in the list. -/
def classBody (f : Flags) : Nat → List OpenClass → List Char → Option (SetTerm × List Char)
  | 0, _, _ => none
  | _ + 1, [], _ => none
  | fuel + 1, k :: ks, cs =>
    match f.dropSpace cs with
    | [] => none
    | '[' :: rest =>
      match asciiClass? f rest with
      | some (s, after) => do
        let s ← s
        classBody f fuel (k.add ⟨s, 0⟩ :: ks) after
      | none => do
        let (inner, rest) ← openClass f rest
        classBody f fuel (inner :: k :: ks) rest
    | ']' :: rest => do
      let s ← k.close? f
      match ks with
      | [] => some (s, rest)
      | outer :: ks => classBody f fuel (outer.add s :: ks) rest
    | '&' :: '&' :: rest => classBody f fuel (k.operate f .inter :: ks) rest
    | '-' :: '-' :: rest => classBody f fuel (k.operate f .diff :: ks) rest
    | '~' :: '~' :: rest => classBody f fuel (k.operate f .symmDiff :: ks) rest
    | cs => do
      let (s, rest) ← classRange f cs
      classBody f fuel (k.add ⟨s, 0⟩ :: ks) rest

/-- Reads a class, after its first bracket. -/
def bracketClass (f : Flags) (cs : List Char) : Option (SetTerm × List Char) := do
  let (k, rest) ← openClass f cs
  classBody f (rest.length + 1) [k] rest

/-! ## Repetitions -/

/-- Repeats the last term of a level. -/
def Level.repeatLast (l : Level) (min : Nat) (max : Option Nat) (greedy : Bool) : Option Level :=
  match l.pieces with
  | .term t :: ps =>
    let repeated : Term := ⟨.repeated min max greedy t.expr, 1 + t.depth⟩
    some { l with pieces := .term repeated :: ps }
  | _ => none

/-- Whether a question mark follows, which asks for as few repetitions as possible. -/
def lazyMark : List Char → Bool × List Char
  | '?' :: cs => (true, cs)
  | cs => (false, cs)

/-- The digits of a count; blanks around them do not count. -/
def countDigits (f : Flags) (cs : List Char) : List Char × List Char :=
  let cs := cs.dropWhile Text.isBlank
  let rec digits : Nat → List Char → List Char → List Char × List Char
    | 0, ds, cs => (ds, cs)
    | fuel + 1, ds, cs =>
      match cs with
      | c :: rest => if c.isDigit then digits fuel (c :: ds) (f.dropSpace rest) else (ds, cs)
      | [] => (ds, [])
  let (ds, rest) := digits (cs.length + 1) [] cs
  (ds.reverse, rest.dropWhile Text.isBlank)

/-- A count that fits a word of 32 bits. -/
def count? (ds : List Char) : Option Nat :=
  Text.decimalBelow? UInt32.size ds

/-- The bounds of a counted repetition, after its opening brace. -/
def countedBounds (f : Flags) (cs : List Char) : Option (Nat × Option Nat × List Char) := do
  let (low, rest) := countDigits f (f.dropSpace cs)
  let (min, max, rest) ← match f.dropSpace rest with
    | ',' :: rest =>
      match f.dropSpace rest with
      | '\x7d' :: _ => do
        let n ← count? low
        some (n, none, f.dropSpace rest)
      | rest => do
        let (high, rest) := countDigits f rest
        let n ← count? low
        let m ← count? high
        some (n, some m, rest)
    | rest => do
      let n ← count? low
      some (n, some n, rest)
  match f.dropSpace rest with
  | '\x7d' :: rest => if max.all (min ≤ ·) then some (min, max, f.dropSpace rest) else none
  | _ => none

/-! ## Groups -/

/-- Whether a character can stand in the name of a group. -/
def isGroupNameChar (first : Bool) (c : Char) : Bool :=
  c == '_' || Text.Property.alphabetic.contains c
    || (!first && (c == '.' || c == '[' || c == ']' || Text.Category.number.contains c))

/-- The name of a group, up to the closing angle bracket. -/
def groupName? (cs : List Char) : Option (List Char × List Char) :=
  let name := cs.takeWhile (· != '>')
  let rest := cs.drop name.length
  match name with
  | [] => none
  | c :: more =>
    if !rest.isEmpty && isGroupNameChar true c && more.all (isGroupNameChar false) then
      some (name, rest.drop 1)
    else none

/-- Sets or clears one flag. -/
def Flags.change (f : Flags) (c : Char) (on : Bool) : Option Flags :=
  match c with
  | 'i' => some { f with caseless := on }
  | 'm' => some { f with multiLine := on }
  | 's' => some { f with dotAll := on }
  | 'U' => some { f with lazyFirst := on }
  | 'u' => some { f with unicode := on }
  | 'R' => some { f with anyLineEnd := on }
  | 'x' => some { f with spaced := on }
  | _ => none

/-- Reads flags up to a colon or a closing parenthesis. No flag and no hyphen occurs twice, and a
hyphen has a flag after it. -/
def readFlags (on : Bool) (seen : List Char) (f : Flags) : List Char →
    Option (Flags × Bool × List Char)
  | [] => none
  | c :: cs =>
    if c == ':' || c == ')' then
      if seen.head? == some '-' then none else some (f, !seen.isEmpty, c :: cs)
    else if seen.contains c then none
    else if c == '-' then readFlags false (c :: seen) f cs
    else do
      let f ← f.change c on
      readFlags on (c :: seen) f cs

namespace ParserState

/-- Opens a group under given flags. -/
def push (s : ParserState) (inner : Flags) (index : Option Nat) : ParserState :=
  { s with level := {}, flags := inner, groups := ⟨s.level, s.flags, index⟩ :: s.groups }

/-- Opens a group whose match is recorded. -/
def pushCapture (s : ParserState) : ParserState :=
  let index := s.groupCount + 1
  { s.push s.flags (some index) with groupCount := index }

/-- Opens a group whose match is recorded under a name of its own. -/
def pushNamed (s : ParserState) (cs : List Char) : Option (ParserState × List Char) := do
  let (name, rest) ← groupName? cs
  if s.groupNames.contains name then none
  else some ({ s.pushCapture with groupNames := name :: s.groupNames }, rest)

/-- Reads the start of a group, after its parenthesis. -/
def openGroup (s : ParserState) (cs : List Char) : Option (ParserState × List Char) :=
  match s.flags.dropSpace cs with
  | '?' :: '=' :: _ | '?' :: '!' :: _ | '?' :: '<' :: '=' :: _ | '?' :: '<' :: '!' :: _ => none
  | '?' :: 'P' :: '<' :: rest | '?' :: '<' :: rest => s.pushNamed rest
  | '?' :: rest => do
    match ← readFlags true [] s.flags rest with
    | (f, true, ')' :: rest) => some ({ s with flags := f, level := s.level.add .flags }, rest)
    | (f, _, ':' :: rest) => some (s.push f none, rest)
    | _ => none
  | rest => some (s.pushCapture, rest)

/-- Closes the innermost group. -/
def closeGroup (s : ParserState) : Option ParserState :=
  match s.groups with
  | [] => none
  | g :: gs =>
    let t := s.level.term
    let e := match g.index with
      | some i => .group i t.expr
      | none => t.expr
    some { s with
      level := g.outer.add (.term ⟨e, 1 + t.depth⟩), flags := g.outerFlags, groups := gs }

/-- Adds a term. -/
def addTerm (s : ParserState) (e : Expr) (depth : Nat) : ParserState :=
  { s with level := s.level.add (.term ⟨e, depth⟩) }

/-- Repeats the last term. -/
def repeatLast (s : ParserState) (min : Nat) (max : Option Nat) (fewest : Bool) :
    Option ParserState := do
  let level ← s.level.repeatLast min max (fewest == s.flags.lazyFirst)
  return { s with level }

/-- A single character. -/
def literal (s : ParserState) (c : Char) : Expr :=
  .ofSet (s.flags.fold (.single c))

/-- Any character, line ends apart unless the flags include them. -/
def dot? (s : ParserState) : Option Expr :=
  if !s.flags.unicode then none
  else if s.flags.dotAll then some (.chars .all)
  else if s.flags.anyLineEnd then some (.chars (.compl (.ofList ['\n', '\r'])))
  else some (.chars (.compl (.single '\n')))

/-- The start of the text or, under the flags, of a line. -/
def caret (s : ParserState) : Expr :=
  .look (if !s.flags.multiLine then .textStart
    else if s.flags.anyLineEnd then .lineStartAny else .lineStart)

/-- The end of the text or, under the flags, of a line. -/
def dollar (s : ParserState) : Expr :=
  .look (if !s.flags.multiLine then .textEnd
    else if s.flags.anyLineEnd then .lineEndAny else .lineEnd)

/-- Reads the next part of an expression. -/
def step (s : ParserState) : List Char → Option (ParserState × List Char)
  | [] => none
  | c :: cs =>
    match c with
    | '(' => s.openGroup cs
    | ')' => s.closeGroup.map (·, cs)
    | '|' =>
      some ({ s with level := ⟨[], s.level.sequence :: s.level.branches⟩ }, cs)
    | '[' =>
      (bracketClass s.flags cs).map fun (k, rest) => (s.addTerm (.ofSet k.set) k.depth, rest)
    | '?' => let (fewest, rest) := lazyMark cs; (s.repeatLast 0 (some 1) fewest).map (·, rest)
    | '*' => let (fewest, rest) := lazyMark cs; (s.repeatLast 0 none fewest).map (·, rest)
    | '+' => let (fewest, rest) := lazyMark cs; (s.repeatLast 1 none fewest).map (·, rest)
    | '\x7b' => do
      let (min, max, rest) ← countedBounds s.flags cs
      let (fewest, rest) := lazyMark rest
      (s.repeatLast min max fewest).map (·, rest)
    | '\\' => do
      match ← escape s.flags cs with
      | (.char c, rest) => some (s.addTerm (s.literal c) 0, rest)
      | (.set k, rest) => some (s.addTerm (.ofSet k) 0, rest)
      | (.look l, rest) => some (s.addTerm (.look l) 0, rest)
    | '.' => s.dot?.map fun e => (s.addTerm e 0, cs)
    | '^' => some (s.addTerm s.caret 0, cs)
    | '$' => some (s.addTerm s.dollar 0, cs)
    | c => some (s.addTerm (s.literal c) 0, cs)

/-- Reads parts to the end of the text. -/
def run : Nat → ParserState → List Char → Option ParserState
  | 0, _, _ => none
  | fuel + 1, s, cs =>
    match s.flags.dropSpace cs with
    | [] => some s
    | cs => do
      let (s, rest) ← s.step cs
      run fuel s rest

end ParserState

/-- The greatest depth of the notation of an expression. -/
def depthLimit : Nat := 250

/-- The expression that a text denotes, if it is well formed, and its number of groups. -/
def parse (cs : List Char) : Option (Expr × Nat) := do
  let s ← ParserState.run (cs.length + 1) {} cs
  let t := s.level.term
  if s.groups.isEmpty && t.depth ≤ depthLimit then some (t.expr, s.groupCount) else none

end Constituency.Regex
