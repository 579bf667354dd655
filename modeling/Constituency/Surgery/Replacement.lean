import Constituency.Text.Chars

/-!
# Replacement texts

The text that replaces a match in a label can refer to groups of the match, as `$1` or as the same
digits in braces, and to the labels of other nodes, as a name in braces after an equals sign. A
backslash takes the meaning from the character after it.
-/

namespace Constituency

/-- A part of a replacement. -/
inductive ReplacementPart where
  | text (cs : List Char)
  | group (n : Nat)
  | label (name : List Char)
deriving DecidableEq, Repr

namespace Replacement

/-- What is wrong with a replacement. -/
inductive Fault where
  | unclosedGroup
  | badGroup
  | unclosedLabel
  | emptyLabel
deriving DecidableEq, Repr

/-- The wording of a fault in a given text. -/
def Fault.message (text : List Char) (f : Fault) : String :=
  let quoted := " in '" ++ String.ofList text ++ "'"
  match f with
  | unclosedGroup => "Unclosed group reference" ++ quoted
  | badGroup => "Bad group reference" ++ quoted
  | unclosedLabel => "Unclosed node reference" ++ quoted
  | emptyLabel => "Empty node reference" ++ quoted

/-- The part that literal characters make, the last of them first. -/
def literalPart (pending : List Char) : List ReplacementPart :=
  if pending.isEmpty then [] else [.text pending.reverse]

/-- A group number: decimal digits, for a number that fits a word of 64 bits. -/
def groupNumber (digits : List Char) : Except Fault Nat :=
  match Text.decimalBelow? UInt64.size digits with
  | some n => .ok n
  | none => .error .badGroup

/-- Reads the group number after a dollar sign. -/
def readGroup (cs : List Char) : Except Fault (Nat × List Char) :=
  match cs with
  | '\x7b' :: cs =>
    let digits := cs.takeWhile Char.isDigit
    match cs.drop digits.length with
    | '\x7d' :: rest => (groupNumber digits).map (·, rest)
    | _ => .error .unclosedGroup
  | cs =>
    let digits := cs.takeWhile Char.isDigit
    (groupNumber digits).map (·, cs.drop digits.length)

/-- Reads the name after an equals sign and an opening brace. -/
def readLabel (cs : List Char) : Except Fault (List Char × List Char) :=
  let name := cs.takeWhile (· != '\x7d')
  match cs.drop name.length with
  | [] => .error .unclosedLabel
  | _ :: rest => if name.isEmpty then .error .emptyLabel else .ok (name, rest)

/-- Reads parts, at most `fuel` characters or references, after literal characters; each of them
takes at least one character. -/
def partsFrom : Nat → List Char → List Char → Except Fault (List ReplacementPart)
  | 0, pending, _ => .ok (literalPart pending)
  | fuel + 1, pending, cs =>
    match cs with
    | [] => .ok (literalPart pending)
    | '\\' :: [] => .ok (literalPart pending)
    | '\\' :: c :: rest => partsFrom fuel (c :: pending) rest
    | '$' :: rest =>
      if rest.head?.any fun c => c.isDigit || c == '\x7b' then do
        let (n, rest) ← readGroup rest
        let parts ← partsFrom fuel [] rest
        return literalPart pending ++ .group n :: parts
      else partsFrom fuel ('$' :: pending) rest
    | '=' :: '\x7b' :: rest => do
      let (name, rest) ← readLabel rest
      let parts ← partsFrom fuel [] rest
      return literalPart pending ++ .label name :: parts
    | c :: rest => partsFrom fuel (c :: pending) rest

/-- Reads a replacement. -/
def parse (cs : List Char) : Except Fault (List ReplacementPart) :=
  partsFrom cs.length [] cs

end Replacement

end Constituency
