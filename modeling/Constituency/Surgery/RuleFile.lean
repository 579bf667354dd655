import Constituency.Surgery.Process
import Constituency.Surgery.Reader

/-!
# Files of patterns and scripts

Blank lines separate the text into blocks, which are a pattern and its script by turns. Lines that
begin with a percent sign, after blanks or not, are comments; they do not separate blocks.
-/

namespace Constituency.RuleFile

/-- What is wrong with a file, in the block where it shows. -/
inductive Error where
  | pattern (e : PatternError)
  | script (e : ScriptError)

/-- A line that counts: it is not a comment. -/
def isContent (line : List Char) : Bool :=
  (Text.trim line).head? != some '%'

/-- A line that ends a block. -/
def isSeparator (line : List Char) : Bool :=
  (Text.trim line).isEmpty

/-- The blocks of a text. -/
def blocks (text : List Char) : List (List Char) :=
  let runs := Text.fields isSeparator ((Text.lines text).filter isContent)
  (runs.filter (!·.isEmpty)).map ['\n'].intercalate

/-- Reads blocks as patterns and scripts by turns. A script is read for its pattern. -/
def readBlocks (marks : Marks) : List (List Char) → Except Error (List Rule)
  | [] => .ok []
  | [block] => do
    let _ ← (Pattern.parse (String.ofList block) marks).mapError .pattern
    throw (.script (.malformed 0 block .noOperations))
  | first :: second :: rest => do
    let pattern ← (Pattern.parse (String.ofList first) marks).mapError .pattern
    let script ← (Script.parseFor pattern (String.ofList second)).mapError .script
    let rules ← readBlocks marks rest
    return ⟨pattern, script⟩ :: rules

/-- Reads the patterns and scripts of a file. -/
def parse (text : String) (marks : Marks) : Except Error (List Rule) :=
  readBlocks marks (blocks text.toList)

end Constituency.RuleFile
