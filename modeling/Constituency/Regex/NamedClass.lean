import Constituency.Text.Age
import Constituency.Text.Folding
import Constituency.Text.Segmentation

/-!
# Classes with a name

The sets of characters that regular expressions know by name: ASCII classes such as `alpha`, and
Unicode properties such as `Greek` or `Age=6.0`. The names of Unicode are looked up without regard
to case and separators.
-/

namespace Constituency.Regex

open Text

/-- The ASCII characters of words. -/
def asciiWord : CharSet := .ofHex "30-39 41-5a 5f 61-7a"

/-- The ASCII class of a name such as `alpha`. -/
def asciiNamed? : String → Option CharSet
  | "alnum" => some (.ofHex "30-39 41-5a 61-7a")
  | "alpha" => some (.ofHex "41-5a 61-7a")
  | "ascii" => some (.ofHex "0-7f")
  | "blank" => some (.ofHex "9 20")
  | "cntrl" => some (.ofHex "0-1f 7f")
  | "digit" => some (.ofHex "30-39")
  | "graph" => some (.ofHex "21-7e")
  | "lower" => some (.ofHex "61-7a")
  | "print" => some (.ofHex "20-7e")
  | "punct" => some (.ofHex "21-2f 3a-40 5b-60 7b-7e")
  | "space" => some (.ofHex "9-d 20")
  | "upper" => some (.ofHex "41-5a")
  | "word" => some asciiWord
  | "xdigit" => some (.ofHex "30-39 41-46 61-66")
  | _ => none

/-- A property name as it is looked up: in lower case, without `is` in front and without spaces,
hyphens, underscores and characters beyond ASCII. -/
def normalizeName (cs : List Char) : String :=
  let lowered := cs.map Char.toLower
  let stripped := if lowered.take 2 == ['i', 's'] then lowered.drop 2 else lowered
  let kept := stripped.filter fun c => c.toNat < 128 && c != ' ' && c != '_' && c != '-'
  if lowered.take 2 == ['i', 's'] && kept == ['c'] then "isc" else String.ofList kept

/-- The set of a property name that stands alone: a property, a general category or a script. -/
def propertyNamed? (name : List Char) : Option CharSet :=
  let n := normalizeName name
  (Property.find? n).or ((Category.find? n).or (Script.find? n))

/-- The set of a property with a value, such as `sc=Grek`. -/
def propertyValued? (property value : List Char) : Option CharSet :=
  let v := normalizeName value
  match normalizeName property with
  | "gc" | "generalcategory" => Category.find? v
  | "sc" | "script" => Script.find? v
  | "scx" | "scriptextensions" => Script.extended? v
  | "age" => Age.upTo? v
  | "gcb" | "graphemeclusterbreak" => Segmentation.grapheme? v
  | "wb" | "wordbreak" => Segmentation.word? v
  | "sb" | "sentencebreak" => Segmentation.sentence? v
  | _ => none

end Constituency.Regex
