/-!
# Characters, lines and positions

Texts are handled as lists of characters. This module holds what every reader of the library
shares: which characters are blank, how a text falls into fields and lines, how decimal digits are
read, and how a position counted in characters becomes one counted in UTF-8 bytes.

Blank characters are those with the Unicode property `White_Space`, all twenty-five of them.
-/

namespace Constituency.Text

/-- A character with the Unicode property `White_Space`. -/
def isBlank (c : Char) : Bool :=
  let n := c.toNat
  (0x09 ≤ n && n ≤ 0x0D) || n == 0x20 || n == 0x85 || n == 0xA0 || n == 0x1680
    || (0x2000 ≤ n && n ≤ 0x200A) || n == 0x2028 || n == 0x2029 || n == 0x202F
    || n == 0x205F || n == 0x3000

/-- The text without the blanks at either end. -/
def trim (cs : List Char) : List Char :=
  ((cs.dropWhile isBlank).reverse.dropWhile isBlank).reverse

/-- The pieces between the elements that satisfy `p`; one more than there are such elements. -/
def fields {α : Type} (p : α → Bool) : List α → List (List α)
  | [] => [[]]
  | c :: cs =>
    if p c then [] :: fields p cs
    else match fields p cs with
      | [] => [[c]]
      | f :: fs => (c :: f) :: fs

/-- Every character is an ASCII digit, and there is at least one. -/
def isDecimal (cs : List Char) : Bool :=
  !cs.isEmpty && cs.all Char.isDigit

/-- The value of a run of decimal digits. -/
def decimalValue (cs : List Char) : Nat :=
  cs.foldl (fun n c => 10 * n + (c.toNat - '0'.toNat)) 0

/-- The number that decimal digits stand for, if it is below a limit. -/
def decimalBelow? (limit : Nat) (cs : List Char) : Option Nat :=
  if isDecimal cs && decimalValue cs < limit then some (decimalValue cs) else none

/-- A signed decimal: digits, with a minus sign in front or not. -/
def signedDecimal? : List Char → Option Int
  | '-' :: cs => if isDecimal cs then some (-(decimalValue cs : Int)) else none
  | cs => if isDecimal cs then some (decimalValue cs) else none

/-- Whether a number fits a signed word of 32 bits. -/
def fitsInt32 (n : Int) : Bool :=
  -2147483648 ≤ n && n ≤ 2147483647

/-- The characters names are made of: ASCII letters and digits and the underscore. -/
def isNameChar (c : Char) : Bool :=
  c.isAlphanum || c == '_'

/-- A name: one or more name characters. -/
def isName (cs : List Char) : Bool :=
  !cs.isEmpty && cs.all isNameChar

/-- A line without the carriage return that ends it, if one does. -/
def dropReturn (cs : List Char) : List Char :=
  if cs.getLast? = some '\r' then cs.dropLast else cs

/-- The lines of a text. A line ends at a line feed, which may have a carriage return before it;
what follows the last line feed is a line only if it is not empty. -/
def lines (cs : List Char) : List (List Char) :=
  match (fields (· == '\n') cs).reverse with
  | [] => []
  | last :: ended =>
    (ended.map dropReturn).reverse ++ (if last.isEmpty then [] else [last])

/-- The number of UTF-8 bytes of a text. -/
def byteLength (cs : List Char) : Nat :=
  cs.foldl (fun n c => n + c.utf8Size) 0

/-- The position of the `n`th character of a text, in UTF-8 bytes from its start. -/
def byteOffset (cs : List Char) (n : Nat) : Nat :=
  byteLength (cs.take n)

end Constituency.Text
