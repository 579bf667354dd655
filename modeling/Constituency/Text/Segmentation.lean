import Constituency.Text.Property
import Constituency.Text.Script

/-!
# Kinds of characters in the segmentation of text

The Unicode standard, version 16, divides a text into what a reader takes for one character, into
words and into sentences. For each of these three it sorts the characters into kinds, most of which
come from categories and properties.
-/

namespace Constituency.Text.Segmentation

open Category Property

/-- Regional indicators, two of which make a flag. -/
def regional : CharSet := regionalIndicator.set

/-- The joiner that holds emoji together. -/
def zeroWidthJoiner : CharSet := .single '\u200d'

/-- Characters that belong to the character before them. -/
def extending : CharSet := .union graphemeExtend spacingMark

/-! ## What a reader takes for one character -/

/-- Control characters and other characters that stand for no sign. -/
def graphemeControl : CharSet :=
  .diff (.unions [lineSeparator, paragraphSeparator, control, format,
      .inter unassigned defaultIgnorable])
    (.unions [.ofHex "a d 200d", graphemeExtend, prependedConcatenationMark.set])

/-- Spacing marks that stay with the character before them. -/
def graphemeSpacingMark : CharSet :=
  .union (.ofHex "e33 eb3") (.diff (.diff spacingMark graphemeExtend)
    (.ofHex "102b-102c 1038 1062-1064 1067-106d 1083 1087-108c 108f 109a-109c 1a61 1a63-1a64 aa7b
      aa7d 11720-11721"))

/-- Hangul syllables without a final consonant. -/
def hangulOpen : CharSet := .ofHex "ac00-d788/1c"

/-- The kinds that matter for what a reader takes for one character. -/
def grapheme? : String → Option CharSet
  | "cr" => some (.single '\r')
  | "lf" => some (.single '\n')
  | "cn" | "control" => some graphemeControl
  | "ex" | "extend" => some (.union graphemeExtend emojiModifier.set)
  | "l" => some (.ofHex "1100-115f a960-a97c")
  | "v" => some (.ofHex "1160-11a7 d7b0-d7c6 16d63 16d67-16d6a")
  | "t" => some (.ofHex "11a8-11ff d7cb-d7fb")
  | "lv" => some hangulOpen
  | "lvt" => some (.diff (.ofHex "ac00-d7a3") hangulOpen)
  | "pp" | "prepend" => some (.ofHex
    "600-605 6dd 70f 890-891 8e2 d4e 110bd 110cd 111c2-111c3 113d1 1193f 11941 11a3a 11a84-11a89
    11d46 11f02")
  | "ri" | "regionalindicator" => some regional
  | "sm" | "spacingmark" => some graphemeSpacingMark
  | "zwj" => some zeroWidthJoiner
  | _ => none

/-! ## Sentences -/

/-- Digits and what stands among them or before them. -/
def sentenceNumeric : CharSet :=
  .union decimalNumber (.ofHex "600-605 66b-66c 6dd 890-891 8e2 19da 110bd 110cd")

/-- Characters that belong to the character before them, in sentences. -/
def sentenceExtend : CharSet := .union extending zeroWidthJoiner

/-- Format characters, in sentences. -/
def sentenceFormat : CharSet := .diff format (.union sentenceExtend sentenceNumeric)

/-- Lowercase characters, in sentences. -/
def sentenceLower : CharSet :=
  .diff lowercase (.union graphemeExtend (.ofHex "10d0-10fa 10fd-10ff"))

/-- Uppercase and titlecase characters, in sentences. -/
def sentenceUpper : CharSet :=
  .diff (.union uppercase titlecaseLetter) (.ofHex "1c90-1cba 1cbd-1cbf")

/-- Other letters, in sentences. -/
def sentenceLetter : CharSet :=
  .diff (.union alphabetic (.single '\u05f3'))
    (.unions [sentenceLower, sentenceUpper, sentenceExtend])

/-- Full stops, which may end a sentence or not. -/
def fullStop : CharSet := .ofHex "2e 2024 fe52 ff0e"

/-- Brackets and quotation marks. -/
def bracket : CharSet :=
  .union (.ofHex "275b-2760 2e00-2e01 2e06-2e08 2e0b 1f676-1f678")
    (.diff (.unions [openPunctuation, closePunctuation, initialPunctuation, finalPunctuation,
      quotationMark.set]) (.ofHex "ff02 ff07"))

/-- The kinds that matter for sentences. -/
def sentence? : String → Option CharSet
  | "cr" => some (.single '\r')
  | "lf" => some (.single '\n')
  | "ex" | "extend" => some sentenceExtend
  | "se" | "sep" => some (.ofHex "85 2028-2029")
  | "fo" | "format" => some sentenceFormat
  | "sp" => some (.diff whiteSpace.set (.ofHex "a d 85 2028-2029"))
  | "lo" | "lower" => some sentenceLower
  | "up" | "upper" => some sentenceUpper
  | "le" | "oletter" => some sentenceLetter
  | "nu" | "numeric" => some sentenceNumeric
  | "at" | "aterm" => some fullStop
  | "sc" | "scontinue" => some (.ofHex
    "2c-2d 3a-3b 37e 55d 60c-60d 7f8 1802 1808 2013-2014 3001 fe10-fe11 fe13-fe14 fe31-fe32
    fe50-fe51 fe54-fe55 fe58 fe63 ff0c-ff0d ff1a-ff1b ff64")
  | "st" | "sterm" => some (.diff sentenceTerminal.set fullStop)
  | "cl" | "close" => some bracket
  | _ => none

/-! ## Words -/

/-- The characters of a script, none if there is no such script. -/
def script (name : String) : CharSet := (Script.find? name).getD .empty

/-- Characters that belong to the character before them, in words. -/
def wordExtend : CharSet := .union extending emojiModifier.set

/-- Katakana and what is written among it. -/
def katakana : CharSet := .union (script "kana") (.ofHex "3031-3035 309b-309c 30a0 30fc ff70")

/-- Hebrew letters. -/
def hebrewLetter : CharSet := .inter (script "hebr") otherLetter

/-- Letters of scripts that mark the bounds of words. -/
def wordLetter : CharSet :=
  .union
    (.ofHex "b8 2c2-2c5 2d2-2d7 2de-2df 2e5-2eb 2ed 2ef-2ff 55a-55c 55e 58a 5f3 70f a708-a716
      a720-a721 a789-a78a ab5b")
    (.diff alphabetic (.unions (ideographic.set :: katakana :: hebrewLetter :: wordExtend ::
      ["hira", "thai", "laoo", "mymr", "khmr", "tale", "talu", "lana", "tavt", "ahom"].map script)))

/-- The kinds that matter for words. -/
def word? : String → Option CharSet
  | "cr" => some (.single '\r')
  | "lf" => some (.single '\n')
  | "nl" | "newline" => some (.ofHex "b-c 85 2028-2029")
  | "extend" => some wordExtend
  | "zwj" => some zeroWidthJoiner
  | "ri" | "regionalindicator" => some regional
  | "fo" | "format" => some (.diff sentenceFormat (.ofHex "70f 200b"))
  | "ka" | "katakana" => some katakana
  | "hl" | "hebrewletter" => some hebrewLetter
  | "le" | "aletter" => some wordLetter
  | "sq" | "singlequote" => some (.single '\x27')
  | "dq" | "doublequote" => some (.single '\x22')
  | "mb" | "midnumlet" => some (.ofHex "2e 2018-2019 2024 fe52 ff07 ff0e")
  | "ml" | "midletter" => some (.ofHex "3a b7 387 55f 5f4 2027 fe13 fe55 ff1a")
  | "mn" | "midnum" => some (.ofHex
    "2c 3b 37e 589 60c-60d 66c 7f8 2044 fe50 fe54 ff0c ff1b")
  | "nu" | "numeric" => some (.diff sentenceNumeric (.single '\u066c'))
  | "ex" | "extendnumlet" => some (.union connectorPunctuation (.single '\u202f'))
  | "wsegspace" => some (.diff spaceSeparator (.ofHex "a0 2007 202f"))
  | _ => none

end Constituency.Text.Segmentation
