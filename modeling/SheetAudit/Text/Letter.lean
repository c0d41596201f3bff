import SheetAudit.Text.Table

/-!
# Letters, digits and words

The character classes that names, numbers and words are read with.  Below `0x80` each is
the familiar ASCII class; beyond, the tables of `Text.Table` decide.

## Main definitions

* `isAlphabetic`, `isAlphanumeric` — letters, and letters or numbers, of any script.
* `isDecimalDigit` — a decimal digit of any script.
* `isWordChar` — part of a word; a word ends where one of two neighbours is no part of a word.
* `isLowerAlnum` — an ASCII small letter or digit, the alphabet of canonical names.
* `folds` — an ASCII small letter matched without regard to case.
-/

namespace SheetAudit
namespace Text

/-- The code point lies in one of the ranges. -/
def inRanges (ranges : List (Nat × Nat)) (n : Nat) : Bool :=
  ranges.any fun r => r.1 ≤ n && n ≤ r.2

def isAscii (c : Char) : Bool := c.toNat < 0x80

def isAlphabetic (c : Char) : Bool :=
  if isAscii c then c.isAlpha
  else inRanges Table.alphabetic c.toNat || inRanges Table.newAlphabetic c.toNat

def isAlphanumeric (c : Char) : Bool :=
  if isAscii c then c.isAlphanum else isAlphabetic c || inRanges Table.numeric c.toNat

/-- A digit that numbers may be written with. -/
def isDecimalDigit (c : Char) : Bool :=
  if isAscii c then c.isDigit else inRanges Table.decimalDigits c.toNat

/-- Words do not know the newest letters: next to one of these a word ends. -/
def isWordChar (c : Char) : Bool :=
  if isAscii c then c.isAlphanum || c == '_'
  else inRanges Table.alphabetic c.toNat || inRanges Table.wordExtra c.toNat

def isHexDigit (c : Char) : Bool :=
  c.isDigit || ('a' ≤ c && c ≤ 'f') || ('A' ≤ c && c ≤ 'F')

def isLowerAlnum (c : Char) : Bool := c.isLower || c.isDigit

/-- `letter`, an ASCII small letter, matches `c` when case is disregarded: the long s counts
as an s and the Kelvin sign as a k. -/
def folds (letter c : Char) : Bool :=
  c.toLower == letter || (letter == 's' && c == '\u017f') || (letter == 'k' && c == '\u212a')

/-- Some ASCII letter matches `c` when case is disregarded. -/
def foldsToLetter (c : Char) : Bool :=
  c.isAlpha || c == '\u017f' || c == '\u212a'

/-- A list that begins with `word`, case disregarded, without that beginning. -/
def dropFolded? : (word text : List Char) → Option (List Char)
  | [], text => some text
  | _ :: _, [] => none
  | w :: word, c :: text => if folds w c then dropFolded? word text else none

/-- The text ends here or goes on with what is no part of a word. -/
def endsWord : List Char → Bool
  | [] => true
  | c :: _ => !isWordChar c

end Text
end SheetAudit
