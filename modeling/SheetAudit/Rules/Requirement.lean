import SheetAudit.Text.Blank
import SheetAudit.Text.Letter

/-!
# References to requirements

Comments refer to requirements by number.  The one proper form is `REQ-` and at least three
digits; any other spelling of the word before a number is a reference too, but a malformed one.

## Main definitions

* `take?` — the reference at the start of a text.
* `references` — the references of a text.
* `isProper` — the reference has the proper form.
* `proper` — the reference in the proper form.
-/

namespace SheetAudit
namespace Requirement

open Text

/-! ### Finding references -/

/-- Stands between the word and the number. -/
def isSeparator (c : Char) : Bool := isBlank c || "_#:.-".toList.contains c

/-- The number at the start of a text, with the separators before it. -/
def takeNumber? (cs : List Char) : Option (List Char) :=
  let digits := (cs.dropWhile isSeparator).takeWhile isDecimalDigit
  if digits.isEmpty then none else some (cs.takeWhile isSeparator ++ digits)

/-- Words for a requirement; where one begins with another, the longer comes first. -/
def wordForms : List String := ["requirements", "requirement", "reqs", "req"]

/-- The reference at the start of a text. -/
def take? (cs : List Char) : Option (List Char) :=
  wordForms.findSome? fun word =>
    (dropFolded? word.toList cs).bind fun rest =>
      (takeNumber? rest).map fun number => cs.take word.length ++ number

/-- `inWord` tells whether the character before is part of a word; the next `skip` characters
belong to a reference already. -/
def referencesFrom (inWord : Bool) (skip : Nat) : List Char → List (List Char)
  | [] => []
  | c :: cs =>
    match skip, if inWord then none else take? (c :: cs) with
    | n + 1, _ => referencesFrom (isWordChar c) n cs
    | 0, some reference => reference :: referencesFrom (isWordChar c) (reference.length - 1) cs
    | 0, none => referencesFrom (isWordChar c) 0 cs

/-- The references of a text; each is looked for after the end of the one before. -/
def references (text : List Char) : List (List Char) := referencesFrom false 0 text

/-! ### The proper form -/

def isProper (reference : List Char) : Bool :=
  match "REQ-".toList.isPrefixOf? reference with
  | some digits => digits.length ≥ 3 && digits.all isDecimalDigit
  | none => false

/-- The reference in the proper form; digits of other scripts are left out. -/
def proper (reference : List Char) : List Char :=
  let number := (reference.filter Char.isDigit).dropWhile (· == '0')
  "REQ-".toList ++ List.replicate (3 - number.length) '0' ++ number

end Requirement
end SheetAudit
