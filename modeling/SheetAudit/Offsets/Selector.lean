import SheetAudit.Offsets.Text
import SheetAudit.Selector.Compound

/-!
# Selectors by offsets

A selector list is cut at the offsets of its commas, and the class of a subject is read from the
offset after its full stop.

## Main definitions

* `splitList` — the selectors of a list, each with the offset of its first character.
* `subjectClass` — the first class that the subject of a selector names.
-/

namespace SheetAudit
namespace Offsets

open Selector Text

/-- The selector between two offsets of a list, with the offset of its first character. -/
def partAt (list : List Char) (start stop : Nat) : Except Fault (List (Nat × List Char)) := do
  let raw ← slice list start stop
  let leading ← minus (size raw) (size (trimLeft raw))
  return if (collapse raw).isEmpty then [] else [(start + leading, collapse raw)]

/-- The selectors from `start` on, when the text from `i` on is still to be searched for commas. -/
def splitListFrom (list : List Char) (depth start i : Nat) :
    List Char → Except Fault (List (Nat × List Char))
  | [] => partAt list start (size list)
  | c :: cs =>
    if c == ',' && depth == 0 then do
      let part ← partAt list start i
      return part ++ (← splitListFrom list depth (i + 1) (i + c.utf8Size) cs)
    else splitListFrom list (deepen depth c) start (i + c.utf8Size) cs

/-- The selectors of a list, each with the offset of its first character. -/
def splitList (list : List Char) : Except Fault (List (Nat × List Char)) :=
  splitListFrom list 0 0 0 list

/-- The first class of the subject from `i` on. -/
def classFrom (subject : List Char) (depth i : Nat) : List Char → Except Fault (Option (List Char))
  | [] => .ok none
  | c :: cs =>
    if c == '.' && depth == 0 then do
      let name := (← slice subject (i + 1) (size subject)).takeWhile isClassChar
      if name.isEmpty then classFrom subject depth (i + c.utf8Size) cs else return some name
    else classFrom subject (deepen depth c) (i + c.utf8Size) cs

/-- The first class that the subject names outside brackets. -/
def subjectClass (selector : List Char) : Except Fault (Option (List Char)) :=
  match subject selector with
  | none => .ok none
  | some subject => classFrom subject 0 0 subject

end Offsets
end SheetAudit
