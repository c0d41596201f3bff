import SheetAudit.Selector.List
import SheetAudit.Text.Letter

/-!
# Compound selectors

A selector is a chain of compounds joined by combinators: blank space, `>`, `+` and `~`.  The
last compound is the subject, the element that is styled.

## Main definitions

* `compounds` — the compounds of a selector.
* `subject`, `subjectClass` — the last compound, and the first class it names outside brackets.
* `stripPseudo` — the selector without its pseudo-classes and pseudo-elements.
-/

namespace SheetAudit
namespace Selector

open Text

/-! ### Compounds -/

/-- Separates compounds, outside brackets. -/
def isCombinator (c : Char) : Bool := isBlank c || c == '>' || c == '+' || c == '~'

/-- `current` is the compound being read, last character first. -/
def compoundsFrom (depth : Nat) (current : List Char) : List Char → List (List Char)
  | [] => if current.isEmpty then [] else [current.reverse]
  | c :: cs =>
    if isCombinator c && depth == 0 then
      if current.isEmpty then compoundsFrom depth [] cs
      else current.reverse :: compoundsFrom depth [] cs
    else compoundsFrom (deepen depth c) (c :: current) cs

def compounds (selector : List Char) : List (List Char) := compoundsFrom 0 [] selector

/-- The compound that is styled. -/
def subject (selector : List Char) : Option (List Char) := (compounds selector).getLast?

/-! ### The class of the subject -/

/-- Part of a class name as it is written; a backslash escapes what follows it. -/
def isClassChar (c : Char) : Bool := isAlphanumeric c || c == '-' || c == '_' || c == '\\'

def classFrom (depth : Nat) : List Char → Option (List Char)
  | [] => none
  | c :: cs =>
    if c == '.' && depth == 0 then
      let name := cs.takeWhile isClassChar
      if name.isEmpty then classFrom depth cs else some name
    else classFrom (deepen depth c) cs

/-- The first class that the subject names outside brackets. -/
def subjectClass (selector : List Char) : Option (List Char) :=
  (subject selector).bind (classFrom 0)

/-! ### Pseudo-classes and pseudo-elements -/

def isNameChar (c : Char) : Bool := isAlphanumeric c || c == '-' || c == '_'

/-- What follows the parenthesis that closes the last of `depth + 1` open ones. -/
def afterParens (depth : Nat) : List Char → List Char
  | [] => []
  | c :: cs =>
    if c == ')' && depth == 0 then cs
    else afterParens (if c == '(' then depth + 1 else if c == ')' then depth - 1 else depth) cs

/-- What follows a pseudo-class whose first colon has been read. -/
def afterPseudo (cs : List Char) : List Char :=
  let cs := match cs with | ':' :: rest => rest | _ => cs
  match cs.dropWhile isNameChar with
  | '(' :: rest => afterParens 0 rest
  | rest => rest

theorem length_afterParens (depth : Nat) (cs : List Char) :
    (afterParens depth cs).length ≤ cs.length := by
  induction cs generalizing depth with
  | nil => simp [afterParens]
  | cons c cs ih =>
    rw [afterParens]
    split
    · simp
    · exact Nat.le_succ_of_le (ih _)

theorem length_afterPseudo (cs : List Char) : (afterPseudo cs).length ≤ cs.length := by
  have drop (xs : List Char) : (xs.dropWhile isNameChar).length ≤ xs.length :=
    (List.dropWhile_sublist _).length_le
  have tail (xs : List Char) :
      (match xs.dropWhile isNameChar with
        | '(' :: rest => afterParens 0 rest
        | rest => rest).length ≤ xs.length := by
    have h := drop xs
    split
    · next rest heq =>
      have := length_afterParens 0 rest
      rw [heq] at h
      simp only [List.length_cons] at h
      omega
    · exact h
  unfold afterPseudo
  split
  · exact Nat.le_succ_of_le (tail _)
  · exact tail _

/-- `bracket` counts the square brackets that are open; a colon inside them is no pseudo-class. -/
def stripFrom (bracket : Nat) : List Char → List Char
  | [] => []
  | c :: cs =>
    if c == '[' then c :: stripFrom (bracket + 1) cs
    else if c == ']' then c :: stripFrom (bracket - 1) cs
    else if c == ':' && bracket == 0 then stripFrom bracket (afterPseudo cs)
    else c :: stripFrom bracket cs
termination_by cs => cs.length
decreasing_by
  all_goals simp_wf
  have := length_afterPseudo cs
  omega

/-- The selector without its pseudo-classes and pseudo-elements. -/
def stripPseudo (selector : List Char) : List Char := collapse (stripFrom 0 selector)

end Selector
end SheetAudit
