import SheetAudit.Offsets.Selector
import SheetAudit.Selector.Specificity

/-!
# Specificity by indices

A selector is weighed by a loop over the indices of its characters.  The loop goes on behind names
and groups, cuts texts out between two indices, and weighs the selectors among the arguments of a
pseudo-class in their turn.  It may break down where a reading of the text itself cannot: a range
may be turned around or lie beyond the end, a sum may be too large for its counter, and loops and
weighings that call for one another may never end.

## Main definitions

* `Breakdown` — why a weighing does not come to its end.
* `charsBetween`, `skipName`, `skipGroup` — texts and names by their indices.
* `callAt`, `pseudoAt` — a pseudo-class or pseudo-element, and the index behind it.
* `weight`, `specificity` — the weight of a selector, and its weight as one number.
-/

namespace SheetAudit
namespace Offsets

open Selector Text

/-- Why a weighing does not come to its end. -/
inductive Breakdown where
  | fault (f : Fault)
  /-- A number is larger than its counter holds. -/
  | overflow
  /-- The steps do not suffice. -/
  | endless
  deriving Repr, DecidableEq

instance : MonadLift (Except Fault) (Except Breakdown) := ⟨fun r => r.mapError .fault⟩

/-! ### Counters -/

/-- The number, if a counter up to `limit` holds it; a counter without a limit holds all. -/
def hold (limit : Option Nat) (n : Nat) : Except Breakdown Nat :=
  if limit.all fun l => n ≤ l then .ok n else .error .overflow

/-- The sum of two weights, count by count. -/
def addWeights (limit : Option Nat) (v w : Weight) : Except Breakdown Weight :=
  return ⟨← hold limit (v.ids + w.ids), ← hold limit (v.classes + w.classes),
    ← hold limit (v.elements + w.elements)⟩

/-! ### Names and groups -/

/-- The characters between two indices. -/
def charsBetween (chars : List Char) (start stop : Nat) : Except Fault (List Char) :=
  if start ≤ stop ∧ stop ≤ chars.length then .ok ((chars.take stop).drop start)
  else .error (.range start stop)

/-- The index behind a name; a backslash takes the next character into the name. -/
def skipName (chars : List Char) (i : Nat) : Nat :=
  match _h : chars[i]? with
  | none => min i chars.length
  | some c =>
    if c == '\\' then skipName chars (i + 2)
    else if isAlphanumeric c || c == '-' || c == '_' then skipName chars (i + 1)
    else min i chars.length
termination_by chars.length - i
decreasing_by
  all_goals
    have := (List.getElem?_eq_some_iff.1 _h).1
    omega

/-- The index behind the bracket that closes the last of `depth` open ones, in a text from `i` on;
a bracket between quotes does not count. -/
def groupEnd? (left right : Char) (depth : Nat) (quote : Option Char) (i : Nat) :
    List Char → Option Nat
  | [] => none
  | c :: cs =>
    match quote with
    | some q => groupEnd? left right depth (if c == q then none else some q) (i + 1) cs
    | none =>
      if c == '"' || c == '\'' then groupEnd? left right depth (some c) (i + 1) cs
      else if c == left then groupEnd? left right (depth + 1) none (i + 1) cs
      else if c == right then
        if depth - 1 == 0 then some (i + 1)
        else groupEnd? left right (depth - 1) none (i + 1) cs
      else groupEnd? left right depth none (i + 1) cs

/-- The index behind a group that opens at `start`; one that is never closed reaches to the end. -/
def skipGroup (left right : Char) (chars : List Char) (start : Nat) : Nat :=
  (groupEnd? left right 0 none start (chars.drop start)).getD chars.length

/-! ### Pseudo-classes -/

/-- A pseudo-class or pseudo-element: its arguments, if it has any, and the index behind it. -/
structure PseudoAt where
  element : Bool
  name : String
  arguments : Option (List Char)
  next : Nat

/-- A name with its arguments, if any; `element` tells whether two colons stand before it. -/
def callAt (element : Bool) (chars : List Char) (start : Nat) : Except Fault PseudoAt := do
  let stop := skipName chars start
  let name := String.ofList (lowerAscii (← charsBetween chars start stop))
  if chars[stop]? == some '(' then
    let close := skipGroup '(' ')' chars stop
    let inner ← charsBetween chars (stop + 1) (max (close - 1) (stop + 1))
    return ⟨element, name, some inner, close⟩
  else return ⟨element, name, none, stop⟩

/-- The pseudo-class or pseudo-element whose first colon stands at an index. -/
def pseudoAt (chars : List Char) (i : Nat) : Except Fault PseudoAt :=
  if chars[i + 1]? == some ':' then callAt true chars (i + 2) else callAt false chars (i + 1)

/-! ### Weighing -/

/-- The heaviest of the selectors of a list. -/
def heaviest (weight : List Char → Except Breakdown Weight) (list : List Char) :
    Except Breakdown Weight := do
  let weights ← (← splitList list).mapM fun s => weight s.2
  return weights.foldl Weight.max {}

/-- What a pseudo-class or pseudo-element adds to the weight. -/
def PseudoAt.weight (weight : List Char → Except Breakdown Weight) (p : PseudoAt) :
    Except Breakdown Weight :=
  if p.element || legacyPseudoElements.contains p.name then return .ofElement
  else
    match p.arguments with
    | some inner =>
      if forwardingPseudoClasses.contains p.name then heaviest weight inner
      else return if p.name == "where" then {} else .ofClass
    | none => return if p.name == "where" then {} else .ofClass

/-- The weight of a selector from an index on, added to what was counted before it.  A round of the
loop and a weighing of arguments take one of the steps. -/
def weightFrom (limit : Option Nat) : (steps : Nat) → (chars : List Char) → (i : Nat) →
    (total : Weight) → Except Breakdown Weight
  | 0, _, _, _ => .error .endless
  | steps + 1, chars, i, total =>
    match chars[i]? with
    | none => .ok total
    | some c =>
      if c == '#' then do
        weightFrom limit steps chars (skipName chars (i + 1)) (← addWeights limit total .ofId)
      else if c == '.' then do
        weightFrom limit steps chars (skipName chars (i + 1)) (← addWeights limit total .ofClass)
      else if c == '[' then do
        weightFrom limit steps chars (skipGroup '[' ']' chars i) (← addWeights limit total .ofClass)
      else if c == ':' then do
        let p ← pseudoAt chars i
        let own ← p.weight fun s => weightFrom limit steps s 0 {}
        weightFrom limit steps chars p.next (← addWeights limit total own)
      else if isAlphabetic c || c == '_' then do
        weightFrom limit steps chars (skipName chars i) (← addWeights limit total .ofElement)
      else weightFrom limit steps chars (i + 1) total

/-- The weight of a selector. -/
def weight (limit : Option Nat) (steps : Nat) (selector : List Char) : Except Breakdown Weight :=
  weightFrom limit steps selector 0 {}

/-- The weight of a selector as one number. -/
def specificity (limit : Option Nat) (steps : Nat) (selector : List Char) :
    Except Breakdown Nat := do
  let w ← weight limit steps selector
  let ids ← hold limit (w.ids * 100)
  let classes ← hold limit (w.classes * 10)
  hold limit ((← hold limit (ids + classes)) + w.elements)

end Offsets
end SheetAudit
