import SheetAudit.Selector.List
import SheetAudit.Text.Letter
import SheetAudit.Text.Search

/-!
# Specificity

A selector weighs its ids, its classes (with attributes and pseudo-classes) and its elements
(with pseudo-elements).  The pseudo-classes `:not()`, `:is()`, `:has()` and `:matches()` weigh
as much as the heaviest selector among their arguments, and `:where()` weighs nothing.

## Main definitions

* `Weight` — the three counts, compared from the ids on.
* `weigh` — the weight of a selector.
* `specificity` — the weight as one number, in the scale 100, 10, 1.
-/

namespace SheetAudit
namespace Selector

open Text

structure Weight where
  ids : Nat := 0
  classes : Nat := 0
  elements : Nat := 0
  deriving Repr, DecidableEq

namespace Weight

def add (v w : Weight) : Weight :=
  ⟨v.ids + w.ids, v.classes + w.classes, v.elements + w.elements⟩

instance : Add Weight := ⟨add⟩

def lt (v w : Weight) : Bool :=
  v.ids < w.ids ||
    (v.ids == w.ids && (v.classes < w.classes || (v.classes == w.classes && v.elements < w.elements)))

def max (v w : Weight) : Weight := if v.lt w then w else v

def ofId : Weight := { ids := 1 }

def ofClass : Weight := { classes := 1 }

def ofElement : Weight := { elements := 1 }

def score (w : Weight) : Nat := w.ids * 100 + w.classes * 10 + w.elements

end Weight

/-- Pseudo-elements that may be written with a single colon. -/
def legacyPseudoElements : List String := ["before", "after", "first-line", "first-letter"]

/-- Pseudo-classes that weigh as much as the heaviest of their arguments. -/
def forwardingPseudoClasses : List String := ["not", "is", "has", "matches"]

/-! ### Reading names and groups -/

/-- The name at the start of a text, and what follows it; a backslash takes the next character
into the name. -/
def takeName : List Char → List Char × List Char
  | [] => ([], [])
  | ['\\'] => (['\\'], [])
  | '\\' :: c :: cs => let r := takeName cs; ('\\' :: c :: r.1, r.2)
  | c :: cs =>
    if isAlphanumeric c || c == '-' || c == '_' then let r := takeName cs; (c :: r.1, r.2)
    else ([], c :: cs)

theorem length_takeName (cs : List Char) : (takeName cs).2.length ≤ cs.length := by
  fun_induction takeName cs with
  | case1 => simp
  | case2 => simp
  | case3 c cs r ih => exact Nat.le_trans ih (by simp only [List.length_cons]; omega)
  | case4 c cs _ _ _ r ih => exact Nat.le_trans ih (by simp)
  | case5 => simp

/-- The depth and the open quote after `c`; a bracket between quotes does not count. -/
def groupStep (left right : Char) (depth : Nat) (quote : Option Char) (c : Char) :
    Nat × Option Char :=
  match quote with
  | some q => (depth, if c == q then none else quote)
  | none =>
    if c == '"' || c == '\'' then (depth, some c)
    else (if c == left then depth + 1 else if c == right then depth - 1 else depth, none)

/-- What a group holds whose opening bracket has been read, and what follows the group.  A group
that is never closed loses its last character. -/
def takeGroup (left right : Char) (depth : Nat) (quote : Option Char) :
    List Char → List Char × List Char
  | [] => ([], [])
  | c :: cs =>
    if c == right && depth == 0 && quote.isNone then ([], cs)
    else
      let next := groupStep left right depth quote c
      let r := takeGroup left right next.1 next.2 cs
      (if cs.isEmpty then [] else c :: r.1, r.2)

theorem length_takeGroup (left right : Char) (depth : Nat) (quote : Option Char) (cs : List Char) :
    (takeGroup left right depth quote cs).1.length ≤ cs.length ∧
      (takeGroup left right depth quote cs).2.length ≤ cs.length := by
  induction cs generalizing depth quote with
  | nil => simp [takeGroup]
  | cons c cs ih =>
    rw [takeGroup]
    split
    · simp
    · have h := ih (groupStep left right depth quote c).1 (groupStep left right depth quote c).2
      refine ⟨?_, Nat.le_succ_of_le h.2⟩
      simp only
      split
      · simp
      · simpa using h.1

/-! ### Weighing -/

/-- A pseudo-class or pseudo-element: its arguments, if it has any, and what follows. -/
structure Pseudo where
  element : Bool
  name : String
  arguments : Option (List Char)
  rest : List Char

/-- The pseudo-class or pseudo-element whose first colon has been read. -/
def takePseudo (cs : List Char) : Pseudo :=
  let (element, cs) := match cs with | ':' :: rest => (true, rest) | _ => (false, cs)
  let (name, rest) := takeName cs
  let name := String.ofList (lowerAscii name)
  match rest with
  | '(' :: rest =>
    let (inner, rest) := takeGroup '(' ')' 0 none rest
    ⟨element, name, some inner, rest⟩
  | _ => ⟨element, name, none, rest⟩

theorem length_takePseudo (cs : List Char) :
    (takePseudo cs).rest.length ≤ cs.length ∧
      ∀ inner, (takePseudo cs).arguments = some inner → inner.length ≤ cs.length := by
  have key (element : Bool) (ds : List Char) (h : ds.length ≤ cs.length) :
      let p : Pseudo := match (takeName ds).2 with
        | '(' :: rest =>
          let r := takeGroup '(' ')' 0 none rest
          ⟨element, String.ofList (lowerAscii (takeName ds).1), some r.1, r.2⟩
        | _ => ⟨element, String.ofList (lowerAscii (takeName ds).1), none, (takeName ds).2⟩
      p.rest.length ≤ cs.length ∧
        ∀ inner, p.arguments = some inner → inner.length ≤ cs.length := by
    have hn := length_takeName ds
    intro p
    simp only [p]
    split
    · next rest heq =>
      have hg := length_takeGroup '(' ')' 0 none rest
      rw [heq] at hn
      simp only [List.length_cons] at hn
      refine ⟨by simp only; omega, fun inner hi => ?_⟩
      simp only [Option.some.injEq] at hi
      subst hi
      omega
    · exact ⟨by simp only; omega, by simp⟩
  unfold takePseudo
  split
  next element ds heq =>
  split at heq
  · next rest =>
    obtain ⟨rfl, rfl⟩ := Prod.mk.inj heq
    exact key true rest (by simp)
  · obtain ⟨rfl, rfl⟩ := Prod.mk.inj heq
    exact key false cs (Nat.le_refl _)

/-- The weight of a selector. -/
def weigh : List Char → Weight
  | [] => {}
  | c :: cs =>
    if c == '#' then .ofId + weigh (takeName cs).2
    else if c == '.' then .ofClass + weigh (takeName cs).2
    else if c == '[' then .ofClass + weigh (takeGroup '[' ']' 0 none cs).2
    else if c == ':' then
      let p := takePseudo cs
      let own : Weight :=
        if p.element || legacyPseudoElements.contains p.name then .ofElement
        else
          match _h : p.arguments with
          | some inner =>
            if forwardingPseudoClasses.contains p.name then
              (selectors inner).attach.foldl (fun w s => w.max (weigh s.1)) {}
            else if p.name == "where" then {} else .ofClass
          | none => if p.name == "where" then {} else .ofClass
      own + weigh p.rest
    else if isAlphabetic c || c == '_' then .ofElement + weigh (takeName cs).2
    else weigh cs
termination_by cs => cs.length
decreasing_by
  · exact Nat.lt_succ_of_le (length_takeName cs)
  · exact Nat.lt_succ_of_le (length_takeName cs)
  · exact Nat.lt_succ_of_le (length_takeGroup '[' ']' 0 none cs).2
  · exact Nat.lt_succ_of_le (Nat.le_trans (length_of_mem_selectors s.2)
      ((length_takePseudo cs).2 inner _h))
  · exact Nat.lt_succ_of_le (length_takePseudo cs).1
  · exact Nat.lt_succ_of_le (length_takeName cs)
  · exact Nat.lt_succ_self cs.length

/-- The weight of a selector as one number. -/
def specificity (selector : List Char) : Nat := (weigh selector).score

end Selector
end SheetAudit
