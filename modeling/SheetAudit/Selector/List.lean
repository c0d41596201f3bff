import SheetAudit.Text.Blank

/-!
# Selector lists

A selector list is separated by the commas that lie outside all parentheses and brackets.
Selectors are kept in their collapsed form, and the blank pieces of a list count for nothing.

## Main definitions

* `splitTop` — the pieces of a list between its top-level commas.
* `entries` — the selectors of a list, each with the first of its characters; the characters
  may carry any data, such as their place in a source text.
* `listed` — the selectors of a text, each with the byte offset of its first character.
* `resolve` — the selectors that a nested selector stands for under its parents.
-/

namespace SheetAudit
namespace Selector

def opens (c : Char) : Bool := c == '(' || c == '['

def closes (c : Char) : Bool := c == ')' || c == ']'

/-- How deep the text is nested after `c`; a bracket that closes nothing is passed over. -/
def deepen (depth : Nat) (c : Char) : Nat :=
  if opens c then depth + 1 else if closes c then depth - 1 else depth

/-- The pieces between the commas at depth zero; `depth` brackets are open already. -/
def splitTop {α : Type} (char : α → Char) (depth : Nat) : List α → List (List α)
  | [] => [[]]
  | x :: xs =>
    if char x == ',' && depth == 0 then [] :: splitTop char depth xs
    else
      match splitTop char (deepen depth (char x)) xs with
      | [] => [[x]]
      | piece :: pieces => (x :: piece) :: pieces

/-- The selector a piece holds, with the first of its characters. -/
def selectorOf? {α : Type} (char : α → Char) (piece : List α) : Option (α × List Char) :=
  match piece.dropWhile fun x => Text.isBlank (char x) with
  | [] => none
  | x :: xs => some (x, Text.collapse (char x :: xs.map char))

/-- The selectors of a list, each with the first of its characters. -/
def entries {α : Type} (char : α → Char) (xs : List α) : List (α × List Char) :=
  (splitTop char 0 xs).filterMap (selectorOf? char)

/-- Every character with its byte offset. -/
def withOffsets (offset : Nat) : List Char → List (Nat × Char)
  | [] => []
  | c :: cs => (offset, c) :: withOffsets (offset + c.utf8Size) cs

/-- The selectors of a text, each with the byte offset of its first character. -/
def listed (text : List Char) : List (Nat × List Char) :=
  (entries Prod.snd (withOffsets 0 text)).map fun e => (e.1.1, e.2)

/-- The selectors of a text. -/
def selectors (text : List Char) : List (List Char) := (entries id text).map Prod.snd

/-- A selector written inside rules for `parents`: every `&` stands for the parent, and without
one the selector applies to what lies below the parent. -/
def resolve (parents : List (List Char)) (child : List Char) : List (List Char) :=
  if parents.isEmpty then [child]
  else
    parents.map fun parent =>
      if child.contains '&' then child.flatMap fun c => if c == '&' then parent else [c]
      else parent ++ ' ' :: child

/-! ### Pieces -/

theorem splitTop_ne_nil {α : Type} (char : α → Char) (depth : Nat) (xs : List α) :
    splitTop char depth xs ≠ [] := by
  cases xs with
  | nil => simp [splitTop]
  | cons x xs =>
    rw [splitTop]
    split
    · simp
    · split <;> simp

/-- A character that is no comma outside brackets goes to the first piece. -/
theorem splitTop_cons {α : Type} {char : α → Char} {depth : Nat} {x : α}
    (hx : (char x == ',' && depth == 0) = false) {xs piece : List α} {pieces : List (List α)}
    (h : splitTop char (deepen depth (char x)) xs = piece :: pieces) :
    splitTop char depth (x :: xs) = (x :: piece) :: pieces := by
  rw [splitTop, if_neg (by simp [hx]), h]

/-! ### What the characters carry -/

section

variable {α β : Type} (char : β → Char) (f : α → β)

theorem splitTop_map (depth : Nat) (xs : List α) :
    splitTop char depth (xs.map f) =
      (splitTop (fun x => char (f x)) depth xs).map fun piece => piece.map f := by
  induction xs generalizing depth with
  | nil => rfl
  | cons x xs ih =>
    rw [List.map_cons, splitTop, splitTop, ih, ih]
    split
    · rfl
    · cases splitTop (fun x => char (f x)) (deepen depth (char (f x))) xs <;> rfl

theorem selectorOf?_map (piece : List α) :
    selectorOf? char (piece.map f) =
      (selectorOf? (fun x => char (f x)) piece).map fun e => (f e.1, e.2) := by
  rw [selectorOf?, selectorOf?, List.dropWhile_map, Function.comp_def]
  cases piece.dropWhile fun x => Text.isBlank (char (f x)) with
  | nil => rfl
  | cons x xs => simp [Function.comp_def]

/-- A list of other characters has the same selectors, each with the first of its characters. -/
theorem entries_map (xs : List α) :
    entries char (xs.map f) = (entries (fun x => char (f x)) xs).map fun e => (f e.1, e.2) := by
  rw [entries, entries, splitTop_map, List.filterMap_map, List.map_filterMap]
  simp only [Function.comp_def, selectorOf?_map]

end

/-! ### Lengths -/

theorem length_splitTop {α : Type} (char : α → Char) (depth : Nat) (xs : List α) :
    ∀ piece ∈ splitTop char depth xs, piece.length ≤ xs.length := by
  induction xs generalizing depth with
  | nil => simp [splitTop]
  | cons x xs ih =>
    rw [splitTop]
    split
    · intro piece hp
      rcases List.mem_cons.1 hp with rfl | hp
      · simp
      · exact Nat.le_succ_of_le (ih _ _ hp)
    · split
      · simp
      · next piece pieces heq =>
        intro p hp
        rcases List.mem_cons.1 hp with rfl | hp
        · have := ih _ piece (heq ▸ List.mem_cons_self)
          simpa using this
        · exact Nat.le_succ_of_le (ih _ p (heq ▸ List.mem_cons_of_mem _ hp))

/-- A selector of a text is no longer than the text. -/
theorem length_of_mem_selectors {text s : List Char} (h : s ∈ selectors text) :
    s.length ≤ text.length := by
  obtain ⟨⟨x, t⟩, he, rfl⟩ := List.mem_map.1 h
  obtain ⟨piece, hp, hs⟩ := List.mem_filterMap.1 he
  have hlen := length_splitTop id 0 text piece hp
  rw [selectorOf?] at hs
  split at hs
  · simp at hs
  · next y ys heq =>
    simp only [Option.some.injEq, Prod.mk.injEq] at hs
    obtain ⟨rfl, rfl⟩ := hs
    have h₁ : (y :: ys).length ≤ piece.length := by
      rw [← heq]; exact (List.dropWhile_sublist _).length_le
    have h₂ := Text.length_collapse (id y :: ys.map id)
    simp only [List.length_cons, List.length_map] at h₁ h₂ ⊢
    omega

end Selector
end SheetAudit
