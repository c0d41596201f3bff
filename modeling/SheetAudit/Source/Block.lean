import SheetAudit.Source.Cell

/-!
# Statements and blocks

Text without comments is structured by braces and semicolons.  Those inside strings mean
nothing; a string runs from a quote to the next quote of its kind, across lines, and a
backslash takes away the meaning of the character after it.  A statement is ended by the first
brace or semicolon outside parentheses, whereas the end of a block is found by counting braces
alone.

## Main definitions

* `markStrings` — marks the cells that belong to strings.
* `Cut`, `cut` — the text before the next delimiter, the delimiter, and what follows it.
* `takeBlock` — the content of a block whose opening brace has been read, and what follows it.
* `topLevelBlocks` — how many blocks a text has that lie in no other block.
-/

namespace SheetAudit
namespace Source

/-! ### Strings -/

/-- `quote` is the quote of the string being read, if any. -/
def markFrom (quote : Option Char) : List Cell → List Cell
  | [] => []
  | x :: xs =>
    match quote with
    | some q =>
      { x with quoted := true } ::
        if x.char == '\\' then
          match xs with
          | [] => []
          | y :: ys => { y with quoted := true } :: markFrom quote ys
        else markFrom (if x.char == q then none else quote) xs
    | none =>
      if x.char == '"' || x.char == '\'' then
        { x with quoted := true } :: markFrom (some x.char) xs
      else { x with quoted := false } :: markFrom none xs

/-- Marks the cells that belong to strings. -/
def markStrings (xs : List Cell) : List Cell := markFrom none xs

/-- The character `c`, outside strings. -/
def Cell.is (x : Cell) (c : Char) : Bool := !x.quoted && x.char == c

/-! ### The end of a statement -/

/-- What ends a statement. -/
inductive Stop where
  | openBrace (pos : Pos)
  | closeBrace (pos : Pos)
  | semicolon
  | finish
  deriving Repr, DecidableEq

structure Cut where
  before : List Cell
  stop : Stop
  after : List Cell
  deriving Repr

/-- `depth` counts the parentheses that are open. -/
def cutFrom (depth : Nat) : List Cell → Cut
  | [] => ⟨[], .finish, []⟩
  | x :: xs =>
    if x.is '{' && depth == 0 then ⟨[], .openBrace x.pos, xs⟩
    else if x.is '}' && depth == 0 then ⟨[], .closeBrace x.pos, xs⟩
    else if x.is ';' && depth == 0 then ⟨[], .semicolon, xs⟩
    else
      let c := cutFrom (if x.is '(' then depth + 1 else if x.is ')' then depth - 1 else depth) xs
      { c with before := x :: c.before }

/-- The text before the next brace or semicolon outside parentheses, and what follows it. -/
def cut (xs : List Cell) : Cut := cutFrom 0 xs

theorem length_after_cutFrom (depth : Nat) (xs : List Cell) :
    (cutFrom depth xs).after.length ≤ xs.length - 1 := by
  induction xs generalizing depth with
  | nil => simp [cutFrom]
  | cons x xs ih =>
    rw [cutFrom]
    split
    · simp
    split
    · simp
    split
    · simp
    · exact Nat.le_trans (ih _) (by simp)

/-- A cut that does not reach the end takes a delimiter away. -/
theorem length_after_cut_lt {x : Cell} {xs : List Cell} :
    (cut (x :: xs)).after.length < (x :: xs).length :=
  Nat.lt_of_le_of_lt (length_after_cutFrom 0 (x :: xs)) (by simp)

/-! ### The end of a block -/

/-- `depth` counts the blocks that were opened inside. -/
def takeBlockFrom (depth : Nat) : List Cell → Option (List Cell × List Cell)
  | [] => none
  | x :: xs =>
    if x.is '}' && depth == 0 then some ([], xs)
    else
      (takeBlockFrom (if x.is '{' then depth + 1 else if x.is '}' then depth - 1 else depth) xs).map
        fun r => (x :: r.1, r.2)

/-- The content of a block whose opening brace has been read, and what follows its end. -/
def takeBlock (xs : List Cell) : Option (List Cell × List Cell) := takeBlockFrom 0 xs

theorem length_of_takeBlockFrom {depth : Nat} {xs inner rest : List Cell}
    (h : takeBlockFrom depth xs = some (inner, rest)) :
    inner.length + rest.length < xs.length := by
  induction xs generalizing depth inner with
  | nil => simp [takeBlockFrom] at h
  | cons x xs ih =>
    rw [takeBlockFrom] at h
    split at h
    · simp only [Option.some.injEq, Prod.mk.injEq] at h
      obtain ⟨rfl, rfl⟩ := h
      simp
    · obtain ⟨⟨i, r⟩, hr, heq⟩ := Option.map_eq_some_iff.1 h
      simp only [Prod.mk.injEq] at heq
      obtain ⟨rfl, rfl⟩ := heq
      have := ih hr
      simp only [List.length_cons]
      omega

theorem length_of_takeBlock {xs inner rest : List Cell}
    (h : takeBlock xs = some (inner, rest)) : inner.length + rest.length < xs.length :=
  length_of_takeBlockFrom h

/-! ### Counting blocks -/

/-- A block without an end is counted and ends the count. -/
def countBlocks (xs : List Cell) : Nat :=
  match xs with
  | [] => 0
  | x :: xs =>
    let c := cut (x :: xs)
    match c.stop with
    | .openBrace _ =>
      match _h : takeBlock c.after with
      | some (_, rest) => countBlocks rest + 1
      | none => 1
    | .finish => 0
    | _ => countBlocks c.after
termination_by xs.length
decreasing_by
  · have h₁ : _ < (cut (x :: xs)).after.length := length_of_takeBlock _h
    have h₂ := @length_after_cut_lt x xs
    omega
  · exact length_after_cut_lt

/-- The number of blocks of a text that lie in no other block. -/
def topLevelBlocks (xs : List Cell) : Nat := countBlocks (markStrings xs)

end Source
end SheetAudit
