/-!
# Characters in their places

A source text is read as a list of cells, characters that remember the line and the column
they were written at.  Every later stage only drops, blanks or regroups cells, so a location
is never computed: it is looked up in the cell at hand.

## Main definitions

* `Pos` — a line and a column, both counted from 1, columns in characters.
* `Cell` — a character with its position; `quoted` is set inside strings.
* `cells` — the cells of a text.
* `positionAt` — the position of a byte offset.
-/

namespace SheetAudit

/-- A line and a column, both counted from 1; columns count characters. -/
structure Pos where
  line : Nat
  column : Nat
  deriving Repr, DecidableEq, Hashable

namespace Pos

/-- Where a text begins. -/
def start : Pos := ⟨1, 1⟩

/-- The position after a character written at `p`. -/
def next (p : Pos) (c : Char) : Pos :=
  if c == '\n' then ⟨p.line + 1, 1⟩ else ⟨p.line, p.column + 1⟩

/-- Earlier in the text, or the same. -/
def le (p q : Pos) : Bool := p.line < q.line || (p.line == q.line && p.column ≤ q.column)

end Pos

namespace Source

structure Cell where
  char : Char
  pos : Pos
  /-- Whether the cell belongs to a string, its quotes included. -/
  quoted : Bool := false
  deriving Repr, DecidableEq

/-- The cells of a text that is written from `p` on. -/
def cellsFrom (p : Pos) : List Char → List Cell
  | [] => []
  | c :: cs => ⟨c, p, false⟩ :: cellsFrom (p.next c) cs

/-- The cells of a whole text. -/
def cells (text : List Char) : List Cell := cellsFrom .start text

def chars (xs : List Cell) : List Char := xs.map (·.char)

def text (xs : List Cell) : String := String.ofList (chars xs)

@[simp] theorem chars_cellsFrom (p : Pos) (cs : List Char) : chars (cellsFrom p cs) = cs := by
  induction cs generalizing p with
  | nil => rfl
  | cons c cs ih => simpa [cellsFrom, chars] using ih (p.next c)

@[simp] theorem chars_cells (cs : List Char) : chars (cells cs) = cs := chars_cellsFrom _ _

/-! ### Byte offsets -/

/-- `used` counts the bytes of the current line before `p`. -/
def positionFrom (p : Pos) (used : Nat) : List Char → Nat → Pos
  | _, 0 => p
  | [], n + 1 => ⟨p.line, used + (n + 1) + 1⟩
  | c :: cs, n + 1 =>
    if n + 1 < c.utf8Size then ⟨p.line, used + (n + 1) + 1⟩
    else
      positionFrom (p.next c) (if c == '\n' then 0 else used + c.utf8Size) cs
        (n + 1 - c.utf8Size)

/-- The position of a byte offset.  Where the offset cuts a character in two or lies beyond the
end, the column counts bytes instead of characters. -/
def positionAt (text : List Char) (offset : Nat) : Pos := positionFrom .start 0 text offset

end Source
end SheetAudit
