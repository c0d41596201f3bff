import SheetAudit.Offsets.Text

/-!
# Lines by offsets

Where many offsets of one text are looked up, the beginnings of its lines are gathered once.  They
stand in ascending order, so the line of an offset is found by halving.

## Main definitions

* `bisect` — the number of entries of a list that do not exceed a bound, found by halving.
* `LineIndex` — a text with the offsets at which its lines begin.
* `LineIndex.position` — the line and the column of an offset.
-/

namespace SheetAudit
namespace Offsets

/-- The number of entries up to `n` in a list where they come first.  It lies between `low` and
`high`, and the entry between these tells in which half. -/
def bisect (xs : List Nat) (n low high : Nat) : Except Fault Nat :=
  if low < high then
    match xs[(low + high) / 2]? with
    | none => .error (.index ((low + high) / 2))
    | some x =>
      if x ≤ n then bisect xs n ((low + high) / 2 + 1) high
      else bisect xs n low ((low + high) / 2)
  else .ok low
termination_by high - low

/-- A text with the offsets at which its lines begin. -/
structure LineIndex where
  text : List Char
  starts : List Nat := lineStarts (encode text)
  starts_eq : starts = lineStarts (encode text) := by rfl

namespace LineIndex

def of (text : List Char) : LineIndex := { text }

/-- The line and the column of an offset.  Columns count characters, or bytes where the offset cuts
a character in two or lies beyond the end. -/
def position (index : LineIndex) (offset : Nat) : Except Fault Pos := do
  let line := (← bisect index.starts offset 0 index.starts.length) - 1
  match index.starts[line]? with
  | none => .error (.index line)
  | some start =>
    let bytes ← minus offset start
    let column :=
      match slice index.text start offset with
      | .ok text => text.length
      | .error _ => bytes
    return ⟨line + 1, column + 1⟩

end LineIndex
end Offsets
end SheetAudit
