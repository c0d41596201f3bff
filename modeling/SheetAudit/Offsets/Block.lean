import SheetAudit.Offsets.Comment

/-!
# Statements and blocks by offsets

The end of a statement and the end of a block are found by one scan of the bytes of a range.  It
passes over strings, and looks at the bytes outside them one by one.

## Main definitions

* `scan` — looks at the bytes of a range outside strings until one of them ends the scan.
* `findDelimiter` — the offset at which a statement ends, and what ends it.
* `matchingBrace` — the offset of the brace that closes a block.
* `skipSpace` — the offset behind the space at the start of a range.
-/

namespace SheetAudit
namespace Offsets

/-! ### Scanning -/

/-- What a scan makes of a byte outside strings: it goes on, or ends with a result. -/
inductive Look (σ ρ : Type) where
  | pass (state : σ)
  | found (result : ρ)

/-- The string being read after one of its bytes, if it was not the quote that ends it. -/
def stringAfter (quote b : UInt8) : Option UInt8 := if b == quote then none else some quote

section

variable {σ ρ : Type} (look : σ → UInt8 → Except Fault (Look σ ρ)) (bs : List UInt8) (stop : Nat)

/-- The first byte of a range that ends the scan, with its result.  `quote` is the quote of the
string being read, if any; an escape takes the next byte along, which may lie beyond the range. -/
def scan (i : Nat) (quote : Option UInt8) (state : σ) : Except Fault (Option (Nat × ρ)) :=
  if i < stop then do
    let b ← byteAt bs i
    match quote with
    | some q =>
      if b == '\\'.toUInt8 then scan (i + 2) quote state
      else scan (i + 1) (stringAfter q b) state
    | none =>
      if isQuoteByte b then scan (i + 1) (some b) state
      else
        match ← look state b with
        | .pass state => scan (i + 1) none state
        | .found result => return some (i, result)
  else return none
termination_by stop - i

/-- What a scan finds lies in its range. -/
theorem bounds_of_scan {i n : Nat} {quote : Option UInt8} {state : σ} {result : ρ}
    (h : scan look bs stop i quote state = .ok (some (n, result))) : i ≤ n ∧ n < stop := by
  fun_induction scan look bs stop i quote state with
  | case1 i quote state hi ihEscape ihString ihQuote ihPass =>
    obtain ⟨b, -, h⟩ := exists_of_bind_eq_ok h
    cases quote with
    | some q =>
      dsimp only at h
      split at h
      · have := ihEscape h
        omega
      · have := ihString b q h
        omega
    | none =>
      dsimp only at h
      split at h
      · have := ihQuote b h
        omega
      · obtain ⟨l, -, h⟩ := exists_of_bind_eq_ok h
        cases l with
        | pass state =>
          have := ihPass state h
          omega
        | found result =>
          cases h
          omega
  | case2 => cases h

end

/-! ### The end of a statement -/

/-- What ends a statement. -/
inductive Delimiter where
  | openBrace
  | closeBrace
  | semicolon
  | finish
  deriving Repr, DecidableEq

/-- `depth` counts the parentheses that are open. -/
def lookForDelimiter (depth : Nat) (b : UInt8) : Look Nat Delimiter :=
  if b == '('.toUInt8 then .pass (depth + 1)
  else if b == ')'.toUInt8 then .pass (depth - 1)
  else if b == '{'.toUInt8 && depth == 0 then .found .openBrace
  else if b == '}'.toUInt8 && depth == 0 then .found .closeBrace
  else if b == ';'.toUInt8 && depth == 0 then .found .semicolon
  else .pass depth

/-- The offset of the next brace or semicolon outside strings and parentheses, or the end. -/
def findDelimiter (bs : List UInt8) (start stop : Nat) : Except Fault (Nat × Delimiter) := do
  let found ← scan (fun depth b => .ok (lookForDelimiter depth b)) bs stop start none 0
  return found.getD (stop, .finish)

theorem le_of_findDelimiter {bs : List UInt8} {start stop n : Nat} {d : Delimiter}
    (hle : start ≤ stop) (h : findDelimiter bs start stop = .ok (n, d)) : start ≤ n := by
  obtain ⟨found, hscan, h⟩ := exists_of_bind_eq_ok h
  cases found with
  | none =>
    cases h
    exact hle
  | some r =>
    cases h
    exact (bounds_of_scan _ _ _ hscan).1

/-! ### The end of a block -/

/-- `depth` counts the braces that are open. -/
def lookForBrace (depth : Nat) (b : UInt8) : Except Fault (Look Nat Unit) :=
  if b == '{'.toUInt8 then .ok (.pass (depth + 1))
  else if b == '}'.toUInt8 then do
    let depth ← minus depth 1
    return if depth == 0 then .found () else .pass depth
  else .ok (.pass depth)

/-- The offset of the brace that closes the one at `start`. -/
def matchingBrace (bs : List UInt8) (start stop : Nat) : Except Fault (Option Nat) := do
  return (← scan lookForBrace bs stop start none 0).map (·.1)

theorem bounds_of_matchingBrace {bs : List UInt8} {start stop n : Nat}
    (h : matchingBrace bs start stop = .ok (some n)) : start ≤ n ∧ n < stop := by
  obtain ⟨found, hscan, h⟩ := exists_of_bind_eq_ok h
  obtain ⟨⟨m, u⟩, rfl, rfl⟩ := Option.map_eq_some_iff.1 (Except.ok.inj h)
  exact bounds_of_scan _ _ _ hscan

/-! ### Space -/

/-- The first offset of a range that holds no space, or its end. -/
def skipSpace (bs : List UInt8) (i stop : Nat) : Except Fault Nat :=
  if i < stop then do
    if isSpaceByte (← byteAt bs i) then skipSpace bs (i + 1) stop else return i
  else return i
termination_by stop - i

end Offsets
end SheetAudit
