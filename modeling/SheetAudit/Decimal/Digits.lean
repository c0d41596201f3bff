import SheetAudit.Decimal.Double

/-!
# Decimal text of doubles

A double is written either with the fewest digits that read back as the same double, or with
a fixed number of decimals.  Neither form ever uses an exponent.

## Main definitions

* `shortest` — the fewest digits that read back, the nearest such decimal when there are several.
* `fixed` — a given number of decimals, a half going to the even neighbour.
-/

namespace SheetAudit
namespace Decimal

/-- The decimal digits of a natural number. -/
def digits (n : Nat) : List Char := Nat.toDigits 10 n

/-- `n` with at least `width` digits. -/
def padded (width n : Nat) : List Char :=
  let ds := digits n
  List.replicate (width - ds.length) '0' ++ ds

/-- `n / 10 ^ places` written with that many decimals, and without a point when there are none. -/
def pointed (places n : Nat) : List Char :=
  if places == 0 then digits n
  else digits (n / Nat.pow 10 places) ++ '.' :: padded places (n % Nat.pow 10 places)

def signed (negative : Bool) (cs : List Char) : List Char :=
  if negative then '-' :: cs else cs

/-! ### A fixed number of decimals -/

/-- `x` with `places` decimals. -/
def fixed (places : Nat) (x : Float) : String :=
  String.ofList <|
    match Double.of x with
    | .nan => "NaN".toList
    | .infinite s => signed s "inf".toList
    | .finite s m e =>
      let (num, den) := ratio m e
      signed s (pointed places (divEven (num * Nat.pow 10 places) den))

/-! ### The fewest digits -/

/-- The interval of numbers that read back as the double `mantissa * 2 ^ exponent`, in units of
`2 ^ (exponent - 2)`: its two ends, and whether they belong to it.  Below a power of two the
neighbouring double is only half as far away. -/
structure Interval where
  low : Nat
  high : Nat
  closed : Bool

def interval (m : Nat) (e : Int) : Interval where
  low := if m == Nat.pow 2 52 && e != -1074 then 4 * m - 1 else 4 * m - 2
  high := 4 * m + 2
  closed := m % 2 == 0

/-- The decimal `coefficient * 10 ^ scale`. -/
structure Candidate where
  coefficient : Nat
  scale : Int

/-- The value `c` brought to a common denominator with multiples of `2 ^ e`: a pair `(c', u)` such
that `c` is to `n * 2 ^ e` as `c'` to `n * u`. -/
def Candidate.compareAt (c : Candidate) (e : Int) : Nat × Nat :=
  let up := if 0 ≤ c.scale then Nat.pow 10 c.scale.toNat else 1
  let down := if 0 ≤ c.scale then 1 else Nat.pow 10 (-c.scale).toNat
  let shiftUp := if 0 ≤ e then Nat.pow 2 e.toNat else 1
  let shiftDown := if 0 ≤ e then 1 else Nat.pow 2 (-e).toNat
  (c.coefficient * up * shiftDown, shiftUp * down)

/-- The candidate reads back as the double. -/
def Candidate.readsBack (m : Nat) (e : Int) (c : Candidate) : Bool :=
  let i := interval m e
  let (v, unit) := c.compareAt (e - 2)
  if i.closed then i.low * unit ≤ v && v ≤ i.high * unit
  else i.low * unit < v && v < i.high * unit

/-- How far the candidate lies from the double, in a unit that depends on its scale only. -/
def Candidate.distance (m : Nat) (e : Int) (c : Candidate) : Nat :=
  let (v, unit) := c.compareAt (e - 2)
  if v ≤ 4 * m * unit then 4 * m * unit - v else v - 4 * m * unit

/-- Of the two neighbours of the double on the grid of `10 ^ scale`, the nearer one that reads
back. -/
def onGrid (m : Nat) (e : Int) (scale : Int) : Option Candidate :=
  let (num, den) := ratio m e
  let below :=
    if 0 ≤ scale then num / (den * Nat.pow 10 scale.toNat) else num * Nat.pow 10 (-scale).toNat / den
  let a : Candidate := ⟨below, scale⟩
  let b : Candidate := ⟨below + 1, scale⟩
  match a.readsBack m e, b.readsBack m e with
  | true, true => if b.distance m e < a.distance m e then some b else some a
  | true, false => some a
  | false, true => some b
  | false, false => none

/-- The grids from the coarsest, `10 ^ scale`, to finer and finer ones. -/
def firstGrid (m : Nat) (e : Int) : Nat → Int → Candidate
  | 0, scale => (onGrid m e scale).getD ⟨0, scale⟩
  | n + 1, scale => (onGrid m e scale).getD (firstGrid m e n (scale - 1))

/-- An exponent of ten that the double does not exceed: `2 ^ 10` is more than `10 ^ 3`, so the
length in bits bounds the length in digits. -/
def topScale (m : Nat) (e : Int) : Int :=
  let bits : Int := Int.ofNat m.log2 + 1 + e
  if 0 ≤ bits then bits * 1233 / 4096 + 1 else -((-bits) * 1233 / 4096)

/-- Without trailing zeros among the decimals. -/
def Candidate.trimmed : Nat → Candidate → Candidate
  | 0, c => c
  | n + 1, c =>
    if c.scale < 0 && c.coefficient % 10 == 0 then Candidate.trimmed n ⟨c.coefficient / 10, c.scale + 1⟩
    else c

def Candidate.text (c : Candidate) : List Char :=
  if 0 ≤ c.scale then digits (c.coefficient * Nat.pow 10 c.scale.toNat)
  else pointed (-c.scale).toNat c.coefficient

/-- The fewest digits that read back as `x`. -/
def shortest (x : Float) : String :=
  String.ofList <|
    match Double.of x with
    | .nan => "NaN".toList
    | .infinite s => signed s "inf".toList
    | .finite s 0 _ => signed s ['0']
    | .finite s m e =>
      let c := firstGrid m e 20 (topScale m e)
      signed s (Candidate.trimmed (-c.scale).toNat c).text

end Decimal
end SheetAudit
