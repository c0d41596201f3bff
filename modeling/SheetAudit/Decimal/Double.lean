/-!
# Doubles as fractions

A finite double is a fraction `mantissa * 2 ^ exponent` with a sign, and every operation here
that the core library does not offer is carried out exactly on such fractions and rounded once
at the end.

## Main definitions

* `Double` — what a `Float` stands for; `Double.of` reads it off the bits.
* `ofRatio` — the double nearest to a quotient of natural numbers, ties to even.
* `mulAdd` — `x * y + z` rounded once.
* `remainder` — the remainder of a truncated division, with the sign of the dividend.
* `roundNat` — the nearest natural number, halves upward.
-/

namespace SheetAudit
namespace Decimal

inductive Double where
  | nan
  | infinite (negative : Bool)
  | finite (negative : Bool) (mantissa : Nat) (exponent : Int)
  deriving Repr, DecidableEq

/-- A biased exponent of zero marks the subnormals, which lack the leading bit and share the
scale of the smallest normal numbers. -/
def Double.of (x : Float) : Double :=
  let bits := x.toBits.toNat
  let negative := bits / Nat.pow 2 63 == 1
  let biased := bits / Nat.pow 2 52 % Nat.pow 2 11
  let fraction := bits % Nat.pow 2 52
  if biased == 2047 then if fraction == 0 then .infinite negative else .nan
  else if biased == 0 then .finite negative fraction (-1074)
  else .finite negative (Nat.pow 2 52 + fraction) (Int.ofNat biased - 1075)

/-- `mantissa * 2 ^ exponent` as a quotient. -/
def ratio (mantissa : Nat) (exponent : Int) : Nat × Nat :=
  if 0 ≤ exponent then (mantissa * Nat.pow 2 exponent.toNat, 1)
  else (mantissa, Nat.pow 2 (-exponent).toNat)

def signBit (negative : Bool) : Nat := if negative then Nat.pow 2 63 else 0

def infinity (negative : Bool) : Float :=
  Float.ofBits (UInt64.ofNat (signBit negative + 2047 * Nat.pow 2 52))

def nan : Float := Float.ofBits (UInt64.ofNat (2047 * Nat.pow 2 52 + Nat.pow 2 51))

/-- `num / den` rounded to a natural number, a half going to the even neighbour. -/
def divEven (num den : Nat) : Nat :=
  let q := num / den
  let r := num % den
  if 2 * r > den || (2 * r == den && q % 2 == 1) then q + 1 else q

/-- The scale of the last of the 53 bits that a double keeps of `num / den`. -/
def lastBit (num den : Nat) : Int :=
  let guess : Int := Int.ofNat num.log2 - Int.ofNat den.log2 - 52
  let fits (e : Int) : Bool :=
    if 0 ≤ e then Nat.pow 2 52 * (den * Nat.pow 2 e.toNat) ≤ num else Nat.pow 2 52 * den ≤ num * Nat.pow 2 (-e).toNat
  max (-1074) (if fits guess then guess else guess - 1)

/-- The double nearest to `num / den`, ties to even; too large a quotient is infinite. -/
def ofRatio (negative : Bool) (num den : Nat) : Float :=
  if num == 0 then Float.ofBits (UInt64.ofNat (signBit negative))
  else
    let e := lastBit num den
    let m := if 0 ≤ e then divEven num (den * Nat.pow 2 e.toNat) else divEven (num * Nat.pow 2 (-e).toNat) den
    -- a mantissa of `2 ^ 53` carries into the exponent field by itself
    let bits := if m < Nat.pow 2 52 then m else (e + 1074).toNat * Nat.pow 2 52 + m
    if bits ≥ 2047 * Nat.pow 2 52 then infinity negative
    else Float.ofBits (UInt64.ofNat (signBit negative + bits))

def ofNat (n : Nat) : Float := ofRatio false n 1

/-- `x * y + z`, rounded once. -/
def mulAdd (x y z : Float) : Float :=
  match Double.of x, Double.of y, Double.of z with
  | .finite sx mx ex, .finite sy my ey, .finite sz mz ez =>
    let e := min (ex + ey) ez
    let product : Int := mx * my * Nat.pow 2 (ex + ey - e).toNat
    let addend : Int := mz * Nat.pow 2 (ez - e).toNat
    let sum := (if sx != sy then -product else product) + (if sz then -addend else addend)
    let (num, den) := ratio sum.natAbs e
    ofRatio (sum < 0) num den
  | _, _, _ => x * y + z

/-- What truncated division of `x` by `y` leaves, with the sign of `x`. -/
def remainder (x y : Float) : Float :=
  match Double.of x, Double.of y with
  | .finite sx mx ex, .finite _ my ey =>
    if my == 0 then nan
    else
      let e := min ex ey
      let rest := mx * Nat.pow 2 (ex - e).toNat % (my * Nat.pow 2 (ey - e).toNat)
      let (num, den) := ratio rest e
      ofRatio sx num den
  | .finite .., .infinite _ => x
  | _, _ => nan

/-- The nearest natural number, halves upward, of what is not negative; nothing for what is no
finite number. -/
def roundNat (x : Float) : Option Nat :=
  match Double.of x with
  | .finite true _ _ => some 0
  | .finite false m e => let (num, den) := ratio m e; some ((2 * num + den) / (2 * den))
  | _ => none

/-- The number has no fractional part. -/
def isWhole (x : Float) : Bool :=
  match Double.of x with
  | .finite _ m e => let (num, den) := ratio m e; num % den == 0
  | _ => false

end Decimal
end SheetAudit
