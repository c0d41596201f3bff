import SheetAudit.Decimal.Double
import SheetAudit.Text.Search

/-!
# Reading decimal numbers

A decimal number is an optional sign, digits with at most one point among or around them,
and an optional exponent; `inf`, `infinity` and `nan` are read too, in any letter case.  The
result is the double nearest to the number that is written.

## Main definitions

* `read?` — the double a text denotes, if it is a number from end to end.
-/

namespace SheetAudit
namespace Decimal

def digitValue (c : Char) : Nat := c.toNat - '0'.toNat

/-- The number that a list of decimal digits denotes. -/
def valueOf (ds : List Char) : Nat := ds.foldl (fun n c => 10 * n + digitValue c) 0

/-- A sign, if there is one: whether it is a minus, and what follows. -/
def takeSign : List Char → Bool × List Char
  | '-' :: cs => (true, cs)
  | '+' :: cs => (false, cs)
  | cs => (false, cs)

/-- An exponent and nothing after it; no text at all is the exponent zero. -/
def exponent? : List Char → Option Int
  | [] => some 0
  | c :: cs =>
    if c == 'e' || c == 'E' then
      let (negative, ds) := takeSign cs
      if ds.isEmpty || !ds.all Char.isDigit then none
      else some (if negative then -(valueOf ds : Int) else valueOf ds)
    else none

/-- The double nearest to `mantissa * 10 ^ scale`.  Outside a range that is generous for the
length of the mantissa the result is zero or infinite without any computation. -/
def scaled (negative : Bool) (mantissa : Nat) (scale : Int) : Float :=
  let length : Int := (Nat.toDigits 10 mantissa).length
  if mantissa == 0 || length + scale < -400 then ofRatio negative 0 1
  else if length + scale > 400 then infinity negative
  else if 0 ≤ scale then ofRatio negative (mantissa * Nat.pow 10 scale.toNat) 1
  else ofRatio negative mantissa (Nat.pow 10 (-scale).toNat)

/-- The double that a text denotes, if it is a number from end to end. -/
def read? (cs : List Char) : Option Float :=
  let (negative, cs) := takeSign cs
  let word := String.ofList (Text.lowerAscii cs)
  if word == "inf" || word == "infinity" then some (infinity negative)
  else if word == "nan" then some nan
  else
    let whole := cs.takeWhile Char.isDigit
    let rest := cs.dropWhile Char.isDigit
    let (part, rest) :=
      match rest with
      | '.' :: rest => (rest.takeWhile Char.isDigit, rest.dropWhile Char.isDigit)
      | _ => ([], rest)
    if whole.isEmpty && part.isEmpty then none
    else
      (exponent? rest).map fun e =>
        scaled negative (valueOf (whole ++ part)) (e - part.length)

end Decimal
end SheetAudit
