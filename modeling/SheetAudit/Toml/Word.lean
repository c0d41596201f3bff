import SheetAudit.Decimal.Reading
import SheetAudit.Text.Blank
import SheetAudit.Text.Letter
import SheetAudit.Toml.Quoted
import SheetAudit.Toml.Value

/-!
# Unquoted values of TOML

Booleans, numbers, dates and times are written without quotes.

## Main definitions

* `integer?`, `float?` — the number that a word denotes.
* `isMoment` — the word is a date, a time of day or both.
* `read?` — the unquoted value at the start of a text.
-/

namespace SheetAudit
namespace Toml
namespace Word

open Text

/-! ### Numbers -/

/-- Digits of one kind; single underscores may stand between digits. -/
def isNumeral (isDigit : Char → Bool) (cs : List Char) : Bool :=
  (splitOn (· == '_') cs).all fun ds => !ds.isEmpty && ds.all isDigit

def dropUnderscores (cs : List Char) : List Char := cs.filter (· != '_')

def valueIn (radix : Nat) (cs : List Char) : Nat :=
  (dropUnderscores cs).foldl (fun n d => radix * n + Quoted.hexValue d) 0

/-- A decimal numeral that does not begin with a needless zero. -/
def isWhole (cs : List Char) : Bool :=
  isNumeral Char.isDigit cs && (cs.length ≤ 1 || cs.head? != some '0')

/-- Numbers that are larger in either direction are refused. -/
def isRepresentable (n : Int) : Bool := -Nat.pow 2 127 ≤ n && n < Nat.pow 2 128

def integer? (cs : List Char) : Option Int :=
  let value? : Option Int :=
    match cs with
    | '0' :: 'x' :: ds => if isNumeral isHexDigit ds then some (valueIn 16 ds) else none
    | '0' :: 'o' :: ds =>
      if isNumeral (fun c => '0' ≤ c && c ≤ '7') ds then some (valueIn 8 ds) else none
    | '0' :: 'b' :: ds =>
      if isNumeral (fun c => c == '0' || c == '1') ds then some (valueIn 2 ds) else none
    | _ =>
      let (negative, ds) := Decimal.takeSign cs
      if !isWhole ds then none
      else some (if negative then -(valueIn 10 ds : Int) else valueIn 10 ds)
  value?.filter isRepresentable

/-- The part before the first character that satisfies `p`, and what follows that character. -/
def cutAt (p : Char → Bool) (cs : List Char) : List Char × Option (List Char) :=
  match cs.dropWhile fun c => !p c with
  | [] => (cs, none)
  | _ :: after => (cs.takeWhile fun c => !p c, some after)

/-- A number with a fraction or an exponent or both, or an infinity or no number.  A number too
large for a double is refused. -/
def float? (cs : List Char) : Option Float :=
  let unsigned := (Decimal.takeSign cs).2
  if unsigned == "inf".toList || unsigned == "nan".toList then Decimal.read? cs
  else
    let (mantissa, exponent) := cutAt (fun c => c == 'e' || c == 'E') unsigned
    let (whole, fraction) := cutAt (· == '.') mantissa
    if isWhole whole && (fraction.isSome || exponent.isSome) &&
        fraction.all (isNumeral Char.isDigit) &&
        exponent.all fun ds => isNumeral Char.isDigit (Decimal.takeSign ds).2 then
      (Decimal.read? (dropUnderscores cs)).filter fun x => !x.isInf
    else none

/-! ### Dates and times -/

/-- A number of so many digits from `low` to `high`, and what follows it. -/
def takeNumber? (digits low high : Nat) (cs : List Char) : Option (Nat × List Char) :=
  let ds := cs.take digits
  let n := Decimal.valueOf ds
  if ds.length == digits && ds.all Char.isDigit && low ≤ n && n ≤ high then
    some (n, cs.drop digits)
  else none

def takeChar? (c : Char) : List Char → Option (List Char)
  | [] => none
  | d :: cs => if d == c then some cs else none

def isLeap (year : Nat) : Bool := year % 4 == 0 && (year % 100 != 0 || year % 400 == 0)

def daysIn (year month : Nat) : Nat :=
  if month == 2 then if isLeap year then 29 else 28
  else if month == 4 || month == 6 || month == 9 || month == 11 then 30
  else 31

/-- What follows a date. -/
def takeDate? (cs : List Char) : Option (List Char) := do
  let (year, cs) ← takeNumber? 4 0 9999 cs
  let (month, cs) ← takeNumber? 2 1 12 (← takeChar? '-' cs)
  let (_, cs) ← takeNumber? 2 1 (daysIn year month) (← takeChar? '-' cs)
  return cs

/-- What follows the fraction of a second, if there is one. -/
def takeFraction? : List Char → Option (List Char)
  | '.' :: cs =>
    if (cs.takeWhile Char.isDigit).isEmpty then none else some (cs.dropWhile Char.isDigit)
  | cs => some cs

/-- What follows a time of day; seconds may be left out. -/
def takeTime? (cs : List Char) : Option (List Char) := do
  let (_, cs) ← takeNumber? 2 0 23 cs
  let (_, cs) ← takeNumber? 2 0 59 (← takeChar? ':' cs)
  match cs with
  | ':' :: cs =>
    let (_, cs) ← takeNumber? 2 0 60 cs
    takeFraction? cs
  | _ => return cs

/-- The offset from universal time, from end to end. -/
def isOffset (cs : List Char) : Bool :=
  match cs with
  | ['Z'] | ['z'] => true
  | '+' :: cs | '-' :: cs =>
    (do
      let (_, cs) ← takeNumber? 2 0 23 cs
      let (_, cs) ← takeNumber? 2 0 59 (← takeChar? ':' cs)
      return cs.isEmpty : Option Bool).getD false
  | _ => false

/-- A date, a time of day, or both with or without an offset. -/
def isMoment (cs : List Char) : Bool :=
  match takeDate? cs with
  | some [] => true
  | some (delimiter :: rest) =>
    (delimiter == 'T' || delimiter == 't' || delimiter == ' ') &&
      (takeTime? rest).any fun rest => rest.isEmpty || isOffset rest
  | none => (takeTime? cs).any fun rest => rest.isEmpty

/-! ### Values -/

def value? (word : List Char) : Option Value :=
  if word == "true".toList then some (.boolean true)
  else if word == "false".toList then some (.boolean false)
  else
    match integer? word with
    | some n => some (.integer n)
    | none =>
      match float? word with
      | some x => some (.float x)
      | none => if isMoment word then some .moment else none

def isWordChar (c : Char) : Bool := c.isAlphanum || "+-._:".toList.contains c

/-- The word at the start of a text, and what follows it; a date takes a time of day after one space
into the word. -/
def take (cs : List Char) : List Char × List Char :=
  let word := cs.takeWhile isWordChar
  match cs.dropWhile isWordChar with
  | ' ' :: d :: rest =>
    if takeDate? word == some [] && d.isDigit then
      (word ++ ' ' :: (d :: rest).takeWhile isWordChar, (d :: rest).dropWhile isWordChar)
    else (word, ' ' :: d :: rest)
  | rest => (word, rest)

/-- The unquoted value at the start of a text, and what follows it. -/
def read? (cs : List Char) : Option (Value × List Char) :=
  let (word, rest) := take cs
  (value? word).map fun v => (v, rest)

end Word
end Toml
end SheetAudit
