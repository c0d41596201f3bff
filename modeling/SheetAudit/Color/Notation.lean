import SheetAudit.Color.Named
import SheetAudit.Decimal.Reading
import SheetAudit.Text.Letter
import SheetAudit.Value.Reference

/-!
# Color notations

A color is written in hex digits, as a function of red, green and blue or of hue, saturation
and lightness, or by name.  Transparency may be written in each notation and is ignored.

## Main definitions

* `hex?`, `function?` — the color that one notation denotes.
* `parse?` — the color that a value denotes in any notation, if it is a single literal.
-/

namespace SheetAudit
namespace Color

open Text

/-! ### Hex digits -/

def hexValue (c : Char) : Nat :=
  if c.isDigit then c.toNat - '0'.toNat else c.toLower.toNat - 'a'.toNat + 10

def hexPair (c d : Char) : UInt8 := UInt8.ofNat (16 * hexValue c + hexValue d)

/-- Three, four, six or eight hex digits after any number of hashes. -/
def hex? (text : List Char) : Option Rgb :=
  let ds := (trim text).dropWhile (· == '#')
  if !ds.all isHexDigit then none
  else
    match ds with
    | [r, g, b] | [r, g, b, _] => some ⟨hexPair r r, hexPair g g, hexPair b b⟩
    | [r, r', g, g', b, b'] | [r, r', g, g', b, b', _, _] =>
      some ⟨hexPair r r', hexPair g g', hexPair b b'⟩
    | _ => none

/-! ### Channels -/

/-- The nearest of the 256 values of a channel. -/
def channel (x : Float) : UInt8 :=
  match Decimal.roundNat x with
  | some n => UInt8.ofNat (min n 255)
  | none => if x > 0 then 255 else 0

/-- A channel written as a number or as a percentage. -/
def channel? (argument : List Char) : Option UInt8 :=
  match argument.reverse with
  | '%' :: rest => (Decimal.read? rest.reverse).map fun x => channel (x * 2.55)
  | _ => (Decimal.read? argument).map channel

/-- A percentage, whose sign may be missing or repeated, as a fraction. -/
def fraction? (argument : List Char) : Option Float :=
  (Decimal.read? (argument.reverse.dropWhile (· == '%')).reverse).map (· / 100)

/-- `deg` taken away from the end as often as it stands there; the text is given backwards. -/
def dropDegrees : List Char → List Char
  | 'g' :: 'e' :: 'd' :: cs => dropDegrees cs
  | cs => cs

/-- An angle in degrees. -/
def angle? (argument : List Char) : Option Float :=
  Decimal.read? (dropDegrees argument.reverse).reverse

def unitInterval (x : Float) : Float := if x < 0 then 0 else if x > 1 then 1 else x

/-- The angle brought into the range from 0 up to 360. -/
def turn (degrees : Float) : Float :=
  let r := Decimal.remainder degrees 360
  if r < 0 then r + 360 else r

/-- The color of a hue in degrees, a saturation and a lightness. -/
def ofHsl (hue saturation lightness : Float) : Rgb :=
  let s := unitInterval saturation
  let l := unitInterval lightness
  let chroma := (1 - (2 * l - 1).abs) * s
  let h := turn hue / 60
  let x := chroma * (1 - (Decimal.remainder h 2 - 1).abs)
  let (r, g, b) :=
    if h < 1 then (chroma, x, 0)
    else if h < 2 then (x, chroma, 0)
    else if h < 3 then (0, chroma, x)
    else if h < 4 then (0, x, chroma)
    else if h < 5 then (x, 0, chroma)
    else (chroma, 0, x)
  let m := l - chroma / 2
  ⟨channel ((r + m) * 255), channel ((g + m) * 255), channel ((b + m) * 255)⟩

/-! ### Functions -/

/-- What follows the name of a color function; whether the channels are red, green and blue. -/
def functionName? (cs : List Char) : Option (Bool × List Char) :=
  let transparency (cs : List Char) : List Char := (dropFolded? ['a'] cs).getD cs
  match dropFolded? "rgb".toList cs with
  | some rest => some (true, transparency rest)
  | none => (dropFolded? "hsl".toList cs).map fun rest => (false, transparency rest)

/-- What stands in the parentheses, if the text is one pair of them. -/
def inParens? : List Char → Option (List Char)
  | '(' :: cs =>
    match cs.reverse with
    | ')' :: inner => if inner.contains ')' then none else some inner.reverse
    | _ => none
  | _ => none

/-- A color function with at least three arguments between commas, slashes or blanks. -/
def function? (value : List Char) : Option Rgb := do
  let (rgb, rest) ← functionName? (trim value)
  let inner ← inParens? rest
  match fields (fun c => c == ',' || c == '/' || isBlank c) inner with
  | a :: b :: c :: _ =>
    if rgb then return ⟨← channel? a, ← channel? b, ← channel? c⟩
    else return ofHsl (← angle? a) (← fraction? b) (← fraction? c)
  | _ => none

/-! ### Any notation -/

/-- The color that a value denotes if it is a single literal; `!important` may follow. -/
def parse? (value : List Char) : Option Rgb :=
  let text := lowerAscii (trim (Value.dropImportant value))
  if text.head? == some '#' then hex? text
  else if "rgb".toList.isPrefixOf text || "hsl".toList.isPrefixOf text then function? text
  else named? text

end Color
end SheetAudit
