import SheetAudit.Color.Named
import SheetAudit.Decimal.Double

/-!
# Contrast

The contrast of two colors is the ratio of their luminances, each raised by a twentieth so that
black has one too.

## Main definitions

* `luminance` — the relative luminance of a color, from 0 for black to 1 for white.
* `contrast` — the contrast ratio of two colors, whichever of them is the lighter.
-/

namespace SheetAudit
namespace Color

/-- The share of full light that a channel value stands for. -/
def linear (channel : UInt8) : Float :=
  let v := Decimal.ofNat channel.toNat / 255
  if v ≤ 0.04045 then v / 12.92 else ((v + 0.055) / 1.055).pow 2.4

def luminance (c : Rgb) : Float :=
  Decimal.mulAdd 0.0722 (linear c.blue)
    (Decimal.mulAdd 0.2126 (linear c.red) (0.7152 * linear c.green))

def contrast (a b : Rgb) : Float :=
  let x := luminance a
  let y := luminance b
  let (lighter, darker) := if x > y then (x, y) else (y, x)
  (lighter + 0.05) / (darker + 0.05)

end Color
end SheetAudit
