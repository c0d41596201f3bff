import SheetAudit.Text.Search

/-!
# Colors

A color is three channels of eight bits.  Some colors have names, which are read in any letter
case.
-/

namespace SheetAudit

structure Rgb where
  red : UInt8
  green : UInt8
  blue : UInt8
  deriving Repr, DecidableEq

namespace Color

/-- The named colors. -/
def names : List (String × Rgb) :=
  [("black", ⟨0, 0, 0⟩), ("white", ⟨255, 255, 255⟩), ("red", ⟨255, 0, 0⟩),
    ("green", ⟨0, 128, 0⟩), ("blue", ⟨0, 0, 255⟩), ("yellow", ⟨255, 255, 0⟩),
    ("orange", ⟨255, 165, 0⟩), ("purple", ⟨128, 0, 128⟩), ("pink", ⟨255, 192, 203⟩),
    ("brown", ⟨165, 42, 42⟩), ("gray", ⟨128, 128, 128⟩), ("grey", ⟨128, 128, 128⟩),
    ("silver", ⟨192, 192, 192⟩), ("maroon", ⟨128, 0, 0⟩), ("olive", ⟨128, 128, 0⟩),
    ("lime", ⟨0, 255, 0⟩), ("aqua", ⟨0, 255, 255⟩), ("cyan", ⟨0, 255, 255⟩),
    ("teal", ⟨0, 128, 128⟩), ("navy", ⟨0, 0, 128⟩), ("fuchsia", ⟨255, 0, 255⟩),
    ("magenta", ⟨255, 0, 255⟩), ("gold", ⟨255, 215, 0⟩), ("indigo", ⟨75, 0, 130⟩),
    ("violet", ⟨238, 130, 238⟩), ("coral", ⟨255, 127, 80⟩), ("salmon", ⟨250, 128, 114⟩),
    ("tomato", ⟨255, 99, 71⟩), ("crimson", ⟨220, 20, 60⟩), ("khaki", ⟨240, 230, 140⟩),
    ("beige", ⟨245, 245, 220⟩), ("ivory", ⟨255, 255, 240⟩), ("lavender", ⟨230, 230, 250⟩),
    ("tan", ⟨210, 180, 140⟩), ("turquoise", ⟨64, 224, 208⟩), ("orchid", ⟨218, 112, 214⟩),
    ("plum", ⟨221, 160, 221⟩), ("chocolate", ⟨210, 105, 30⟩), ("darkgray", ⟨169, 169, 169⟩),
    ("darkgrey", ⟨169, 169, 169⟩), ("lightgray", ⟨211, 211, 211⟩),
    ("lightgrey", ⟨211, 211, 211⟩), ("dimgray", ⟨105, 105, 105⟩), ("dimgrey", ⟨105, 105, 105⟩),
    ("gainsboro", ⟨220, 220, 220⟩), ("whitesmoke", ⟨245, 245, 245⟩), ("darkblue", ⟨0, 0, 139⟩),
    ("lightblue", ⟨173, 216, 230⟩), ("skyblue", ⟨135, 206, 235⟩), ("steelblue", ⟨70, 130, 180⟩),
    ("royalblue", ⟨65, 105, 225⟩), ("dodgerblue", ⟨30, 144, 255⟩), ("darkgreen", ⟨0, 100, 0⟩),
    ("lightgreen", ⟨144, 238, 144⟩), ("seagreen", ⟨46, 139, 87⟩), ("darkred", ⟨139, 0, 0⟩),
    ("firebrick", ⟨178, 34, 34⟩), ("darkorange", ⟨255, 140, 0⟩), ("slategray", ⟨112, 128, 144⟩),
    ("slategrey", ⟨112, 128, 144⟩), ("rebeccapurple", ⟨102, 51, 153⟩)]

/-- The color of that name. -/
def named? (name : List Char) : Option Rgb :=
  (names.find? fun entry => Text.sameAscii entry.1.toList name).map (·.2)

end Color
end SheetAudit
