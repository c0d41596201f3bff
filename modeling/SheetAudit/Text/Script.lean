import SheetAudit.Repeats

/-!
# Scripts

The scripts that comments are commonly written in.

## Main definitions

* `Script` — a script.
* `Script.of?` — the script of a letter.
* `Script.dominant?` — the script that most letters of a text are of.
-/

namespace SheetAudit

inductive Script where
  | latin
  | cjk
  | hangul
  | cyrillic
  | greek
  | arabic
  | hebrew
  deriving Repr, DecidableEq

namespace Script

def label : Script → String
  | latin => "Latin"
  | cjk => "CJK"
  | hangul => "Hangul"
  | cyrillic => "Cyrillic"
  | greek => "Greek"
  | arabic => "Arabic"
  | hebrew => "Hebrew"

/-- Blocks of code points with their script. -/
def blocks : List (Nat × Nat × Script) :=
  [(0x41, 0x5A, latin), (0x61, 0x7A, latin), (0xC0, 0x24F, latin), (0x370, 0x3FF, greek),
    (0x400, 0x4FF, cyrillic), (0x590, 0x5FF, hebrew), (0x600, 0x6FF, arabic),
    (0x3040, 0x30FF, cjk), (0x3400, 0x4DBF, cjk), (0x4E00, 0x9FFF, cjk), (0xAC00, 0xD7AF, hangul)]

/-- The script of a letter; other characters have none. -/
def of? (c : Char) : Option Script :=
  (blocks.find? fun (first, last, _) => first ≤ c.toNat && c.toNat ≤ last).map (·.2.2)

/-- The script that most letters of a text are of, the one that occurs first if there are several. -/
def dominant? (text : List Char) : Option Script := Repeats.mostFrequent (text.filterMap of?)

end Script
end SheetAudit
