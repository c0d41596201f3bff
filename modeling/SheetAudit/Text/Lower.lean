import SheetAudit.Text.Letter

/-!
# Small letters

The lower-case form of a text of any script.  One capital becomes two characters, the
dotted capital I; and a capital sigma at the end of a word becomes the final small sigma,
which is why `lowerText` looks at the characters around it while `lower` cannot.
-/

namespace SheetAudit
namespace Text

/-- The lower-case form of one character, taken alone. -/
def lower (c : Char) : List Char :=
  if isAscii c then [c.toLower]
  else if c == '\u0130' then ['i', '\u0307']
  else
    match Table.lowerRuns.find? fun (first, last, step, _) =>
        first ≤ c.toNat && c.toNat ≤ last && (c.toNat - first) % step == 0 with
    | some (first, _, _, image) => [Char.ofNat (image + (c.toNat - first))]
    | none => [c]

def isCased (c : Char) : Bool :=
  if isAscii c then c.isAlpha else inRanges Table.cased c.toNat

def isCaseIgnorable (c : Char) : Bool :=
  if isAscii c then c == '\'' || c == '.' || c == ':' || c == '^' || c == '\x60'
  else inRanges Table.caseIgnorable c.toNat

/-- The first character that is not passed over has case. -/
def casedNext (cs : List Char) : Bool :=
  match cs.dropWhile isCaseIgnorable with
  | [] => false
  | c :: _ => isCased c

/-- `before` holds the characters already read, last first. -/
def lowerAfter (before : List Char) : List Char → List Char
  | [] => []
  | c :: cs =>
    (if c == '\u03a3' then
      [if casedNext before && !casedNext cs then '\u03c2' else '\u03c3']
    else lower c) ++ lowerAfter (c :: before) cs

/-- The lower-case form of a text. -/
def lowerText (cs : List Char) : List Char := lowerAfter [] cs

end Text
end SheetAudit
