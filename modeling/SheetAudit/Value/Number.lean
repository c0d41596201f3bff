import SheetAudit.Decimal.Reading
import SheetAudit.Text.Letter
import SheetAudit.Value.Reference

/-!
# Numbers in values

A number is read where the value begins or after a blank, a comma, an opening parenthesis, a
slash, an asterisk or a plus sign.  It may have a sign and a point; the letters and percent
signs that follow are its unit.

## Main definitions

* `Quantity` — a number with its unit.
* `quantities` — the numbers of a value, those inside references left out.
* `lengths`, `numbers`, `times` — the texts of those that are not zero, by kind of unit.
-/

namespace SheetAudit
namespace Value

open Text

/-- A number with its unit, which is empty for a plain number. -/
structure Quantity where
  number : Float
  unit : String
  /-- The number as it is written, followed by the unit. -/
  text : String

def lengthUnits : List String :=
  ["px", "rem", "em", "%", "vh", "vw", "vmin", "vmax", "ch", "ex", "pt", "pc", "cm", "mm", "in",
    "svh", "lvh", "dvh", "svw", "lvw", "dvw", "cqw", "cqh", "lh", "rlh"]

def timeUnits : List String := ["s", "ms"]

namespace Quantity

def isZero (q : Quantity) : Bool := q.number == 0

def isLength (q : Quantity) : Bool := lengthUnits.contains q.unit

def isTime (q : Quantity) : Bool := timeUnits.contains q.unit

end Quantity

/-! ### Hex colors -/

/-- A hash, three to eight hex digits and the end of the word: the color, and what follows. -/
def takeHex? : List Char → Option (List Char × List Char)
  | '#' :: cs =>
    let ds := cs.takeWhile isHexDigit
    let rest := cs.dropWhile isHexDigit
    if 3 ≤ ds.length && ds.length ≤ 8 && endsWord rest then some ('#' :: ds, rest) else none
  | _ => none

theorem length_takeHex? {cs hex rest : List Char} (h : takeHex? cs = some (hex, rest)) :
    rest.length < cs.length := by
  unfold takeHex? at h
  split at h
  · next cs =>
    simp only at h
    split at h
    · simp only [Option.some.injEq, Prod.mk.injEq] at h
      obtain ⟨-, rfl⟩ := h
      have := (List.dropWhile_sublist isHexDigit (l := cs)).length_le
      simp only [List.length_cons]
      omega
    · simp at h
  · simp at h

/-- The text cut into the hex colors it holds and the characters between them. -/
def cutHex (cs : List Char) : List (Char ⊕ List Char) :=
  match cs with
  | [] => []
  | c :: tail =>
    match _h : takeHex? (c :: tail) with
    | some (hex, rest) => .inr hex :: cutHex rest
    | none => .inl c :: cutHex tail
termination_by cs.length
decreasing_by
  · exact length_takeHex? _h
  · simp

/-- The text with one space in place of every hex color. -/
def blankHex (cs : List Char) : List Char :=
  (cutHex cs).map fun
    | .inl c => c
    | .inr _ => ' '

/-! ### Reading numbers -/

/-- May stand right before a number. -/
def precedesNumber (c : Char) : Bool :=
  isBlank c || c == ',' || c == '(' || c == '/' || c == '*' || c == '+'

/-- Digits with at most one point among them or before them: the number and what follows. -/
def takeUnsigned? (cs : List Char) : Option (List Char × List Char) :=
  let ds := cs.takeWhile isDecimalDigit
  let rest := cs.dropWhile isDecimalDigit
  match rest with
  | '.' :: rest =>
    let part := rest.takeWhile isDecimalDigit
    if ds.isEmpty && part.isEmpty then none
    else some (ds ++ '.' :: part, rest.dropWhile isDecimalDigit)
  | _ => if ds.isEmpty then none else some (ds, rest)

/-- A number with an optional minus sign, and what follows. -/
def takeNumber? : List Char → Option (List Char × List Char)
  | '-' :: cs => (takeUnsigned? cs).map fun r => ('-' :: r.1, r.2)
  | cs => takeUnsigned? cs

def isUnitChar (c : Char) : Bool := foldsToLetter c || c == '%'

theorem length_takeUnsigned? {cs number rest : List Char}
    (h : takeUnsigned? cs = some (number, rest)) : rest.length < cs.length := by
  have hsum : (cs.takeWhile isDecimalDigit).length + (cs.dropWhile isDecimalDigit).length
      = cs.length := by
    rw [← List.length_append, List.takeWhile_append_dropWhile]
  unfold takeUnsigned? at h
  simp only at h
  split at h
  · next tail heq =>
    split at h
    · simp at h
    · simp only [Option.some.injEq, Prod.mk.injEq] at h
      obtain ⟨-, rfl⟩ := h
      have := (List.dropWhile_sublist isDecimalDigit (l := tail)).length_le
      rw [heq] at hsum
      simp only [List.length_cons] at hsum
      omega
  · split at h
    · simp at h
    · next hne =>
      simp only [Option.some.injEq, Prod.mk.injEq] at h
      obtain ⟨-, rfl⟩ := h
      have : (cs.takeWhile isDecimalDigit).length ≠ 0 := by
        simpa [List.isEmpty_iff] using hne
      omega

theorem length_takeNumber? {cs number rest : List Char}
    (h : takeNumber? cs = some (number, rest)) : rest.length < cs.length := by
  unfold takeNumber? at h
  split at h
  · next cs =>
    obtain ⟨⟨n, r⟩, hr, heq⟩ := Option.map_eq_some_iff.1 h
    simp only [Prod.mk.injEq] at heq
    obtain ⟨-, rfl⟩ := heq
    have := length_takeUnsigned? hr
    simp only [List.length_cons]
    omega
  · exact length_takeUnsigned? h

/-- The quantity of a number and a unit as written; a number with digits of another script has no
value and is passed over. -/
def quantity? (number unit : List Char) : Option Quantity :=
  let unit := lowerAscii unit
  (Decimal.read? number).map fun value =>
    ⟨value, String.ofList unit, String.ofList (number ++ unit)⟩

/-- The quantities of a text; `ready` tells whether a number may begin right here. -/
def quantitiesFrom (ready : Bool) (cs : List Char) : List Quantity :=
  match cs with
  | [] => []
  | c :: tail =>
    match _h : if ready then takeNumber? (c :: tail) else none with
    | some (number, rest) =>
      (quantity? number (rest.takeWhile isUnitChar)).toList ++
        quantitiesFrom false (rest.dropWhile isUnitChar)
    | none => quantitiesFrom (precedesNumber c) tail
termination_by cs.length
decreasing_by
  · have h₁ : rest.length < (c :: tail).length := by
      split at _h
      · exact length_takeNumber? _h
      · simp at _h
    have h₂ := (List.dropWhile_sublist isUnitChar (l := rest)).length_le
    omega
  · simp

/-- The numbers of a value outside references and hex colors. -/
def quantities (value : List Char) : List Quantity :=
  quantitiesFrom true (blankHex (literalPart value))

/-! ### Literals by kind -/

/-- Lengths other than zero. -/
def lengths (value : List Char) : List String :=
  ((quantities value).filter fun q => q.isLength && !q.isZero).map (·.text)

/-- Lengths and plain numbers other than zero. -/
def numbers (value : List Char) : List String :=
  ((quantities value).filter fun q => !q.isZero && (q.unit.isEmpty || q.isLength)).map (·.text)

/-- Times other than zero. -/
def times (value : List Char) : List String :=
  ((quantities value).filter fun q => q.isTime && !q.isZero).map (·.text)

end Value
end SheetAudit
