import SheetAudit.Decimal.Digits
import SheetAudit.Property
import SheetAudit.Settings
import SheetAudit.Sheet.Basic
import SheetAudit.Value.Number

/-!
# Rules for small screens

Breakpoints off the standard scale or too close to each other, elements too small to tap, and
sheets without any media query for phones.

## Main definitions

* `WidthFeature`, `widthFeatures` — the widths that a media query compares with.
* `nonStandard`, `nearDuplicates`, `touchTargets`, `mobileQuery` — the findings of each rule.
* `check` — all findings of these rules.
-/

namespace SheetAudit
namespace Responsive

open Text

/-! ### Widths in media queries -/

inductive Bound where
  | min
  | max
  deriving Repr, DecidableEq

/-- A least or greatest width, in pixels. -/
structure WidthFeature where
  bound : Bound
  pixels : Float

/-- Pixels for one `em` or `rem`. -/
def rootFontSize : Float := 16

/-- The greatest width that still means phones. -/
def mobileWidth : Float := 768

/-- Digits with an optional fraction, or a fraction alone: the number and what follows. -/
def takeWidth? (cs : List Char) : Option (List Char × List Char) :=
  let ds := cs.takeWhile isDecimalDigit
  let rest := cs.dropWhile isDecimalDigit
  let withPart? : Option (List Char × List Char) :=
    match rest with
    | '.' :: rest =>
      let part := rest.takeWhile isDecimalDigit
      if part.isEmpty then none else some (ds ++ '.' :: part, rest.dropWhile isDecimalDigit)
    | _ => none
  match withPart? with
  | some r => some r
  | none => if ds.isEmpty then none else some (ds, rest)

/-- The pixels for one unit of a length at the start of a text, and what follows the unit. -/
def takeUnit? (cs : List Char) : Option (Float × List Char) :=
  [("px", 1), ("em", rootFontSize), ("rem", rootFontSize)].findSome? fun (unit, pixels) =>
    (dropFolded? unit.toList cs).bind fun rest =>
      if endsWord rest then some (pixels, rest) else none

/-- The width feature at the start of a text; no number in it if the digits are of another
script. -/
def takeFeature? (cs : List Char) : Option (Option WidthFeature) := do
  let (bound, rest) ←
    match dropFolded? "min-width".toList cs with
    | some rest => some (Bound.min, rest)
    | none => (dropFolded? "max-width".toList cs).map fun rest => (Bound.max, rest)
  let rest ←
    match rest.dropWhile isBlank with
    | ':' :: rest => some (rest.dropWhile isBlank)
    | _ => none
  let (number, rest) ← takeWidth? rest
  let (pixels, _) ← takeUnit? (rest.dropWhile isBlank)
  return (Decimal.read? number).map fun n => ⟨bound, n * pixels⟩

/-- `inWord` tells whether the character before is part of a word. -/
def featuresFrom (inWord : Bool) : List Char → List WidthFeature
  | [] => []
  | c :: cs =>
    let found := if inWord then none else (takeFeature? (c :: cs)).join
    found.toList ++ featuresFrom (isWordChar c) cs

/-- The widths that a media query compares with. -/
def widthFeatures (query : String) : List WidthFeature := featuresFrom false query.toList

def pixelsText (pixels : Float) : String :=
  (if Decimal.isWhole pixels then Decimal.fixed 0 pixels else Decimal.shortest pixels) ++ "px"

/-! ### Breakpoints -/

/-- The order key of a distance; what is no number comes last. -/
def distanceKey (x y : Float) : Nat := (x - y).abs.toBits.toNat

/-- The breakpoint nearest to a width, the earlier of two that are equally near. -/
def nearest? (breakpoints : List Float) (pixels : Float) : Option Float :=
  breakpoints.foldl (fun best b =>
    match best with
    | none => some b
    | some a => if distanceKey b pixels < distanceKey a pixels then some b else some a) none

def nonStandard (settings : ResponsiveSettings) (s : Sheet) : List Issue :=
  s.mediaQueries.flatMap fun m =>
    (widthFeatures m.query).filterMap fun f =>
      (nearest? settings.breakpoints f.pixels).bind fun nearest =>
        if (nearest - f.pixels).abs ≤ settings.tolerance then none
        else
          some
            { rule := "responsive/non-standard-breakpoint"
              severity := .minor
              category := .organization
              message :=
                s!"Breakpoint {pixelsText f.pixels} in '{m.query}' is not on the standard scale"
              location := s.locate m.pos
              suggestion := s!"Use the nearest standard breakpoint, {pixelsText nearest}" }

/-- Every width once, with the first media query that uses it. -/
def distinctWidths (queries : List MediaQuery) : List (Float × MediaQuery) :=
  Repeats.firsts (·.1)
    (queries.flatMap fun m => (widthFeatures m.query).map fun f => (f.pixels, m))

def nearDuplicate (settings : ResponsiveSettings) (s : Sheet) (earlier later : Float)
    (m : MediaQuery) : Option Issue :=
  let gap := (later - earlier).abs
  if gap ≤ settings.tolerance || gap > settings.nearDuplicateRange then none
  else
    some
      { rule := "responsive/near-duplicate-breakpoint"
        severity := .minor
        category := .organization
        message :=
          s!"Breakpoints {pixelsText earlier} and {pixelsText later} are only " ++
            s!"{pixelsText gap} apart"
        location := s.locate m.pos
        suggestion := "Merge them into a single breakpoint" }

/-- Each width is compared with all before it; `before` holds those, in order. -/
def nearDuplicatesFrom (settings : ResponsiveSettings) (s : Sheet) (before : List Float) :
    List (Float × MediaQuery) → List Issue
  | [] => []
  | (later, m) :: rest =>
    (before.filterMap fun earlier => nearDuplicate settings s earlier later m) ++
      nearDuplicatesFrom settings s (before ++ [later]) rest

def nearDuplicates (settings : ResponsiveSettings) (s : Sheet) : List Issue :=
  nearDuplicatesFrom settings s [] (distinctWidths s.mediaQueries)

/-! ### Touch targets -/

def looksInteractive (c : StyledClass) : Bool :=
  Property.touchTargetHints.any fun hint => contains hint.toList (lowerAscii c.name.toList)

/-- The first size in a value that is not zero, in pixels. -/
def firstSize? (value : String) : Option Float :=
  (Value.quantities (Value.blankReferences value.toList)).findSome? fun q =>
    if q.isZero then none
    else if q.unit == "px" then some q.number
    else if q.unit == "em" || q.unit == "rem" then some (q.number * rootFontSize)
    else none

/-- The size that a declaration gives to an element and that is below the minimum. -/
def smallSize? (settings : ResponsiveSettings) (d : Declaration) : Option Float :=
  if !Property.listed Property.size d.name then none
  else
    (firstSize? d.value).bind fun pixels =>
      if pixels ≥ settings.minTouchTarget then none else some pixels

def smallTarget (settings : ResponsiveSettings) (s : Sheet) (c : StyledClass) (d : Declaration)
    (pixels : Float) : Issue :=
  let least := pixelsText settings.minTouchTarget
  { rule := "responsive/small-touch-target"
    severity := .moderate
    category := .accessibility
    message :=
      s!"'.{c.name}' sets {d.name} to {pixelsText pixels}, below the {least} touch target minimum"
    location := s.locate d.pos
    suggestion := s!"Make interactive elements at least {least} by {least}"
    sample := some ⟨s!"{d.name}: {d.value};", s!"{d.name}: {least};"⟩ }

/-- A declaration that several classes share is reported for the first of them. -/
def touchTargets (settings : ResponsiveSettings) (s : Sheet) : List Issue :=
  let small := (s.classes.filter looksInteractive).flatMap fun c =>
    c.declarations.filterMap fun d => (smallSize? settings d).map fun pixels => (c, d, pixels)
  (Repeats.firsts (fun t => t.2.1.pos) small).map fun (c, d, pixels) =>
    smallTarget settings s c d pixels

/-! ### Phones -/

def mobileQuery (s : Sheet) : List Issue :=
  let features := s.mediaQueries.flatMap fun m => widthFeatures m.query
  if !s.classes.any looksInteractive ||
      features.any (fun f => f.bound == .min || f.pixels ≤ mobileWidth) then []
  else
    [{ rule := "responsive/missing-mobile-query"
       severity := .moderate
       category := .bestPractice
       message := "Interactive components have no media query for small screens"
       location := s.start
       suggestion :=
        "Add a mobile layout with @media (max-width: 768px) or build mobile-first with " ++
          "min-width queries" }]

/-! ### All rules for small screens -/

def check (settings : ResponsiveSettings) (s : Sheet) : List Issue :=
  nonStandard settings s ++ nearDuplicates settings s ++ touchTargets settings s ++ mobileQuery s

end Responsive
end SheetAudit
