import SheetAudit.Name
import SheetAudit.Property
import SheetAudit.Sheet.Basic
import SheetAudit.Text.Letter
import SheetAudit.Value.Literal

/-!
# Motion rules

Durations and easings that are written literally, names of keyframes, and an alternative for
people who asked for less motion.

## Main definitions

* `timeLiterals`, `easingLiterals` — what the rules on literals object to in a declaration.
* `reducedMotion` — the findings about motion without an alternative.
* `check` — all findings of these rules.
-/

namespace SheetAudit
namespace Motion

open Text

/-! ### Literal durations and easings -/

def takesDuration (name : String) : Bool :=
  Property.listed Property.duration name || name.endsWith "-duration" || name.endsWith "-delay"

def takesEasing (name : String) : Bool :=
  Property.listed Property.easing name || name.endsWith "-timing-function"

def timeLiterals (d : Declaration) : List String :=
  if takesDuration d.name then Value.times d.value.toList else []

def easingLiterals (d : Declaration) : List String :=
  if takesEasing d.name then Value.easings d.value.toList else []

def hardcodedDuration (s : Sheet) (d : Declaration) : Option Issue :=
  let times := timeLiterals d
  if times.isEmpty then none
  else
    some
      { rule := "animation/hardcoded-duration"
        severity := .minor
        category := .bestPractice
        message := "Hardcoded duration " ++ " ".intercalate times ++ s!" in '{d.name}'"
        location := s.locate d.pos
        suggestion := "Use a duration variable (e.g. var(--duration-fast))" }

def hardcodedEasing (s : Sheet) (d : Declaration) : Option Issue :=
  let easings := easingLiterals d
  if easings.isEmpty then none
  else
    some
      { rule := "animation/hardcoded-easing"
        severity := .minor
        category := .bestPractice
        message := "Hardcoded easing " ++ " ".intercalate easings ++ s!" in '{d.name}'"
        location := s.locate d.pos
        suggestion := "Use an easing variable (e.g. var(--ease-standard))" }

def literals (s : Sheet) : List Issue :=
  s.declarations.flatMap fun (_, d) =>
    (hardcodedDuration s d).toList ++ (hardcodedEasing s d).toList

/-! ### Keyframes -/

def misspelledKeyframes (s : Sheet) (k : Keyframes) : Option Issue :=
  if Name.isCanonical k.name.toList then none
  else
    let canonical := String.ofList (Name.canonical k.name.toList)
    some
      { rule := "animation/non-canonical-keyframes"
        severity := .minor
        category := .naming
        message := s!"Keyframes '{k.name}' is not lowercase-hyphenated"
        location := s.locate k.pos
        suggestion := s!"Rename to '{canonical}' and update every reference" }

/-! ### Reduced motion -/

def moves (name : String) : Bool :=
  Property.listed Property.motion name || name.startsWith "animation" ||
    name.startsWith "transition"

def isAnimated (c : StyledClass) : Bool := c.declarations.any fun d => moves d.name

/-- Written under a query for reduced motion. -/
def underReducedMotion (media : Option String) : Bool := media.any Query.asksReducedMotion

/-- The class is named in a text, and not only as the beginning of a longer name. -/
def namesClass (name : List Char) : List Char → Bool
  | [] => false
  | c :: cs =>
    (match ('.' :: name).isPrefixOf? (c :: cs) with
      | some (d :: _) => !(isAlphanumeric d || d == '-' || d == '_')
      | some [] => true
      | none => false) || namesClass name cs

def missingReducedMotion (s : Sheet) : Issue where
  rule := "animation/missing-reduced-motion"
  severity := .critical
  category := .accessibility
  message := "Animations and transitions have no prefers-reduced-motion alternative"
  location := s.start
  suggestion :=
    "Add a @media (prefers-reduced-motion: reduce) block that disables or shortens motion"
  sample := some
    ⟨".spinner \x7b animation: spin 1s linear infinite; \x7d",
      "@media (prefers-reduced-motion: reduce) \x7b\n  *, *::before, *::after \x7b\n" ++
        "    animation-duration: 0.01ms !important;\n" ++
        "    transition-duration: 0.01ms !important;\n  \x7d\n\x7d"⟩

def reducedMotionGap (s : Sheet) (c : StyledClass) : Issue where
  rule := "animation/reduced-motion-gap"
  severity := .moderate
  category := .accessibility
  message := s!"Animated class '.{c.name}' is not covered by the reduced-motion rule"
  location := s.locate c.pos
  suggestion := s!"Disable the motion of '.{c.name}' inside @media (prefers-reduced-motion: reduce)"

/-- Under a query for reduced motion, a rule for all elements covers every class; otherwise a class
is covered if it has a rule of its own there or is named in the text of the query. -/
def reducedMotion (s : Sheet) : List Issue :=
  let animated := s.classes.filter isAnimated
  if s.keyframes.isEmpty && animated.isEmpty then []
  else
    let queries := s.mediaQueries.filter fun m => Query.asksReducedMotion m.query
    if queries.isEmpty then [missingReducedMotion s]
    else if s.rules.any fun r => underReducedMotion r.media && r.selector.startsWith "*" then []
    else
      let overridden := (s.classes.filter fun c => underReducedMotion c.media).map (·.name)
      let gaps := animated.filter fun c =>
        !underReducedMotion c.media && !overridden.contains c.name &&
          !queries.any fun m => namesClass c.name.toList m.content.toList
      (Repeats.firsts (·.name) gaps).map (reducedMotionGap s)

/-! ### All motion rules -/

def check (s : Sheet) : List Issue :=
  literals s ++ s.keyframes.filterMap (misspelledKeyframes s) ++ reducedMotion s

end Motion
end SheetAudit
