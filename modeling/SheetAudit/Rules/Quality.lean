import SheetAudit.Property
import SheetAudit.Selector.Compound
import SheetAudit.Selector.Specificity
import SheetAudit.Settings
import SheetAudit.Sheet.Basic

/-!
# Quality rules

Selectors that are hard to override, `!important`, prefixes that browsers no longer need, and
classes that say the same.

## Main definitions

* `heavyUtilities`, `selectors`, `flags`, `duplicates` — the findings of each kind.
* `signature` — what two classes share that declare the same.
* `check` — all findings of these rules.
-/

namespace SheetAudit
namespace Quality

open Text Selector

/-! ### Selectors -/

def heavyUtility (settings : QualitySettings) (s : Sheet) (c : StyledClass) : Option Issue :=
  let score := specificity c.selector.toList
  if c.kind != .utility || score ≤ settings.maxUtilitySpecificity then none
  else
    some
      { rule := "quality/utility-specificity"
        severity := .minor
        category := .bestPractice
        message :=
          s!"Utility selector '{c.selector}' has specificity {score} " ++
            s!"(limit {settings.maxUtilitySpecificity})"
        location := s.locate c.pos
        suggestion := s!"Keep utilities to a single class, e.g. '.{c.name}'" }

def heavyUtilities (settings : QualitySettings) (s : Sheet) : List Issue :=
  s.classes.filterMap (heavyUtility settings s)

def deepNesting (settings : QualitySettings) (s : Sheet) (r : Rule) : Option Issue :=
  let depth := (compounds r.selector.toList).length
  if depth ≤ settings.maxNestingDepth then none
  else
    some
      { rule := "quality/deep-nesting"
        severity := .minor
        category := .bestPractice
        message :=
          s!"Selector '{r.selector}' nests {depth} levels deep (limit {settings.maxNestingDepth})"
        location := s.locate r.pos
        suggestion :=
          "Give the element its own class instead of qualifying it through its ancestors" }

def idSelector (s : Sheet) (r : Rule) : Option Issue :=
  if (weigh r.selector.toList).ids == 0 then none
  else
    some
      { rule := "quality/id-selector"
        severity := .moderate
        category := .bestPractice
        message := s!"Selector '{r.selector}' uses an ID"
        location := s.locate r.pos
        suggestion := "Style through classes; IDs are hard to override"
        sample := some ⟨"#header \x7b ... \x7d", ".site-header \x7b ... \x7d"⟩ }

def selectors (settings : QualitySettings) (s : Sheet) : List Issue :=
  s.rules.flatMap fun r => (deepNesting settings s r).toList ++ (idSelector s r).toList

/-! ### Declarations -/

def important (s : Sheet) (d : Declaration) : Option Issue :=
  if !d.isImportant then none
  else
    some
      { rule := "quality/important"
        severity := .moderate
        category := .bestPractice
        message := s!"'{d.name}' is declared !important"
        location := s.locate d.pos
        suggestion := "Resolve the conflict through selector order or specificity instead" }

/-- The name without the prefix between its first two hyphens. -/
def unprefixed (name : List Char) : List Char :=
  match name with
  | '-' :: rest =>
    match splitAt? ['-'] rest with
    | some (_, property) => property
    | none => name
  | _ => name

def vendorPrefix (s : Sheet) (d : Declaration) : Option Issue :=
  if !Property.listed Property.vendorPrefixed d.name then none
  else
    let standard := String.ofList (unprefixed d.name.toList)
    some
      { rule := "quality/vendor-prefix"
        severity := .minor
        category := .performance
        message := s!"Vendor prefix '{d.name}' is no longer needed"
        location := s.locate d.pos
        suggestion := s!"Use '{standard}' only"
        sample := some ⟨s!"{d.name}: {d.value};", s!"{standard}: {d.value};"⟩ }

def flags (s : Sheet) : List Issue :=
  s.declarations.flatMap fun (_, d) => (important s d).toList ++ (vendorPrefix s d).toList

/-! ### Classes that say the same -/

/-- The declarations of a class, in an order of their own. -/
def signature (c : StyledClass) : String :=
  let pairs := c.declarations.map fun d =>
    asciiLower d.name ++ ":" ++ String.ofList (trim d.value.toList)
  ";".intercalate (pairs.mergeSort fun x y => x ≤ y)

def duplicate (s : Sheet) (first c : StyledClass) : Issue where
  rule := "quality/duplicate-pattern"
  severity := .minor
  category := .duplication
  message :=
    s!"'{c.selector}' repeats the declarations of '{first.selector}' (line {first.pos.line})"
  location := s.locate c.pos
  suggestion :=
    s!"Reuse '.{first.name}' or extract the shared declarations into one class"

/-- The classes of one rule share their declarations and repeat nothing. -/
def duplicates (s : Sheet) : List Issue :=
  let classes := s.classes.filter fun c => c.media.isNone && !c.declarations.isEmpty
  (Repeats.repeats (·.1) (classes.map fun c => (signature c, c))).filterMap fun (⟨_, first⟩, ⟨_, c⟩) =>
    if first.declarations.head?.map (·.pos) == c.declarations.head?.map (·.pos) then none
    else some (duplicate s first c)

/-! ### All quality rules -/

def check (settings : QualitySettings) (s : Sheet) : List Issue :=
  heavyUtilities settings s ++ selectors settings s ++ flags s ++ duplicates s

end Quality
end SheetAudit
