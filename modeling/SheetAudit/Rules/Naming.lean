import SheetAudit.Name
import SheetAudit.Property
import SheetAudit.Settings
import SheetAudit.Sheet.Basic

/-!
# Naming rules

Names of custom properties and classes: their spelling, colors named after their look, prefixes
that tell the purpose, and properties declared twice in a scope.

## Main definitions

* `variableIssues` — the findings about the name of one custom property.
* `duplicates` — the custom properties that are declared again in a scope.
* `classIssues` — the findings about the name of one class.
* `check` — all findings of these rules.
-/

namespace SheetAudit
namespace Naming

open Text

/-! ### Custom properties -/

def canonicalVariable (v : Variable) : String :=
  "--" ++ String.ofList (Name.canonical v.name.toList)

def misspelled (s : Sheet) (v : Variable) : Option Issue :=
  if Name.isCanonicalVariable v.name.toList then none
  else
    let canonical := canonicalVariable v
    some
      { rule := "naming/non-canonical-variable"
        severity := .minor
        category := .naming
        message := s!"Variable '{v.name}' is not lowercase-hyphenated"
        location := s.locate v.pos
        suggestion := s!"Rename to '{canonical}'"
        sample := some ⟨s!"{v.name}: {v.value};", s!"{canonical}: {v.value};"⟩ }

/-- A color word, possibly followed by digits, that is a segment of the name. -/
def colorWord? (name : String) : Option String :=
  let segments :=
    splitOn (fun c => c == '-' || c == '_') ((lowerAscii name.toList).dropWhile (· == '-'))
  segments.findSome? fun segment =>
    Property.colorWords.find? fun word =>
      match word.toList.isPrefixOf? segment with
      | some rest => rest.all Char.isDigit
      | none => false

/-- The name says what the color is for, or is shared by the whole project. -/
def isRole (settings : NamingSettings) (name : String) : Bool :=
  settings.sharedTokens.contains name ||
    settings.rolePrefixes.any fun p => p.toList.isPrefixOf name.toList

def namedByLook (settings : NamingSettings) (s : Sheet) (v : Variable) : Option Issue :=
  if v.purpose != .color || isRole settings v.name then none
  else
    (colorWord? v.name).map fun word =>
      let prefixes := "\x60, \x60".intercalate settings.rolePrefixes
      { rule := "naming/literal-color-name"
        severity := .moderate
        category := .naming
        message :=
          s!"Color variable '{v.name}' describes its color ('{word}') instead of its role"
        location := s.locate v.pos
        suggestion :=
          "Name color variables after what they color, using a role prefix such as " ++
            s!"\x60{prefixes}\x60"
        sample := some ⟨s!"color: var({v.name});", "color: var(--text-muted);"⟩ }

/-- The prefixes that names of a purpose should have, and the purpose in words. -/
def expectedPrefixes : Purpose → Option (String × String × List String)
  | .spacing => some ("Spacing", "spacing", ["--space-", "--spacing-"])
  | .font =>
    some ("Font", "font", ["--font-", "--text-size-", "--line-height-", "--leading-"])
  | .radius => some ("Radius", "radius", ["--radius-"])
  | .duration =>
    some ("Duration", "duration", ["--duration-", "--transition-", "--ease-", "--easing-"])
  | .color | .other => none

def unprefixed (s : Sheet) (v : Variable) : Option Issue :=
  match expectedPrefixes v.purpose with
  | none => none
  | some (title, label, prefixes) =>
    if prefixes.any fun p => p.toList.isPrefixOf v.name.toList then none
    else
      some
        { rule := "naming/category-prefix"
          severity := .minor
          category := .naming
          message := s!"{title} variable '{v.name}' does not use a {label} prefix"
          location := s.locate v.pos
          suggestion := "Use one of: " ++ ", ".intercalate prefixes }

def variableIssues (settings : NamingSettings) (s : Sheet) (v : Variable) : List Issue :=
  (misspelled s v).toList ++ (namedByLook settings s v).toList ++ (unprefixed s v).toList

/-- The custom properties that are declared again in a scope. -/
def duplicates (s : Sheet) : List Issue :=
  (Repeats.repeats (fun v => (v.scope, v.name)) s.customProperties).map fun (first, v) =>
    { rule := "naming/duplicate-variable"
      severity := .moderate
      category := .duplication
      message :=
        s!"Variable '{v.name}' is declared again in '{v.scope}' (first on line {first.pos.line}); " ++
          "the last declaration silently wins"
      location := s.locate v.pos
      suggestion := "Keep a single declaration per scope and remove the others" }

/-! ### Classes -/

def misspelledClass (s : Sheet) (c : StyledClass) : Option Issue :=
  if Name.isCanonicalClass c.name.toList then none
  else
    let canonical := String.ofList (Name.canonical c.name.toList)
    some
      { rule := "naming/non-canonical-class"
        severity := .minor
        category := .naming
        message := s!"Class '.{c.name}' is not lowercase-hyphenated"
        location := s.locate c.pos
        suggestion := s!"Rename to '.{canonical}'"
        sample := some ⟨"." ++ c.name ++ " \x7b \x7d", "." ++ canonical ++ " \x7b \x7d"⟩ }

/-- What a spacing utility is called: the property, possibly a side, and a size. -/
def isSpacingUtility (name : List Char) : Bool :=
  let afterProperty :=
    match name with
    | 'm' :: cs | 'p' :: cs => some cs
    | 'g' :: 'a' :: 'p' :: cs => some cs
    | _ => none
  match afterProperty with
  | none => false
  | some cs =>
    let cs :=
      match cs with
      | [] => []
      | c :: rest => if "trblxy".toList.contains c then rest else c :: rest
    match cs with
    | '-' :: size => Name.isCanonical size
    | _ => false

/-- The word, or the word with an s, is a segment of the name. -/
def hasSegment (name word : String) : Bool :=
  (splitOn (fun c => c == '-' || c == '_') name.toList).any fun segment =>
    segment == word.toList || segment == word.toList ++ ['s']

/-- The pattern that the name of a utility should follow and does not, and what it is for. -/
def expectedPattern? (c : StyledClass) : Option (String × String) :=
  if !c.declarations.isEmpty && c.declarations.all (fun d => Property.listed Property.spacing d.name)
      && !isSpacingUtility c.name.toList then
    some ("\x7bm|p|gap\x7d\x7bt|r|b|l|x|y\x7d-\x7bsize\x7d", "spacing utilities")
  else if includes c.name "button" && !c.name.startsWith "btn-" then
    some ("btn-", "button utilities")
  else if hasSegment c.name "tag" && !c.name.startsWith "tag-" then
    some ("tag-", "tag utilities")
  else if hasSegment c.name "badge" && !c.name.startsWith "badge-" then
    some ("badge-", "badge utilities")
  else none

def offPattern (s : Sheet) (c : StyledClass) : Option Issue :=
  if c.kind != .utility then none
  else
    (expectedPattern? c).map fun (pattern, hint) =>
      { rule := "naming/utility-prefix"
        severity := .minor
        category := .naming
        message :=
          s!"Utility class '.{c.name}' does not follow the \x60{pattern}\x60 pattern for {hint}"
        location := s.locate c.pos
        suggestion := s!"Rename the class to the \x60{pattern}\x60 form" }

def classIssues (s : Sheet) (c : StyledClass) : List Issue :=
  (misspelledClass s c).toList ++ (offPattern s c).toList

/-! ### All naming rules -/

/-- A name is judged where it first occurs. -/
def check (settings : NamingSettings) (s : Sheet) : List Issue :=
  (Repeats.firsts (·.name) s.customProperties).flatMap (variableIssues settings s) ++
  duplicates s ++
  (Repeats.firsts (·.name) s.classes).flatMap (classIssues s)

end Naming
end SheetAudit
