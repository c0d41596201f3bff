import SheetAudit.Color.Contrast
import SheetAudit.Color.Resolver
import SheetAudit.Decimal.Digits
import SheetAudit.Property
import SheetAudit.Settings
import SheetAudit.Value.Literal

/-!
# Theming rules

Colors that are written literally, contrast between text and background, and color properties
without a counterpart for dark themes.

## Main definitions

* `hardcoded`, `lowContrast`, `darkMode` — the findings of each rule.
* `check` — all findings of these rules.
-/

namespace SheetAudit
namespace Theming

open Text

/-! ### Literal colors -/

/-- The colors that a declaration writes literally where a color belongs. -/
def literalColors (d : Declaration) : List String :=
  if Property.listed Property.colored d.name then Value.colors d.value.toList else []

/-- The value with a reference in place of the first occurrence of a literal. -/
def referring (value literal reference : String) : String :=
  String.ofList (replaceFirst literal.toList reference.toList value.toList)

def hardcodedColor (s : Sheet) (r : Rule) (d : Declaration) : Option Issue :=
  match literalColors d with
  | [] => none
  | first :: rest =>
    let colors := ", ".intercalate (first :: rest)
    let fixed := referring d.value first "var(--text-primary)"
    some
      { rule := "color/hardcoded-color"
        severity := .moderate
        category := .bestPractice
        message := s!"Hardcoded color {colors} in '{d.name}' of '{r.selector}'"
        location := s.locate d.pos
        suggestion := "Reference a theme variable so the color follows the theme"
        sample := some ⟨s!"{d.name}: {d.value};", s!"{d.name}: {fixed};"⟩ }

def hardcoded (s : Sheet) : List Issue :=
  s.declarations.filterMap fun (r, d) => hardcodedColor s r d

/-! ### Contrast -/

/-- The contrast between the text and the background of a class, where both are known. -/
def contrast? (declared : List Variable) (c : StyledClass) : Option Float := do
  let text ← Color.resolve declared (← c.property? "color").value.toList
  let background ← c.declarations.reverse.find? fun d =>
    d.name == "background-color" || d.name == "background"
  let background ← Color.resolve declared background.value.toList
  return Color.contrast text background

def lowContrast (settings : ColorSettings) (s : Sheet) : List Issue :=
  s.classes.filterMap fun c =>
    match contrast? s.customProperties c with
    | none => none
    | some ratio =>
      if ratio < settings.minContrast then
        let least := Decimal.fixed 1 settings.minContrast
        some
          { rule := "color/low-contrast"
            severity := .critical
            category := .accessibility
            message :=
              s!"Contrast ratio {Decimal.fixed 2 ratio}:1 between text and background of " ++
                s!"'{c.selector}' is below {least}:1"
            location := s.locate c.pos
            suggestion :=
              "Darken the text or lighten the background until the ratio reaches at least " ++
                s!"{least}:1" }
      else none

/-! ### Dark themes -/

/-- The sheet provides for dark themes in any way at all. -/
def hasDarkMode (s : Sheet) : Bool :=
  s.mediaQueries.any (fun m => Query.asksDark m.query) ||
    s.rules.any (fun r => Query.isDarkContext r.selector) || s.customProperties.any (·.isDark)

def missingDarkMode (s : Sheet) (colors : Nat) : Issue where
  rule := "color/missing-dark-mode"
  severity := .moderate
  category := .accessibility
  message := s!"{colors} color variables are defined but there is no dark-mode variant"
  location := s.start
  suggestion :=
    "Override the color variables under @media (prefers-color-scheme: dark) or a " ++
      "[data-theme=\"dark\"] scope"
  sample := some
    ⟨":root \x7b --bg-page: #fff; \x7d",
      ":root \x7b --bg-page: #fff; \x7d\n@media (prefers-color-scheme: dark) \x7b\n" ++
        "  :root \x7b --bg-page: #111; \x7d\n\x7d"⟩

def missingOverride (s : Sheet) (v : Variable) : Issue where
  rule := "color/missing-dark-override"
  severity := .minor
  category := .bestPractice
  message := s!"Color variable '{v.name}' has no dark-mode override"
  location := s.locate v.pos
  suggestion :=
    s!"Declare '{v.name}' again in the dark-mode scope, or confirm it works on both themes"

def darkMode (s : Sheet) : List Issue :=
  let light := s.colorVariables.filter fun v => !v.isDark
  if light.isEmpty then []
  else if !hasDarkMode s then [missingDarkMode s light.length]
  else
    let overridden := (s.customProperties.filter (·.isDark)).map (·.name)
    (Repeats.firsts (·.name) (light.filter fun v => !overridden.contains v.name)).map
      (missingOverride s)

/-! ### All theming rules -/

def check (settings : ColorSettings) (s : Sheet) : List Issue :=
  hardcoded s ++ lowContrast settings s ++ darkMode s

end Theming
end SheetAudit
