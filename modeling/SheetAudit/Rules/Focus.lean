import SheetAudit.Property
import SheetAudit.Selector.Compound
import SheetAudit.Sheet.Basic
import SheetAudit.Text.Search

/-!
# Focus rules

What can receive keyboard focus must show when it has it.

## Main definitions

* `isInteractive` — a selector for what can receive focus.
* `missing` — interactive selectors that have no style for the focus.
* `removed` — rules that take the outline away and put nothing in its place.
* `check` — all findings of these rules.
-/

namespace SheetAudit
namespace Focus

open Text Selector

/-- The selector without its pseudo-classes, under which focus styles are looked up. -/
def base (selector : String) : List Char := stripPseudo selector.toList

def hasFocusPseudo (selector : String) : Bool :=
  Property.focusPseudoClasses.any fun p => includes selector p

/-- The rules that style the focus. -/
def focusRules (s : Sheet) : List Rule := s.rules.filter fun r => hasFocusPseudo r.selector

/-! ### Missing styles -/

/-- The subject is an interactive element, has an interactive attribute or a class that looks like
a button. -/
def isInteractive (base : List Char) : Bool :=
  match subject base with
  | none => false
  | some compound =>
    let element := lowerAscii (compound.takeWhile fun c => c.isAlphanum || c == '-')
    let quoted := compound.map fun c => if c == '\'' then '"' else c
    Property.interactiveElements.contains (String.ofList element) ||
      Property.interactiveAttributes.any (fun a => contains a.toList quoted) ||
      ((splitOn (· == '.') compound).drop 1).any fun name =>
        Property.buttonHints.any fun hint => contains hint.toList (lowerAscii name)

def missingStyle (s : Sheet) (r : Rule) : Issue :=
  let base := String.ofList (base r.selector)
  { rule := "animation/missing-focus-style"
    severity := .moderate
    category := .accessibility
    message := s!"Interactive selector '{base}' has no :focus or :focus-visible style"
    location := s.locate r.pos
    suggestion := s!"Add a visible '{base}:focus-visible' style for keyboard users"
    sample := some
      ⟨base ++ ":hover \x7b background: var(--bg-hover); \x7d",
        base ++ ":focus-visible \x7b outline: 2px solid var(--focus-ring); \x7d"⟩ }

/-- The first rule of every interactive base without a style for the focus. -/
def missing (s : Sheet) : List Issue :=
  let styled := (focusRules s).map fun r => base r.selector
  let bare := s.rules.filter fun r =>
    isInteractive (base r.selector) && !styled.contains (base r.selector)
  (Repeats.firsts (fun r => base r.selector) bare).map (missingStyle s)

/-! ### Removed outlines -/

/-- Without `!important` at the end, however often it stands there; the text is given backwards. -/
def dropFlags (cs : List Char) : List Char :=
  match _h : dropAscii? "tnatropmi!".toList cs with
  | some rest => dropFlags rest
  | none => cs
termination_by cs.length
decreasing_by
  have h := length_dropAscii? _h
  have : "tnatropmi!".toList.length = 10 := rfl
  omega

def removesOutline (d : Declaration) : Bool :=
  let value := lowerAscii (trim d.value.toList)
  let value := String.ofList (trim (dropFlags value.reverse).reverse)
  (d.name == "outline" || d.name == "outline-style" || d.name == "outline-width") &&
    (value == "none" || value == "0" || value == "0px")

def invisible : List String := ["none", "0", "0px", "transparent", "inherit", "unset"]

def showsFocus (d : Declaration) : Bool :=
  Property.listed Property.visibleFocus d.name && !removesOutline d &&
    !invisible.contains (String.ofList (lowerAscii (trim d.value.toList)))

def removedOutline (s : Sheet) (r : Rule) (outline : Declaration) : Issue where
  rule := "animation/focus-indicator-removed"
  severity := .critical
  category := .accessibility
  message := s!"'{r.selector}' removes the focus outline without a visible replacement"
  location := s.locate outline.pos
  suggestion := "Keep the outline or replace it with a visible indicator such as box-shadow"
  sample := some
    ⟨r.selector ++ " \x7b outline: none; \x7d",
      r.selector ++
        " \x7b outline: 2px solid var(--focus-ring); outline-offset: 2px; \x7d"⟩

/-- A focus style of the same base may show the focus in place of the outline. -/
def removed (s : Sheet) : List Issue :=
  let rules := focusRules s
  let visible := (rules.filter fun r => r.declarations.any showsFocus).map fun r => base r.selector
  rules.filterMap fun r =>
    match r.declarations.find? removesOutline with
    | none => none
    | some outline =>
      if visible.contains (base r.selector) then none else some (removedOutline s r outline)

/-! ### All focus rules -/

def check (s : Sheet) : List Issue := missing s ++ removed s

end Focus
end SheetAudit
