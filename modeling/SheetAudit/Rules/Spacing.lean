import SheetAudit.Property
import SheetAudit.Sheet.Basic
import SheetAudit.Value.Number

/-!
# Spacing rules

Spacing, type sizes and radii that are written literally instead of taken from a scale.

## Main definitions

* `spacingLiterals`, `typeLiterals`, `radiusLiterals` — the literals of a declaration that each
  rule objects to.
* `check` — all findings of these rules.
-/

namespace SheetAudit
namespace Spacing

open Text

/-! ### What the rules object to -/

def isSpacing (d : Declaration) : Bool := Property.listed Property.spacing d.name

def isTypeSize (d : Declaration) : Bool :=
  !isSpacing d && (d.name == "font-size" || d.name == "line-height")

def isRadius (d : Declaration) : Bool :=
  !isSpacing d && !isTypeSize d && Property.listed Property.radius d.name

def spacingLiterals (d : Declaration) : List String :=
  if isSpacing d then Value.lengths d.value.toList else []

/-- A line height may be a plain number, which is a literal too. -/
def typeLiterals (d : Declaration) : List String :=
  if !isTypeSize d then []
  else if d.name == "font-size" then Value.lengths d.value.toList
  else Value.numbers d.value.toList

def radiusLiterals (d : Declaration) : List String :=
  if isRadius d then
    (Value.lengths d.value.toList).filter fun l => !Property.radiusShapes.contains l
  else []

/-! ### Findings -/

/-- The spacing property that holds a literal; the last of several. -/
def tokenFor? (declared : List Variable) (literal : String) : Option String :=
  (declared.reverse.find? fun v =>
    v.purpose == .spacing && trim v.value.toList == literal.toList).map (·.name)

/-- The first of the literals that a spacing property holds, and the property. -/
def heldLiteral? (declared : List Variable) (literals : List String) :
    Option (String × String) :=
  literals.findSome? fun l => (tokenFor? declared l).map fun name => (l, name)

/-- What to write instead: the suggestion, and the declaration after the fix. -/
def proposal (declared : List Variable) (d : Declaration) (literals : List String) :
    String × String :=
  match heldLiteral? declared literals with
  | some (literal, name) =>
    let reference := s!"var({name})"
    let fixed := String.ofList (replaceFirst literal.toList reference.toList d.value.toList)
    (s!"Use {reference}, which already holds {literal}", s!"{d.name}: {fixed};")
  | none =>
    ("Use a variable from the spacing scale (e.g. var(--space-md))",
      s!"{d.name}: var(--space-md);")

def hardcodedSpacing (s : Sheet) (d : Declaration) : Option Issue :=
  let literals := spacingLiterals d
  if literals.isEmpty then none
  else
    let (suggestion, after) := proposal s.customProperties d literals
    some
      { rule := "spacing/hardcoded-spacing"
        severity := .moderate
        category := .bestPractice
        message := "Hardcoded spacing " ++ " ".intercalate literals ++ s!" in '{d.name}'"
        location := s.locate d.pos
        suggestion
        sample := some ⟨s!"{d.name}: {d.value};", after⟩ }

def hardcodedType (s : Sheet) (d : Declaration) : Option Issue :=
  let literals := typeLiterals d
  if literals.isEmpty then none
  else
    some
      { rule := "spacing/hardcoded-font-size"
        severity := .minor
        category := .bestPractice
        message := s!"Hardcoded {d.name} " ++ " ".intercalate literals
        location := s.locate d.pos
        suggestion :=
          "Take type sizes from the type scale (e.g. var(--font-size-md), var(--line-height-body))" }

def hardcodedRadius (s : Sheet) (d : Declaration) : Option Issue :=
  let literals := radiusLiterals d
  if literals.isEmpty then none
  else
    some
      { rule := "spacing/hardcoded-radius"
        severity := .minor
        category := .bestPractice
        message := "Hardcoded radius " ++ " ".intercalate literals ++ s!" in '{d.name}'"
        location := s.locate d.pos
        suggestion := "Use a radius variable (e.g. var(--radius-md))" }

/-- A declaration falls under at most one of the three rules. -/
def declarationIssues (s : Sheet) (d : Declaration) : List Issue :=
  (hardcodedSpacing s d).toList ++ (hardcodedType s d).toList ++ (hardcodedRadius s d).toList

def check (s : Sheet) : List Issue := s.declarations.flatMap fun p => declarationIssues s p.2

end Spacing
end SheetAudit
