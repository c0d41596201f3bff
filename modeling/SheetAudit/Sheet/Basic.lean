import SheetAudit.Issue
import SheetAudit.Repeats
import SheetAudit.Sheet.Query
import SheetAudit.Source.Cell

/-!
# Style sheets

What the rules of an audit know about a style sheet: its custom properties, its selectors with
their declarations, the classes among them, its media queries and its keyframes.  Each carries
the position it was written at; the file is the same for all.

## Main definitions

* `Variable`, `Declaration`, `Rule`, `StyledClass`, `MediaQuery`, `Keyframes` — the parts.
* `Sheet` — a style sheet.
* `Sheet.declarations` — every declaration once, with the first selector it was written for.
-/

namespace SheetAudit

/-- What a custom property is for. -/
inductive Purpose where
  | color
  | spacing
  | font
  | radius
  | duration
  | other
  deriving Repr, DecidableEq

def Purpose.label : Purpose → String
  | color => "color"
  | spacing => "spacing"
  | font => "font"
  | radius => "radius"
  | duration => "duration"
  | other => "other"

/-- A custom property. -/
structure Variable where
  /-- The name with its two leading hyphens. -/
  name : String
  value : String
  purpose : Purpose
  /-- The selectors it is declared for, after the media query around them if there is one. -/
  scope : String
  pos : Pos
  deriving Repr, DecidableEq

/-- Declared for dark themes only. -/
def Variable.isDark (v : Variable) : Bool := Query.isDarkContext v.scope

structure Declaration where
  name : String
  value : String
  pos : Pos
  deriving Repr, DecidableEq

def Declaration.isImportant (d : Declaration) : Bool :=
  Text.contains "!important".toList (Text.lowerAscii d.value.toList)

/-- A selector with the declarations of its rule. -/
structure Rule where
  selector : String
  declarations : List Declaration
  media : Option String
  pos : Pos
  deriving Repr, DecidableEq

/-- A class serves one purpose wherever it is put, or is part of a component. -/
inductive ClassKind where
  | component
  | utility
  deriving Repr, DecidableEq

def ClassKind.label : ClassKind → String
  | component => "component"
  | utility => "utility"

/-- A rule seen as the definition of a class. -/
structure StyledClass where
  /-- The name without the dot. -/
  name : String
  kind : ClassKind
  selector : String
  declarations : List Declaration
  media : Option String
  pos : Pos
  deriving Repr, DecidableEq

/-- The last declaration of a property. -/
def StyledClass.property? (c : StyledClass) (name : String) : Option Declaration :=
  c.declarations.reverse.find? fun d => Text.sameAscii d.name.toList name.toList

structure MediaQuery where
  query : String
  /-- What stands between the braces, trimmed. -/
  content : String
  pos : Pos
  deriving Repr, DecidableEq

structure Keyframes where
  name : String
  pos : Pos
  deriving Repr, DecidableEq

structure Sheet where
  path : String
  customProperties : List Variable := []
  classes : List StyledClass := []
  rules : List Rule := []
  mediaQueries : List MediaQuery := []
  keyframes : List Keyframes := []
  deriving Repr, DecidableEq

namespace Sheet

/-- A place in the file of the sheet. -/
def locate (s : Sheet) (pos : Pos) : Location := ⟨s.path, pos⟩

/-- The start of the file, where findings about the whole sheet are put. -/
def start (s : Sheet) : Location := .fileStart s.path

def colorVariables (s : Sheet) : List Variable := s.customProperties.filter (·.purpose == .color)

/-- Every declaration once, with the first selector it was written for. -/
def declarations (s : Sheet) : List (Rule × Declaration) :=
  Repeats.firsts (fun p => p.2.pos)
    (s.rules.flatMap fun r => r.declarations.map fun d => (r, d))

end Sheet
end SheetAudit
