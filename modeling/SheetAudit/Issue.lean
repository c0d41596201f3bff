import SheetAudit.Choice
import SheetAudit.Source.Cell
import SheetAudit.Text.Search

/-!
# Issues

An issue is one finding of a rule: how severe it is, what it concerns, where it lies and what
can be done about it.

## Main definitions

* `Severity`, `Category` — the two ways in which issues are classified, each in declared order.
* `Location` — a position in a file.
* `Issue` — a finding.
-/

namespace SheetAudit

/-! ### Severity and category -/

/-- How urgently an issue needs attention, the most urgent first. -/
inductive Severity where
  | critical
  | moderate
  | minor
  deriving Repr, DecidableEq

namespace Severity

def all : List Severity := [critical, moderate, minor]

def label : Severity → String
  | critical => "critical"
  | moderate => "moderate"
  | minor => "minor"

def title : Severity → String
  | critical => "Critical"
  | moderate => "Moderate"
  | minor => "Minor"

def rank : Severity → Nat
  | critical => 0
  | moderate => 1
  | minor => 2

/-- `s` is at least as severe as `t`. -/
def atLeast (s t : Severity) : Bool := s.rank ≤ t.rank

def read (word : String) : Except UnknownChoice Severity :=
  Choice.read "severity" (all.map fun s => (s.label, s)) word

end Severity

/-- What an issue concerns. -/
inductive Category where
  | naming
  | organization
  | accessibility
  | performance
  | duplication
  | unused
  | bestPractice
  deriving Repr, DecidableEq

namespace Category

def all : List Category :=
  [naming, organization, accessibility, performance, duplication, unused, bestPractice]

def label : Category → String
  | naming => "naming"
  | organization => "organization"
  | accessibility => "accessibility"
  | performance => "performance"
  | duplication => "duplication"
  | unused => "unused"
  | bestPractice => "best-practice"

def title : Category → String
  | naming => "Naming"
  | organization => "Organization"
  | accessibility => "Accessibility"
  | performance => "Performance"
  | duplication => "Duplication"
  | unused => "Unused code"
  | bestPractice => "Best practice"

end Category

/-! ### Findings -/

/-- The path with slashes between its parts, whichever way they lean in it. -/
def forwardSlashes (path : String) : String :=
  path.map fun c => if c == '\\' then '/' else c

structure Location where
  file : String
  pos : Pos
  deriving Repr, DecidableEq

namespace Location

/-- The first character of a file, where findings about the whole file are put. -/
def fileStart (file : String) : Location := ⟨file, .start⟩

/-- The file as it is shown. -/
def shownFile (l : Location) : String := forwardSlashes l.file

def text (l : Location) : String := s!"{l.shownFile}:{l.pos.line}:{l.pos.column}"

end Location

/-- A snippet before and after a fix. -/
structure Example where
  before : String
  after : String
  deriving Repr, DecidableEq

structure Issue where
  /-- The rule that was broken, after the area it belongs to and a slash. -/
  rule : String
  severity : Severity
  category : Category
  message : String
  location : Location
  /-- What to do about it; empty when there is nothing to say. -/
  suggestion : String := ""
  sample : Option Example := none
  deriving Repr, DecidableEq

/-- The file of an issue as it is shown, under which issues are grouped. -/
def Issue.file (i : Issue) : String := i.location.shownFile

end SheetAudit
