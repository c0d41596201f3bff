import SheetAudit.Decimal.Digits
import SheetAudit.Report.Basic

/-!
# Fix plans

A plan turns the issues of an audit into tasks, one for each severity and category that occur
together, the most pressing first.

## Main definitions

* `Task` — the issues of one severity and category, fixed together.
* `Plan` — the tasks in order, with the time that they take.
* `Plan.of` — the plan for a list of issues.
* `duration` — a number of minutes in words.
-/

namespace SheetAudit

/-! ### Time -/

/-- Minutes below an hour; above, hours to the nearest tenth. -/
def duration (minutes : Nat) : String :=
  if minutes < 60 then s!"{minutes} minutes"
  else
    let tenths := (Decimal.roundNat (Decimal.ofNat minutes / 60 * 10)).getD 0
    let hours := Decimal.ofNat tenths / 10
    if (hours - 1).abs < 2.220446049250313e-16 then "1 hour"
    else if Decimal.isWhole hours then s!"{Decimal.fixed 0 hours} hours"
    else s!"{Decimal.fixed 1 hours} hours"

namespace Severity

/-- What a severity adds to the priority of a task. -/
def weight : Severity → Nat
  | critical => 100
  | moderate => 50
  | minor => 10

/-- The minutes that one issue takes to fix. -/
def minutes : Severity → Nat
  | critical => 30
  | moderate => 15
  | minor => 5

end Severity

/-! ### Tasks -/

/-- The issues of one severity and category, fixed together. -/
structure Task where
  severity : Severity
  category : Category
  issues : List Issue
  deriving Repr, DecidableEq

namespace Task

def id (t : Task) : String := s!"{t.severity.label}-{t.category.label}"

def title (t : Task) : String :=
  let n := t.issues.length
  s!"Fix {n} {t.severity.label} {t.category.label} issue" ++ if n == 1 then "" else "s"

/-- More pressing tasks have a higher priority. -/
def priority (t : Task) : Nat := t.severity.weight + t.issues.length

def minutes (t : Task) : Nat := t.severity.minutes * t.issues.length

def time (t : Task) : String := duration t.minutes

/-- One line for each message of a rule, with the number of times it occurs. -/
def messageLines (issues : List Issue) : List String :=
  (Issues.groupOn (fun i => (i.rule, i.message)) issues).map fun ((rule, message), group) =>
    s!"\n- [{rule}] {message}" ++ if group.length > 1 then s!" (x{group.length})" else ""

/-- The files concerned, then the messages. -/
def description (t : Task) : String :=
  let files := Issues.keysOn (·.file) t.issues
  s!"Affected files ({files.length}): " ++ ", ".intercalate files ++ "\n" ++
    String.join (messageLines t.issues)

end Task

/-! ### Plans -/

namespace Task

/-- What tasks are sorted by: the priority, the severity and the category. -/
def sortKey (t : Task) : Nat × Nat × Nat := (t.priority, t.severity.rank, t.category.ctorIdx)

/-- The key comes first or is the same: a higher priority comes first, and where priorities are
the same, what is more severe, and then the earlier category. -/
def sortsBefore (k k' : Nat × Nat × Nat) : Bool :=
  k'.1 < k.1 || k.1 == k'.1 && (k.2.1 < k'.2.1 || k.2.1 == k'.2.1 && k.2.2 ≤ k'.2.2)

end Task

structure Plan where
  tasks : List Task
  deriving Repr, DecidableEq

namespace Plan

/-- The tasks for a list of issues, in the order in which their severities and categories first
occur together. -/
def tasksOf (issues : List Issue) : List Task :=
  let groups := Issues.groupOn (fun i => (i.severity, i.category)) issues
  groups.map fun ((severity, category), held) => { severity, category, issues := held }

/-- The plan for a list of issues. -/
def of (issues : List Issue) : Plan :=
  ⟨(tasksOf issues).mergeSort fun s t => Task.sortsBefore s.sortKey t.sortKey⟩

def minutes (p : Plan) : Nat := (p.tasks.map Task.minutes).foldr (· + ·) 0

def effort (p : Plan) : String := duration p.minutes

/-- The tasks in the order in which they should be done. -/
def order (p : Plan) : List String := p.tasks.map Task.id

end Plan
end SheetAudit
