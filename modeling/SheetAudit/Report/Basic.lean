import SheetAudit.Issue

/-!
# Reports

A report arranges the issues of an audit by category, by severity and by file, counts them and
adds recommendations.  Each arrangement shows every issue once.

## Main definitions

* `groupOn`, `groupAlong` — the members of a list by key, in the order in which the keys first
  occur, or in a given order.
* `byCategory`, `bySeverity`, `byFile` — the three arrangements; no group is empty.
* `Summary` — the counts of a report.
* `recommendations` — advice that follows from the counts, then the standing advice.
* `Report` — all of this; `Report.of` makes it from a list of issues.
* `Grouping` — the arrangement that a rendered report shows.
-/

namespace SheetAudit
namespace Issues

/-! ### Arrangements -/

/-- The keys of a list in the order in which they first occur. -/
def keysOn {α κ : Type} [BEq κ] (key : α → κ) (xs : List α) : List κ :=
  xs.foldl (fun keys x => if keys.contains (key x) then keys else keys ++ [key x]) []

/-- Puts a member at the end of the group of its key, or into a new group at the end. -/
def enter {α κ : Type} [BEq κ] (k : κ) (x : α) : List (κ × List α) → List (κ × List α)
  | [] => [(k, [x])]
  | g :: gs => if g.1 == k then (g.1, g.2 ++ [x]) :: gs else g :: enter k x gs

/-- The members of a list by key, in the order in which the keys first occur. -/
def groupOn {α κ : Type} [BEq κ] (key : α → κ) (xs : List α) : List (κ × List α) :=
  xs.foldl (fun groups x => enter (key x) x groups) []

/-- The members of a list by key, in the order of the given keys, without empty groups. -/
def groupAlong {α κ : Type} [BEq κ] (keys : List κ) (key : α → κ) (xs : List α) :
    List (κ × List α) :=
  (keys.map fun k => (k, xs.filter fun x => key x == k)).filter fun g => !g.2.isEmpty

def byCategory (issues : List Issue) : List (Category × List Issue) :=
  groupAlong Category.all (·.category) issues

def bySeverity (issues : List Issue) : List (Severity × List Issue) :=
  groupAlong Severity.all (·.severity) issues

def byFile (issues : List Issue) : List (String × List Issue) := groupOn (·.file) issues

/-! ### Counts -/

def countSeverity (issues : List Issue) (s : Severity) : Nat :=
  issues.countP fun i => i.severity == s

def countCategory (issues : List Issue) (c : Category) : Nat :=
  issues.countP fun i => i.category == c

end Issues

structure Summary where
  total : Nat
  bySeverity : List (Severity × Nat)
  byCategory : List (Category × Nat)
  filesWithIssues : Nat
  filesScanned : Nat
  deriving Repr, DecidableEq

namespace Summary

def of (issues : List Issue) (filesScanned : Nat) : Summary where
  total := issues.length
  bySeverity := Severity.all.map fun s => (s, Issues.countSeverity issues s)
  byCategory := Category.all.map fun c => (c, Issues.countCategory issues c)
  filesWithIssues := (Issues.byFile issues).length
  filesScanned

/-- Some issue is at least as severe as `threshold`. -/
def hasAtLeast (s : Summary) (threshold : Severity) : Bool :=
  s.bySeverity.any fun (severity, n) => severity.atLeast threshold && n > 0

end Summary

/-! ### Recommendations -/

namespace Issues

/-- The issue is about a literal value, which the second part of its rule tells. -/
def isHardcoded (i : Issue) : Bool :=
  match Text.splitAt? ['/'] i.rule.toList with
  | some (_, rule) => "hardcoded-".toList.isPrefixOf rule
  | none => false

/-- Advice that holds for every project. -/
def standingAdvice : List String :=
  ["Enforce these conventions with a style-sheet linter in the editor and in CI",
    "Gate style changes in code review on a clean audit for the touched files",
    "Re-run the audit periodically and track the issue counts over time"]

/-- Advice that follows from the counts, then the standing advice. -/
def recommendations (issues : List Issue) : List String :=
  let critical := issues.countP fun i => i.severity == .critical && i.category == .accessibility
  let naming := countCategory issues .naming
  let performance := countCategory issues .performance
  let duplication := countCategory issues .duplication
  let hardcoded := issues.countP isHardcoded
  let advise (holds : Bool) (advice : String) : List String := if holds then [advice] else []
  advise (critical > 0)
    s!"Fix the {critical} critical accessibility issue(s) immediately; they block keyboard, low-vision or motion-sensitive users" ++
  advise (naming > 10)
    s!"Unify the naming convention: {naming} naming issues show variables and classes follow no shared scheme" ++
  advise (performance > 0)
    s!"Optimize the style sheets: remove the {performance} unnecessary vendor prefix(es) and other performance issues" ++
  advise (duplication > 5)
    s!"Consolidate repeated patterns: {duplication} duplicated variables or declaration blocks could be shared" ++
  advise (hardcoded > 20)
    s!"Adopt design tokens: {hardcoded} hardcoded colors, sizes and timings should come from variables" ++
  standingAdvice

end Issues

/-! ### Reports -/

structure Report where
  summary : Summary
  byCategory : List (Category × List Issue)
  bySeverity : List (Severity × List Issue)
  byFile : List (String × List Issue)
  recommendations : List String
  deriving Repr, DecidableEq

/-- The report on the issues that were found in so many files. -/
def Report.of (issues : List Issue) (filesScanned : Nat) : Report where
  summary := .of issues filesScanned
  byCategory := Issues.byCategory issues
  bySeverity := Issues.bySeverity issues
  byFile := Issues.byFile issues
  recommendations := Issues.recommendations issues

/-- The arrangement that a rendered report shows. -/
inductive Grouping where
  | category
  | severity
  | file
  deriving Repr, DecidableEq

def Grouping.read (word : String) : Except UnknownChoice Grouping :=
  Choice.read "grouping"
    [("category", .category), ("severity", .severity), ("file", .file)] word

/-- The groups of a report with their headings. -/
def Report.groups (r : Report) : Grouping → List (String × List Issue)
  | .category => r.byCategory.map fun g => (g.1.title, g.2)
  | .severity => r.bySeverity.map fun g => (g.1.title, g.2)
  | .file => r.byFile

end SheetAudit
