import SheetAudit.Audit.Basic
import SheetAudit.Files.Path
import SheetAudit.Rules.Checker
import SheetAudit.Sheet.Reading

/-!
# Running an audit

All files are parsed first, then the checkers are run on those that could be parsed, then the
report is made.  Progress is reported after every file of the first two phases and at the
beginning of each phase.

An audit may be cancelled by any of its progress messages: no further file is begun, and the
audit ends with the phase.

## Main definitions

* `Auditor` — what an audit depends on besides the list of files.
* `Auditor.parseFile`, `Auditor.checkFile` — the work on one file.
* `Duty` — what is done in a phase that works through a list; `Duty.run` does it.
* `Auditor.run` — an audit with its progress messages.
-/

namespace SheetAudit

structure Auditor where
  /-- Files are shown relative to it. -/
  base : Option String
  /-- The text of a file, or why it cannot be read. -/
  read : String → Except String String
  /-- The style sheet in a text, for the path that its file is shown under. -/
  parse : String → String → Except ReadError Sheet := Sheet.parse
  checkers : List Checker

/-- A file that could be parsed. -/
structure ParsedFile where
  /-- The path of the file as it is shown. -/
  path : String
  source : String
  sheet : Sheet

namespace Auditor

/-! ### One file -/

def parseFile (a : Auditor) (path : String) : Except Diagnostic ParsedFile :=
  let shown := Path.display a.base path
  match a.read path with
  | .error reason => .error ⟨shown, .unreadable reason⟩
  | .ok source =>
    match a.parse shown source with
    | .error e => .error ⟨shown, .unparsable e⟩
    | .ok sheet => .ok ⟨shown, source, sheet⟩

/-- A checker that breaks down loses its own issues only. -/
def checkFile (a : Auditor) (file : ParsedFile) : List (Except Diagnostic (List Issue)) :=
  a.checkers.map fun c =>
    match c.check file.sheet (some file.source) with
    | .ok issues => .ok issues
    | .error reason => .error ⟨file.path, .brokenChecker c.name reason⟩

/-- A file is announced by its name, if its path has one. -/
def announced (path : String) : String := ((Path.fileName? path.toList).map String.ofList).getD path

end Auditor

/-! ### Phases -/

/-- The message that opens a phase of an audit of so many files. -/
def Phase.opening (phase : Phase) (files : Nat) : Progress :=
  match phase with
  | parsing => ⟨parsing, 0, files, "Parsing style sheets"⟩
  | checking => ⟨checking, 0, files, "Running checkers"⟩
  | reporting => ⟨reporting, files, files, "Building report"⟩

/-- What is done in a phase that works through a list. -/
structure Duty (α β : Type) where
  phase : Phase
  /-- How an item is announced. -/
  name : α → String
  work : α → β

namespace Duty

variable {α β : Type} (d : Duty α β)

/-- The message that an item is done, the `done`-th of `total`. -/
def message (total done : Nat) (x : α) : Progress := ⟨d.phase, done, total, d.name x⟩

/-- Cancelled by message number `n`, if there have been so many. -/
def isCancelled (cancelAt : Option Nat) (messages : Nat) : Bool :=
  cancelAt.any fun n => n < messages

/-- Works through the items of a phase until they are done or the audit is cancelled; `messages`
counts those of the audit so far, `done` the items that are done. -/
def workFrom (cancelAt : Option Nat) (total messages done : Nat) : List α → List β × List Progress
  | [] => ([], [])
  | x :: xs =>
    if isCancelled cancelAt messages then ([], [])
    else
      let rest := workFrom cancelAt total (messages + 1) (done + 1) xs
      (d.work x :: rest.1, d.message total (done + 1) x :: rest.2)

/-- The results of a phase, or how far it came; `trace` holds the messages before it. -/
def run (cancelAt : Option Nat) (trace : List Progress) (items : List α) :
    Except Cancellation (List β) × List Progress :=
  let r := d.workFrom cancelAt items.length trace.length 0 items
  let trace := trace ++ r.2
  if isCancelled cancelAt trace.length then (.error ⟨r.1.length, items.length⟩, trace)
  else (.ok r.1, trace)

end Duty

namespace Auditor

def parsing (a : Auditor) : Duty String (Except Diagnostic ParsedFile) :=
  ⟨.parsing, announced, a.parseFile⟩

def checking (a : Auditor) : Duty ParsedFile (List (Except Diagnostic (List Issue))) :=
  ⟨.checking, ParsedFile.path, a.checkFile⟩

def failures {ε α : Type} (results : List (Except ε α)) : List ε :=
  results.filterMap fun
    | .error e => some e
    | .ok _ => none

def successes {ε α : Type} (results : List (Except ε α)) : List α :=
  results.filterMap fun
    | .error _ => none
    | .ok x => some x

/-! ### The whole audit -/

/-- The findings on files that have been parsed and checked; diagnostics come in the order of the
phases. -/
def findings (files : Nat) (parsed : List (Except Diagnostic ParsedFile))
    (checked : List (Except Diagnostic (List Issue))) : Findings :=
  let issues := (successes checked).flatten
  { report := .of issues files
    plan := .of issues
    diagnostics := failures parsed ++ failures checked }

/-- An audit of a list of files, cancelled by message number `cancelAt` if that is given, with all
messages that were sent. -/
def run (a : Auditor) (cancelAt : Option Nat) (files : List String) :
    Except Cancellation Findings × List Progress :=
  match a.parsing.run cancelAt [Phase.parsing.opening files.length] files with
  | (.error c, trace) => (.error c, trace)
  | (.ok parsed, trace) =>
    match a.checking.run cancelAt (trace ++ [Phase.checking.opening files.length])
        (successes parsed) with
    | (.error c, trace) => (.error c, trace)
    | (.ok checked, trace) =>
      (.ok (findings files.length parsed checked.flatten),
        trace ++ [Phase.reporting.opening files.length])

end Auditor
end SheetAudit
