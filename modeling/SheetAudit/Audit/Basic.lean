import SheetAudit.Report.Plan
import SheetAudit.Sheet.Tree

/-!
# What an audit tells

An audit reports its progress, and keeps going when a file or a checker fails: it notes the fault
and leaves out what it concerns.  Only a cancellation ends it early.

## Main definitions

* `Progress` — a message about the progress of an audit.
* `Diagnostic` — a fault that did not end the audit.
* `Findings` — the result of an audit.
* `Cancellation` — how far an audit came that was cancelled.
-/

namespace SheetAudit

/-! ### Progress -/

inductive Phase where
  | parsing
  | checking
  | reporting
  deriving Repr, DecidableEq

def Phase.label : Phase → String
  | parsing => "parsing"
  | checking => "checking"
  | reporting => "reporting"

/-- How many of the files of a phase are done, with a message. -/
structure Progress where
  phase : Phase
  done : Nat
  total : Nat
  message : String
  deriving Repr, DecidableEq

/-! ### Diagnostics -/

/-- Why a file, or what a checker says of it, is left out. -/
inductive Fault where
  | unreadable (reason : String)
  | unparsable (error : ReadError)
  | brokenChecker (name reason : String)
  deriving Repr, DecidableEq

/-- A fault with the file it concerns, as the file is shown. -/
structure Diagnostic where
  path : String
  fault : Fault
  deriving Repr, DecidableEq

namespace Diagnostic

/-- The step of the audit that went wrong. -/
def kind (d : Diagnostic) : String :=
  match d.fault with
  | .unreadable _ => "read"
  | .unparsable _ => "parse"
  | .brokenChecker .. => "checker"

def message (d : Diagnostic) : String :=
  match d.fault with
  | .unreadable reason => reason
  | .unparsable e => e.describe d.path
  | .brokenChecker name reason => s!"checker '{name}' panicked: {reason}"

def text (d : Diagnostic) : String := s!"{d.path}: {d.kind} error: {d.message}"

end Diagnostic

/-! ### Results -/

structure Findings where
  report : Report
  plan : Plan
  diagnostics : List Diagnostic
  deriving Repr, DecidableEq

/-- An audit was cancelled after so many of the files of a phase. -/
structure Cancellation where
  processed : Nat
  total : Nat
  deriving Repr, DecidableEq

def Cancellation.message (c : Cancellation) : String :=
  s!"Audit cancelled after {c.processed} of {c.total} files"

end SheetAudit
