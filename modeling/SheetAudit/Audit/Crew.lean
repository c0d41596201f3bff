import SheetAudit.Audit.Run

/-!
# Audits by several workers

The items of a phase may be worked on at the same time.  A worker takes up an item, unless the
audit is cancelled by then, and works on it.  When it has finished it counts the item, sends the
message and delivers the result, with no other worker in between.  The phase is over when every
item is done or left out.  The audit may be cancelled at any moment.

## Main definitions

* `Job` — an item of a phase with what has become of it.
* `Shift` — what the workers of a phase share; `Shift.move?` is one step of one worker.
* `Course` — the state of an audit; `Auditor.move?` takes it one step further.
* `Auditor.course?` — the state of an audit after a list of moves, in whatever order these come.
-/

namespace SheetAudit

/-! ### Moves -/

/-- What may happen next in an audit. -/
inductive Move where
  /-- A worker takes up an item, or leaves it out because the audit is cancelled. -/
  | start (item : Nat)
  /-- The worker on an item has finished. -/
  | finish (item : Nat)
  | cancel
  /-- The phase ends. -/
  | proceed
  deriving Repr, DecidableEq

/-! ### One phase -/

/-- An item of a phase with what has become of it. -/
inductive Job (α β : Type) where
  | waiting (x : α)
  | begun (x : α)
  /-- The audit was cancelled before a worker could begin. -/
  | skipped (x : α)
  | done (x : α) (result : β)

namespace Job

variable {α β : Type}

def item : Job α β → α
  | waiting x => x
  | begun x => x
  | skipped x => x
  | done x _ => x

def result? : Job α β → Option β
  | done _ y => some y
  | _ => none

def isDone (j : Job α β) : Bool := j.result?.isSome

/-- No worker has to do with the item any more. -/
def isSettled : Job α β → Bool
  | waiting _ => false
  | begun _ => false
  | skipped _ => true
  | done _ _ => true

/-- The results in the order of the items, however they came in. -/
def results (jobs : List (Job α β)) : List β := jobs.filterMap result?

end Job

/-- What the workers of a phase share. -/
structure Shift (α β : Type) where
  cancelled : Bool
  /-- The messages of the audit so far. -/
  trace : List Progress
  /-- How many items are done. -/
  done : Nat
  jobs : List (Job α β)

namespace Shift

variable {α β : Type}

/-- The beginning of a phase. -/
def start (cancelled : Bool) (trace : List Progress) (items : List α) : Shift α β :=
  ⟨cancelled, trace, 0, items.map .waiting⟩

def isSettled (s : Shift α β) : Bool := s.jobs.all Job.isSettled

/-- How far a phase came that was cancelled. -/
def cancellation (s : Shift α β) : Cancellation := ⟨s.done, s.jobs.length⟩

/-- What is shared after a move, if the move is possible. -/
def move? (d : Duty α β) (s : Shift α β) : Move → Option (Shift α β)
  | .start i =>
    match s.jobs[i]? with
    | some (.waiting x) =>
      some { s with jobs := s.jobs.set i (if s.cancelled then .skipped x else .begun x) }
    | _ => none
  | .finish i =>
    match s.jobs[i]? with
    | some (.begun x) =>
      some { s with
        trace := s.trace ++ [d.message s.jobs.length (s.done + 1) x]
        done := s.done + 1
        jobs := s.jobs.set i (.done x (d.work x)) }
    | _ => none
  | .cancel => some { s with cancelled := true }
  | .proceed => none

end Shift

/-! ### The whole audit -/

/-- The state of an audit. -/
inductive Course where
  | parsing (s : Shift String (Except Diagnostic ParsedFile))
  | checking (files : List (Job String (Except Diagnostic ParsedFile)))
      (s : Shift ParsedFile (List (Except Diagnostic (List Issue))))
  /-- The audit was cancelled in a phase. -/
  | cut (phase : Phase) (c : Cancellation) (trace : List Progress)
  /-- The audit has come to its findings. -/
  | complete (files : List (Job String (Except Diagnostic ParsedFile)))
      (sheets : List (Job ParsedFile (List (Except Diagnostic (List Issue)))))
      (findings : Findings) (trace : List Progress)

/-- How an audit ended, with its messages. -/
def Course.outcome? : Course → Option (Except Cancellation Findings × List Progress)
  | .cut _ c trace => some (.error c, trace)
  | .complete _ _ findings trace => some (.ok findings, trace)
  | _ => none

/-- What follows when the workers are through with a phase.  Whether the audit is cancelled is
looked at once more, so that a cancelled phase is never taken for a complete one. -/
def Shift.close? {α β : Type} (s : Shift α β) (phase : Phase) (next : Course) : Option Course :=
  if !s.isSettled then none
  else if s.cancelled then some (.cut phase s.cancellation s.trace)
  else some next

namespace Auditor

/-- The state after a move in an audit of so many files, if the move is possible. -/
def move? (a : Auditor) (total : Nat) : Course → Move → Option Course
  | .parsing s, .proceed =>
    s.close? .parsing (.checking s.jobs (.start s.cancelled
      (s.trace ++ [Phase.checking.opening total]) (successes (Job.results s.jobs))))
  | .checking files s, .proceed =>
    s.close? .checking (.complete files s.jobs
      (findings total (Job.results files) (Job.results s.jobs).flatten)
      (s.trace ++ [Phase.reporting.opening total]))
  | .parsing s, m => (s.move? a.parsing m).map .parsing
  | .checking files s, m => (s.move? a.checking m).map (.checking files)
  | c, .cancel => some c
  | _, _ => none

/-- An audit that has just begun. -/
def outset (files : List String) : Course :=
  .parsing (.start false [Phase.parsing.opening files.length] files)

/-- The state of an audit after a list of moves, if these are possible one after the other. -/
def course? (a : Auditor) (files : List String) (moves : List Move) : Option Course :=
  moves.foldlM (a.move? files.length) (outset files)

end Auditor
end SheetAudit
