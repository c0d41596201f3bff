import SheetAudit.Audit.Run

/-!
# The messages of an audit

What an audit finds and tells when nobody cancels it.

## Main definitions

* `Duty.messages` — the messages of a phase, one for each item.
* `Auditor.parsed` — the files of an audit that can be parsed.
* `Auditor.messages`, `Auditor.found` — the messages of an audit, and what it finds.

## Main results

* `Auditor.run_none` — **an audit that is not cancelled finds `found` and sends `messages`.**
-/

namespace SheetAudit

/-! ### One phase -/

namespace Duty

variable {α β : Type} (d : Duty α β)

/-- The messages on some items of a phase, after `done` others. -/
def messagesFrom (total done : Nat) : List α → List Progress
  | [] => []
  | x :: xs => d.message total (done + 1) x :: messagesFrom total (done + 1) xs

/-- The messages of a phase, one for each item. -/
def messages (items : List α) : List Progress := d.messagesFrom items.length 0 items

@[simp] theorem length_messagesFrom (total done : Nat) (xs : List α) :
    (d.messagesFrom total done xs).length = xs.length := by
  induction xs generalizing done with
  | nil => rfl
  | cons x xs ih => rw [messagesFrom, List.length_cons, List.length_cons, ih]

@[simp] theorem length_messages (items : List α) : (d.messages items).length = items.length :=
  d.length_messagesFrom ..

/-- The messages of a phase count its items. -/
theorem getElem?_messagesFrom (total done i : Nat) (xs : List α) :
    (d.messagesFrom total done xs)[i]? = xs[i]?.map (d.message total (done + i + 1)) := by
  induction xs generalizing done i with
  | nil => rfl
  | cons x xs ih =>
    cases i with
    | zero => rfl
    | succ i =>
      rw [messagesFrom, List.getElem?_cons_succ, List.getElem?_cons_succ, ih]
      congr 2
      omega

theorem phase_of_mem_messages {items : List α} {m : Progress} (h : m ∈ d.messages items) :
    m.phase = d.phase := by
  obtain ⟨i, hi⟩ := List.mem_iff_getElem?.1 h
  rw [messages, getElem?_messagesFrom, Option.map_eq_some_iff] at hi
  obtain ⟨x, -, rfl⟩ := hi
  rfl

theorem workFrom_none (total messages done : Nat) (xs : List α) :
    d.workFrom none total messages done xs = (xs.map d.work, d.messagesFrom total done xs) := by
  induction xs generalizing messages done with
  | nil => rfl
  | cons x xs ih =>
    rw [workFrom, if_neg (by simp [isCancelled]), ih]
    rfl

/-- A phase that is not cancelled goes through all items. -/
theorem run_none (trace : List Progress) (items : List α) :
    d.run none trace items = (.ok (items.map d.work), trace ++ d.messages items) := by
  rw [run, workFrom_none]
  exact if_neg (by simp [isCancelled])

end Duty

/-! ### The whole audit -/

namespace Auditor

variable (a : Auditor) (files : List String)

/-- The files that can be parsed. -/
def parsed : List ParsedFile := successes (files.map a.parseFile)

/-- What an audit finds that is not cancelled. -/
def found : Findings :=
  findings files.length (files.map a.parseFile) ((a.parsed files).map a.checkFile).flatten

/-- The messages before the checkers are run. -/
def parsingMessages : List Progress :=
  Phase.parsing.opening files.length :: a.parsing.messages files

/-- The messages while the checkers are run. -/
def checkingMessages : List Progress :=
  Phase.checking.opening files.length :: a.checking.messages (a.parsed files)

/-- The messages of an audit that is not cancelled. -/
def messages : List Progress :=
  a.parsingMessages files ++ a.checkingMessages files ++ [Phase.reporting.opening files.length]

/-- **An audit that is not cancelled finds `found` and sends `messages`.** -/
theorem run_none : a.run none files = (.ok (a.found files), a.messages files) := by
  rw [run, Duty.run_none]
  dsimp only
  rw [Duty.run_none]
  simp only [found, messages, parsingMessages, checkingMessages, parsing, checking, parsed,
    List.append_assoc, List.cons_append, List.nil_append]

end Auditor
end SheetAudit
