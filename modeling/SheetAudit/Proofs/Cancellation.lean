import Mathlib
import SheetAudit.Proofs.Messages

/-!
# Cancelled audits

An audit that is cancelled by one of its messages sends no other message after it.  What it has
sent and counted by then is what the same audit sends and counts when it is not cancelled.

## Main definitions

* `Auditor.phaseSize` — how many items a phase has.

## Main results

* `Duty.run_some_of_le`, `Duty.run_some_of_lt` — a phase that is cancelled too late, or in time.
* `Auditor.run_cancelled_by_message` — **a cancelled audit is cut off after the message that
  cancels it.**
-/

namespace SheetAudit

/-! ### One phase -/

namespace Duty

variable {α β : Type} (d : Duty α β)

/-- A cancelled phase goes through as many items as there are messages left to send. -/
theorem workFrom_some (n total messages done : Nat) (xs : List α) :
    d.workFrom (some n) total messages done xs =
      ((xs.map d.work).take (n + 1 - messages),
        (d.messagesFrom total done xs).take (n + 1 - messages)) := by
  induction xs generalizing messages done with
  | nil => simp [workFrom, messagesFrom]
  | cons x xs ih =>
    rw [workFrom]
    split
    · next hc =>
      have hn : n < messages := by simpa [isCancelled] using hc
      rw [Nat.sub_eq_zero_of_le hn, List.take_zero, List.take_zero]
    · next hc =>
      have hn : messages ≤ n := by simpa [isCancelled] using hc
      rw [ih, Nat.sub_add_comm hn, Nat.add_sub_add_right]
      rfl

/-- A phase that sends all of its messages before it is cancelled does not notice. -/
theorem run_some_of_le {n : Nat} {trace : List Progress} {items : List α}
    (h : trace.length + items.length ≤ n) :
    d.run (some n) trace items = d.run none trace items := by
  have hall : items.length ≤ n + 1 - trace.length := by omega
  have hwork : d.workFrom (some n) items.length trace.length 0 items =
      (items.map d.work, d.messages items) := by
    rw [workFrom_some, List.take_of_length_le, List.take_of_length_le, messages]
    · rw [length_messagesFrom]
      exact hall
    · rw [List.length_map]
      exact hall
  rw [run_none, run, hwork]
  refine if_neg ?_
  simp only [isCancelled, Option.any_some, List.length_append, length_messages, decide_eq_true_eq]
  omega

/-- A phase that is cancelled by one of its messages ends with this message.  The first one, `o`,
opens the phase. -/
theorem run_some_of_lt {n : Nat} {before : List Progress} {o : Progress} {items : List α}
    (hb : before.length ≤ n) (hn : n ≤ before.length + items.length) :
    d.run (some n) (before ++ [o]) items =
      (.error ⟨n - before.length, items.length⟩,
        (before ++ o :: d.messages items).take (n + 1)) := by
  have hlength : (before ++ [o]).length = before.length + 1 := by simp
  have hleft : n + 1 - (before.length + 1) = n - before.length := by omega
  have hle : n - before.length ≤ items.length := by omega
  have hwork : d.workFrom (some n) items.length (before ++ [o]).length 0 items =
      ((items.map d.work).take (n - before.length),
        (d.messages items).take (n - before.length)) := by
    rw [workFrom_some, hlength, hleft, messages]
  have htrace : before ++ [o] ++ (d.messages items).take (n - before.length) =
      (before ++ o :: d.messages items).take (n + 1) := by
    have hsplit : n + 1 = before.length + (n - before.length + 1) := by omega
    rw [hsplit, List.take_length_add_append, List.take_succ_cons, List.append_assoc,
      List.singleton_append]
  have hsent : (before ++ [o] ++ (d.messages items).take (n - before.length)).length = n + 1 := by
    rw [List.length_append, hlength, List.length_take, length_messages, Nat.min_eq_left hle]
    omega
  rw [run, hwork]
  dsimp only
  rw [if_pos, htrace, List.length_take, List.length_map, Nat.min_eq_left hle]
  rw [hsent]
  simp [isCancelled]

theorem phase_of_mem_opened {o m : Progress} {items : List α} (ho : o.phase = d.phase)
    (hm : m ∈ o :: d.messages items) : m.phase = d.phase := by
  rcases List.mem_cons.1 hm with rfl | hm
  · exact ho
  · exact d.phase_of_mem_messages hm

/-- The messages of a phase, from the one that opens it, count up from zero. -/
theorem getElem?_opened {n : Nat} {before : List Progress} {o : Progress} {items : List α}
    (ho : o.done = 0) (hphase : o.phase = d.phase) (hb : before.length ≤ n)
    (hn : n ≤ before.length + items.length) :
    ∃ m, (before ++ o :: d.messages items)[n]? = some m ∧ m.phase = d.phase ∧
      m.done = n - before.length := by
  rw [List.getElem?_append_right hb]
  cases hi : n - before.length with
  | zero => exact ⟨o, rfl, hphase, ho⟩
  | succ i =>
    have hlt : i < items.length := by omega
    refine ⟨d.message items.length (0 + i + 1) items[i], ?_, rfl, ?_⟩
    · rw [List.getElem?_cons_succ, messages, getElem?_messagesFrom, List.getElem?_eq_getElem hlt]
      rfl
    · exact congrArg (· + 1) (Nat.zero_add i)

/-- The message that cancels a phase tells how far the phase came. -/
theorem exists_cancelling {n : Nat} {before : List Progress} {o : Progress} {items : List α}
    (ho : o.done = 0) (hphase : o.phase = d.phase) (hb : before.length ≤ n)
    (hn : n ≤ before.length + items.length) :
    ∃ m, (before ++ o :: d.messages items)[n]? = some m ∧ m.phase = d.phase ∧
      d.run (some n) (before ++ [o]) items =
        (.error ⟨m.done, items.length⟩, (before ++ o :: d.messages items).take (n + 1)) := by
  obtain ⟨m, hm, hmphase, hdone⟩ := d.getElem?_opened ho hphase hb hn
  refine ⟨m, hm, hmphase, ?_⟩
  rw [d.run_some_of_lt hb hn, hdone]

end Duty

/-! ### The whole audit -/

namespace Auditor

variable (a : Auditor) (files : List String)

/-- How many items a phase has: the files are parsed, those that can be parsed are checked. -/
def phaseSize : Phase → Nat
  | .parsing => files.length
  | .checking => (a.parsed files).length
  | .reporting => 0

theorem length_parsingMessages : (a.parsingMessages files).length = files.length + 1 := by
  rw [parsingMessages, List.length_cons, Duty.length_messages]

theorem length_checkingMessages :
    (a.checkingMessages files).length = (a.parsed files).length + 1 := by
  rw [checkingMessages, List.length_cons, Duty.length_messages]

theorem messages_eq : a.messages files =
    (a.parsingMessages files ++ a.checkingMessages files) ++
      [Phase.reporting.opening files.length] := rfl

/-- The report is made when both phases are over. -/
theorem findIdx?_reporting :
    (a.messages files).findIdx? (fun m => m.phase == .reporting) =
      some ((a.parsingMessages files).length + (a.checkingMessages files).length) := by
  have hnone : ∀ m ∈ a.parsingMessages files ++ a.checkingMessages files,
      (m.phase == .reporting) = false := by
    intro m hm
    rcases List.mem_append.1 hm with hm | hm
    · rw [a.parsing.phase_of_mem_opened rfl hm]
      rfl
    · rw [a.checking.phase_of_mem_opened rfl hm]
      rfl
  have hlast : [Phase.reporting.opening files.length].findIdx?
      (fun m => m.phase == .reporting) = some 0 := rfl
  rw [messages_eq, List.findIdx?_append, List.findIdx?_eq_none_iff.2 hnone, hlast,
    List.length_append, Option.map_some, Nat.zero_add]
  rfl

/-- What an audit makes of its second phase. -/
theorem run_some_of_parsed {n : Nat} (hn : files.length < n) :
    a.run (some n) files =
      match a.checking.run (some n)
          (a.parsingMessages files ++ [Phase.checking.opening files.length])
          (a.parsed files) with
      | (.error c, trace) => (.error c, trace)
      | (.ok checked, trace) =>
        (.ok (findings files.length (files.map a.parseFile) checked.flatten),
          trace ++ [Phase.reporting.opening files.length]) := by
  have hle : [Phase.parsing.opening files.length].length + files.length ≤ n := by
    rw [List.length_singleton]
    omega
  rw [run, Duty.run_some_of_le _ hle, Duty.run_none]
  rfl

/-- An audit that is cancelled by a message of the first phase. -/
theorem run_some_of_parsing {n : Nat} (hn : n ≤ files.length) :
    ∃ m, (a.messages files)[n]? = some m ∧
      a.run (some n) files =
        (.error ⟨m.done, a.phaseSize files m.phase⟩, (a.messages files).take (n + 1)) := by
  have hlength := a.length_parsingMessages files
  have hle : n ≤ ([] : List Progress).length + files.length := by
    rw [List.length_nil]
    omega
  obtain ⟨m, hm, hphase, hrun⟩ := a.parsing.exists_cancelling
    (o := Phase.parsing.opening files.length) rfl rfl (Nat.zero_le n) hle
  rw [List.nil_append, ← parsingMessages] at hm
  rw [List.nil_append, List.nil_append, ← parsingMessages] at hrun
  have htake : (a.messages files).take (n + 1) = (a.parsingMessages files).take (n + 1) := by
    rw [messages, List.append_assoc, List.take_append_of_le_length (by omega)]
  refine ⟨m, ?_, ?_⟩
  · rw [messages, List.append_assoc, List.getElem?_append_left (by omega), hm]
  · rw [htake, run, hrun, hphase]
    rfl

/-- An audit that is cancelled by a message of the second phase. -/
theorem run_some_of_checking {n : Nat} (hn : files.length < n)
    (hle : n ≤ files.length + 1 + (a.parsed files).length) :
    ∃ m, (a.messages files)[n]? = some m ∧
      a.run (some n) files =
        (.error ⟨m.done, a.phaseSize files m.phase⟩, (a.messages files).take (n + 1)) := by
  have hparsing := a.length_parsingMessages files
  have hlength : (a.parsingMessages files ++ a.checkingMessages files).length =
      files.length + 1 + ((a.parsed files).length + 1) := by
    rw [List.length_append, length_parsingMessages, length_checkingMessages]
  have hb : (a.parsingMessages files).length ≤ n := by omega
  have hle : n ≤ (a.parsingMessages files).length + (a.parsed files).length := by omega
  obtain ⟨m, hm, hphase, hrun⟩ := a.checking.exists_cancelling
    (o := Phase.checking.opening files.length) rfl rfl hb hle
  rw [← checkingMessages] at hm hrun
  have htake : (a.messages files).take (n + 1) =
      (a.parsingMessages files ++ a.checkingMessages files).take (n + 1) := by
    rw [messages, List.take_append_of_le_length (by omega)]
  refine ⟨m, ?_, ?_⟩
  · rw [messages, List.getElem?_append_left (by omega), hm]
  · rw [htake, run_some_of_parsed a files hn, hrun, hphase]
    rfl

/-- An audit that is cancelled after both phases. -/
theorem run_some_of_checked {n : Nat} (hn : files.length + 1 + (a.parsed files).length < n) :
    a.run (some n) files = a.run none files := by
  have hle : (a.parsingMessages files ++ [Phase.checking.opening files.length]).length +
      (a.parsed files).length ≤ n := by
    rw [List.length_append, List.length_singleton, length_parsingMessages]
    omega
  rw [run_some_of_parsed a files (by omega), Duty.run_some_of_le _ hle, Duty.run_none, run_none,
    messages, checkingMessages]
  simp only [List.append_assoc, List.cons_append, List.nil_append]
  rfl

/-- **A cancelled audit is cut off after the message that cancels it.**  If message number `n`
cancels the audit before the report is made, the messages are the first `n + 1` of those that the
audit sends when it is not cancelled, and the last of them tells how far it came.  From the
report on nothing changes. -/
theorem run_cancelled_by_message (n : Nat) :
    ∃ found report,
      a.run none files = (.ok found, a.messages files) ∧
      (a.messages files).findIdx? (fun m => m.phase == .reporting) = some report ∧
      (n < report → ∃ m, (a.messages files)[n]? = some m ∧
        a.run (some n) files =
          (.error ⟨m.done, a.phaseSize files m.phase⟩, (a.messages files).take (n + 1))) ∧
      (report ≤ n → a.run (some n) files = (.ok found, a.messages files)) := by
  refine ⟨a.found files, _, a.run_none files, a.findIdx?_reporting files, fun hn => ?_,
    fun hn => ?_⟩
  · rw [length_parsingMessages, length_checkingMessages] at hn
    by_cases hp : n ≤ files.length
    · exact run_some_of_parsing a files hp
    · exact run_some_of_checking a files (by omega) (by omega)
  · rw [length_parsingMessages, length_checkingMessages] at hn
    rw [run_some_of_checked a files (by omega), run_none]

/-- The message that opens the second phase cancels the audit: of the two files one is left, and
that one is not checked. -/
example : (Auditor.run
    { base := none
      read := fun path => if path == "a" then .ok "" else .error "gone"
      checkers := [] }
    (some 3) ["a", "b"]).1 = .error ⟨0, 1⟩ := by
  cbv

end Auditor
end SheetAudit
