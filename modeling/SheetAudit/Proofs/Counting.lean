import SheetAudit.Proofs.Cancellation
import SheetAudit.Proofs.Composition

/-!
# Counting progress

The messages of a phase count its items, each against the number of all of them.  The message
that opens a phase is sent before the phase begins and counts against the number of files, so the
second phase keeps to one total only if every file came through the first.

## Main definitions

* `Progress.ofPhase` — the messages of one phase.
* `Progress.Steady` — messages that count up within one total.
* `Progress.Consistent` — every phase is steady, and the first two end with everything done.

## Main results

* `Auditor.run_counts_up` — in every audit that succeeds, messages count up within their totals,
  and the first phase is steady and ends with everything done.
* `Auditor.run_consistent_iff` — **progress is consistent exactly if no file is at fault.**
-/

namespace SheetAudit

/-! ### Consistent progress -/

namespace Progress

/-- The messages of one phase. -/
def ofPhase (phase : Phase) (trace : List Progress) : List Progress :=
  trace.filter fun m => m.phase == phase

/-- Messages that count up, none beyond its total. -/
structure CountsUp (ms : List Progress) : Prop where
  done_le_total : ∀ m ∈ ms, m.done ≤ m.total
  never_decreasing : ms.Pairwise fun m m' => m.done ≤ m'.done

/-- Messages that count up within one total. -/
structure Steady (ms : List Progress) : Prop extends CountsUp ms where
  same_total : ∀ m ∈ ms, ∀ m' ∈ ms, m.total = m'.total

/-- The last message says that everything is done. -/
def Finished (ms : List Progress) : Prop := ∃ m, ms.getLast? = some m ∧ m.done = m.total

/-- Progress that keeps to one total in each phase, and reaches it where there is work to do. -/
structure Consistent (trace : List Progress) : Prop where
  steady : ∀ phase, Steady (ofPhase phase trace)
  parsing_finished : Finished (ofPhase .parsing trace)
  checking_finished : Finished (ofPhase .checking trace)

end Progress

/-! ### One phase -/

namespace Duty

open Progress

variable {α β : Type} (d : Duty α β)

theorem map_done_messagesFrom (total done : Nat) (xs : List α) :
    (d.messagesFrom total done xs).map (·.done) = List.range' (done + 1) xs.length := by
  induction xs generalizing done with
  | nil => rfl
  | cons x xs ih =>
    rw [messagesFrom, List.map_cons, ih, List.length_cons, List.range'_succ]
    rfl

theorem total_of_mem_messagesFrom {total done : Nat} {xs : List α} {m : Progress}
    (h : m ∈ d.messagesFrom total done xs) : m.total = total := by
  induction xs generalizing done with
  | nil => cases h
  | cons x xs ih =>
    rcases List.mem_cons.1 h with rfl | h
    · rfl
    · exact ih h

variable {d} {o : Progress} {items : List α}

/-- From the message that opens it, a phase counts from zero to the number of its items. -/
theorem map_done_opened (ho : o.done = 0) :
    (o :: d.messages items).map (·.done) = List.range' 0 (items.length + 1) := by
  rw [List.map_cons, ho, messages, map_done_messagesFrom, List.range'_succ]

theorem total_of_mem_opened {m : Progress} (hm : m ∈ o :: d.messages items) :
    m.total = o.total ∨ m.total = items.length := by
  rcases List.mem_cons.1 hm with rfl | hm
  · exact .inl rfl
  · exact .inr (d.total_of_mem_messagesFrom hm)

/-- A phase that is opened with at least as many items as there are counts up. -/
theorem countsUp_opened (ho : o.done = 0) (hle : items.length ≤ o.total) :
    CountsUp (o :: d.messages items) where
  done_le_total m hm := by
    have hdone : m.done ∈ List.range' 0 (items.length + 1) := by
      rw [← map_done_opened ho]
      exact List.mem_map_of_mem hm
    have hlt := (List.mem_range'_1.1 hdone).2
    rcases total_of_mem_opened hm with h | h
    · omega
    · omega
  never_decreasing := by
    have hpairwise : ((o :: d.messages items).map (·.done)).Pairwise (· ≤ ·) := by
      rw [map_done_opened ho]
      exact (List.pairwise_lt_range' 1).imp Nat.le_of_lt
    exact List.pairwise_map.1 hpairwise

/-- A phase that is opened with as many items as there are is steady. -/
theorem steady_opened (ho : o.done = 0) (htotal : o.total = items.length) :
    Steady (o :: d.messages items) where
  toCountsUp := countsUp_opened ho htotal.ge
  same_total m hm m' hm' := by
    have hall : ∀ m ∈ o :: d.messages items, m.total = items.length := fun m hm =>
      (total_of_mem_opened hm).elim (fun h => h.trans htotal) id
    rw [hall m hm, hall m' hm']

/-- The last message of a phase counts all of its items. -/
theorem exists_last (items : List α) (ho : o.done = 0) :
    ∃ m, (o :: d.messages items).getLast? = some m ∧ m.done = items.length := by
  have hlast : ((o :: d.messages items).map (·.done)).getLast? = some items.length := by
    rw [map_done_opened ho, List.getLast?_range', if_neg (Nat.succ_ne_zero _)]
    congr 1
    omega
  rw [List.getLast?_map, Option.map_eq_some_iff] at hlast
  exact hlast

theorem finished_opened (ho : o.done = 0) (htotal : o.total = items.length) :
    Finished (o :: d.messages items) := by
  obtain ⟨m, hm, hdone⟩ := exists_last (d := d) items ho
  refine ⟨m, hm, ?_⟩
  rcases total_of_mem_opened (List.mem_of_getLast? hm) with h | h
  · rw [hdone, h, htotal]
  · rw [hdone, h]

/-- A phase that is steady and ends with everything done was opened with as many items as there
are. -/
theorem total_eq_of_finished (ho : o.done = 0) (hsteady : Steady (o :: d.messages items))
    (hfinished : Finished (o :: d.messages items)) : o.total = items.length := by
  obtain ⟨m, hm, hdone⟩ := exists_last (d := d) items ho
  obtain ⟨m', hm', htotal⟩ := hfinished
  obtain rfl : m = m' := Option.some.inj (hm.symm.trans hm')
  rw [hsteady.same_total o List.mem_cons_self m (List.mem_of_getLast? hm), ← htotal, hdone]

theorem ofPhase_opened_self (ho : o.phase = d.phase) :
    ofPhase d.phase (o :: d.messages items) = o :: d.messages items :=
  List.filter_eq_self.2 fun _ hm => beq_iff_eq.2 (d.phase_of_mem_opened ho hm)

theorem ofPhase_opened_of_ne {phase : Phase} (ho : o.phase = d.phase) (hne : d.phase ≠ phase) :
    ofPhase phase (o :: d.messages items) = [] :=
  List.filter_eq_nil_iff.2 fun _ hm =>
    mt (fun h => (d.phase_of_mem_opened ho hm).symm.trans (beq_iff_eq.1 h)) hne

end Duty

/-! ### The whole audit -/

namespace Auditor

open Progress

variable (a : Auditor) (files : List String)

theorem ofPhase_append (phase : Phase) (before after : List Progress) :
    ofPhase phase (before ++ after) = ofPhase phase before ++ ofPhase phase after :=
  List.filter_append ..

theorem ofPhase_parsing_messages :
    ofPhase .parsing (a.messages files) = a.parsingMessages files := by
  have hparsing : ofPhase .parsing (a.parsingMessages files) = a.parsingMessages files :=
    Duty.ofPhase_opened_self (d := a.parsing) rfl
  have hchecking : ofPhase .parsing (a.checkingMessages files) = [] :=
    Duty.ofPhase_opened_of_ne (d := a.checking) rfl nofun
  rw [messages_eq, ofPhase_append, ofPhase_append, hparsing, hchecking, List.append_nil]
  exact List.append_nil _

theorem ofPhase_checking_messages :
    ofPhase .checking (a.messages files) = a.checkingMessages files := by
  have hparsing : ofPhase .checking (a.parsingMessages files) = [] :=
    Duty.ofPhase_opened_of_ne (d := a.parsing) rfl nofun
  have hchecking : ofPhase .checking (a.checkingMessages files) = a.checkingMessages files :=
    Duty.ofPhase_opened_self (d := a.checking) rfl
  rw [messages_eq, ofPhase_append, ofPhase_append, hparsing, hchecking, List.nil_append]
  exact List.append_nil _

theorem ofPhase_reporting_messages :
    ofPhase .reporting (a.messages files) = [Phase.reporting.opening files.length] := by
  have hparsing : ofPhase .reporting (a.parsingMessages files) = [] :=
    Duty.ofPhase_opened_of_ne (d := a.parsing) rfl nofun
  have hchecking : ofPhase .reporting (a.checkingMessages files) = [] :=
    Duty.ofPhase_opened_of_ne (d := a.checking) rfl nofun
  rw [messages_eq, ofPhase_append, ofPhase_append, hparsing, hchecking]
  rfl

theorem steady_reporting (files : Nat) : Steady [Phase.reporting.opening files] where
  done_le_total m hm := by rw [List.mem_singleton.1 hm]; exact Nat.le_refl _
  never_decreasing := List.pairwise_singleton ..
  same_total m hm m' hm' := by rw [List.mem_singleton.1 hm, List.mem_singleton.1 hm']

/-- There is a parsed file for every file that is not at fault. -/
theorem length_parsed : (a.parsed files).length = (files.filterMap a.sheetAt?).length := by
  induction files with
  | nil => rfl
  | cons path files ih =>
    rw [parsed, List.map_cons, successes, List.filterMap_cons, List.filterMap_cons]
    rcases a.parseFile_cases path with ⟨e, hparse, -, hsheet⟩ | ⟨source, sheet, hparse, -, hsheet⟩
    · rw [hparse, hsheet]
      exact ih
    · rw [hparse, hsheet]
      exact congrArg (· + 1) ih

theorem length_parsed_le : (a.parsed files).length ≤ files.length := by
  rw [length_parsed]
  exact List.length_filterMap_le ..

/-- As many files are parsed as there are files exactly if none is at fault. -/
theorem length_parsed_eq_iff :
    (a.parsed files).length = files.length ↔ ∀ path ∈ files, a.faultAt? path = none := by
  have hcount := a.length_faults files
  have hnone : files.filterMap a.faultAt? = [] ↔ ∀ path ∈ files, a.faultAt? path = none :=
    List.filterMap_eq_nil_iff
  rw [length_parsed, ← hnone, ← List.length_eq_zero_iff]
  omega

variable {a files}

/-- An audit that succeeds has sent all of its messages, even if one of them came too late to
cancel it. -/
theorem trace_of_run_ok {cancelAt : Option Nat} {found : Findings}
    (h : (a.run cancelAt files).1 = .ok found) :
    (a.run cancelAt files).2 = a.messages files := by
  cases cancelAt with
  | none => rw [run_none]
  | some n =>
    by_cases hparsing : n ≤ files.length
    · obtain ⟨m, -, hrun⟩ := a.run_some_of_parsing files hparsing
      rw [hrun] at h
      cases h
    · by_cases hchecking : n ≤ files.length + 1 + (a.parsed files).length
      · obtain ⟨m, -, hrun⟩ := a.run_some_of_checking files (by omega) hchecking
        rw [hrun] at h
        cases h
      · rw [run_some_of_checked a files (by omega), run_none]

/-- In every audit that succeeds, the messages of a phase count up, none beyond its total.  The
messages of the first phase have one total, and the last of them says that everything is done. -/
theorem run_counts_up {cancelAt : Option Nat} {found : Findings}
    (h : (a.run cancelAt files).1 = .ok found) :
    (∀ phase, CountsUp (ofPhase phase (a.run cancelAt files).2)) ∧
      Steady (ofPhase .parsing (a.run cancelAt files).2) ∧
      Finished (ofPhase .parsing (a.run cancelAt files).2) := by
  rw [trace_of_run_ok h, ofPhase_parsing_messages]
  have hsteady : Steady (a.parsingMessages files) := Duty.steady_opened (d := a.parsing) rfl rfl
  refine ⟨fun phase => ?_, hsteady, Duty.finished_opened (d := a.parsing) rfl rfl⟩
  cases phase with
  | parsing =>
    rw [ofPhase_parsing_messages]
    exact hsteady.toCountsUp
  | checking =>
    rw [ofPhase_checking_messages]
    exact Duty.countsUp_opened (d := a.checking) rfl (a.length_parsed_le files)
  | reporting =>
    rw [ofPhase_reporting_messages]
    exact (steady_reporting files.length).toCountsUp

/-- **Progress is consistent exactly if no file is at fault.**  A file that cannot be read or
parsed counts in the message that opens the second phase, and in no other message of it. -/
theorem run_consistent_iff {cancelAt : Option Nat} {found : Findings}
    (h : (a.run cancelAt files).1 = .ok found) :
    Consistent (a.run cancelAt files).2 ↔ ∀ path ∈ files, a.faultAt? path = none := by
  rw [trace_of_run_ok h, ← length_parsed_eq_iff]
  constructor
  · intro hconsistent
    have hsteady := hconsistent.steady .checking
    have hfinished := hconsistent.checking_finished
    rw [ofPhase_checking_messages] at hsteady hfinished
    exact (Duty.total_eq_of_finished (d := a.checking) rfl hsteady hfinished).symm
  · intro hlength
    refine ⟨fun phase => ?_, ?_, ?_⟩
    · cases phase with
      | parsing =>
        rw [ofPhase_parsing_messages]
        exact Duty.steady_opened (d := a.parsing) rfl rfl
      | checking =>
        rw [ofPhase_checking_messages]
        exact Duty.steady_opened (d := a.checking) rfl hlength.symm
      | reporting =>
        rw [ofPhase_reporting_messages]
        exact steady_reporting files.length
    · rw [ofPhase_parsing_messages]
      exact Duty.finished_opened (d := a.parsing) rfl rfl
    · rw [ofPhase_checking_messages]
      exact Duty.finished_opened (d := a.checking) rfl hlength.symm

/-- An auditor who can read one file only, and has no checkers. -/
def readerOfOne : Auditor where
  base := none
  read path := if path == "a" then .ok "" else .error "gone"
  checkers := []

theorem run_consistent_of_readable :
    (readerOfOne.run none ["a", "a"]).1 = .ok (readerOfOne.found ["a", "a"]) ∧
      Consistent (readerOfOne.run none ["a", "a"]).2 :=
  have hrun : (readerOfOne.run none ["a", "a"]).1 = .ok (readerOfOne.found ["a", "a"]) := by
    rw [run_none]
  ⟨hrun, (run_consistent_iff hrun).2 (by
    intro path hpath
    obtain rfl : path = "a" := by simpa using hpath
    cbv)⟩

/-- One of two files cannot be read: the second phase is opened with two and goes on with one. -/
theorem run_miscounts_unreadable :
    (readerOfOne.run none ["a", "b"]).1 = .ok (readerOfOne.found ["a", "b"]) ∧
      ¬ Consistent (readerOfOne.run none ["a", "b"]).2 := by
  refine ⟨by rw [run_none], fun hconsistent => ?_⟩
  have hsteady := hconsistent.steady .checking
  have hchecking : readerOfOne.checkingMessages ["a", "b"] =
      [⟨.checking, 0, 2, "Running checkers"⟩, ⟨.checking, 1, 1, "a"⟩] := by cbv
  rw [run_none, ofPhase_checking_messages, hchecking] at hsteady
  have htotal : (2 : Nat) = 1 :=
    hsteady.same_total _ List.mem_cons_self _ (List.mem_cons_of_mem _ List.mem_cons_self)
  cases htotal

end Auditor
end SheetAudit
