import SheetAudit.Proofs.Interleaving

/-!
# The audit of one worker

An audit that goes through its files in order is one of the courses that an audit by several
workers can take: a single worker takes up an item as soon as the one before is done, and the
audit is cancelled right after the message that cancels it.

## Main definitions

* `Reaches` — some moves lead from one state to another.
* `Shift.Through` — what one worker makes of a phase.

## Main results

* `Shift.exists_reaches` — one worker goes through a phase.
* `exists_course_of_run` — **an audit by several workers can end as any audit of one worker.**
-/

namespace SheetAudit

open Duty

/-! ### Some moves -/

/-- Some moves lead from `s` to `s'`. -/
def Reaches {σ : Type} (move? : σ → Move → Option σ) (s s' : σ) : Prop :=
  ∃ moves : List Move, moves.foldlM move? s = some s'

namespace Reaches

variable {σ : Type} {move? : σ → Move → Option σ} {s s' s'' : σ}

theorem refl (s : σ) : Reaches move? s s := ⟨[], rfl⟩

theorem single {m : Move} (h : move? s m = some s') : Reaches move? s s' :=
  ⟨[m], by rw [List.foldlM_cons, h]; rfl⟩

theorem trans (h : Reaches move? s s') (h' : Reaches move? s' s'') : Reaches move? s s'' := by
  obtain ⟨moves, hmoves⟩ := h
  obtain ⟨moves', hmoves'⟩ := h'
  refine ⟨moves ++ moves', ?_⟩
  rw [List.foldlM_append, hmoves]
  exact hmoves'

/-- Moves in a part of a state are moves of the whole. -/
theorem lift {τ : Type} {move?' : τ → Move → Option τ} {state : σ → τ}
    (hstate : ∀ s s' m, move? s m = some s' → move?' (state s) m = some (state s'))
    (h : Reaches move? s s') : Reaches move?' (state s) (state s') := by
  obtain ⟨moves, hmoves⟩ := h
  induction moves generalizing s with
  | nil =>
    obtain rfl := Option.some.inj hmoves
    exact .refl _
  | cons m moves ih =>
    rw [List.foldlM_cons] at hmoves
    obtain ⟨next, hnext, hmoves⟩ := Option.bind_eq_some_iff.1 hmoves
    exact (single (hstate s next m hnext)).trans (ih hmoves)

end Reaches

/-! ### One phase -/

namespace Shift

variable {α β : Type} {d : Duty α β} {s : Shift α β}

/-- The audit is cancelled if it has to be. -/
theorem reaches_cancelled (h : s.cancelled = false) (b : Bool) :
    Reaches (move? d) s { s with cancelled := b } := by
  cases b with
  | false => exact h ▸ .refl s
  | true => exact .single (m := .cancel) rfl

/-- A worker leaves out the first waiting item when the audit is cancelled. -/
theorem reaches_skipped {settled rest : List (Job α β)} {x : α}
    (hjobs : s.jobs = settled ++ .waiting x :: rest) (hc : s.cancelled = true) :
    Reaches (move? d) s { s with jobs := settled ++ .skipped x :: rest } := by
  refine .single (m := .start settled.length) ?_
  simp [move?, hjobs, hc]

/-- A worker does the first waiting item when the audit is not cancelled. -/
theorem reaches_done {settled rest : List (Job α β)} {x : α}
    (hjobs : s.jobs = settled ++ .waiting x :: rest) (hc : s.cancelled = false) :
    Reaches (move? d) s { s with
      trace := s.trace ++ [d.message s.jobs.length (s.done + 1) x]
      done := s.done + 1
      jobs := settled ++ .done x (d.work x) :: rest } := by
  have hstart : s.move? d (.start settled.length) =
      some { s with jobs := settled ++ .begun x :: rest } := by
    simp [move?, hjobs, hc]
  refine (Reaches.single hstart).trans (.single (m := .finish settled.length) ?_)
  simp [move?, hjobs]

/-- What one worker makes of a phase: `done` holds the results and messages of the items that
were waiting, and `settled` the jobs before them. -/
structure Through (cancelAt : Option Nat) (settled : List (Job α β))
    (done : List β × List Progress) (s s' : Shift α β) : Prop where
  isSettled : s'.isSettled = true
  cancelled_eq : s'.cancelled = isCancelled cancelAt s'.trace.length
  length_eq : s'.jobs.length = s.jobs.length
  trace_eq : s'.trace = s.trace ++ done.2
  done_eq : s'.done = s.done + done.1.length
  results_eq : Job.results s'.jobs = Job.results settled ++ done.1

theorem workFrom_of_isCancelled {cancelAt : Option Nat} {messages : Nat}
    (h : isCancelled cancelAt messages = true) (total done : Nat) (xs : List α) :
    d.workFrom cancelAt total messages done xs = ([], []) := by
  cases xs with
  | nil => rfl
  | cons x xs => rw [workFrom, if_pos h]

/-- One worker goes through the items of a phase that are waiting. -/
theorem exists_through {cancelAt : Option Nat} (settled : List (Job α β)) (xs : List α)
    (hjobs : s.jobs = settled ++ xs.map .waiting) (hsettled : settled.all Job.isSettled = true)
    (hc : s.cancelled = isCancelled cancelAt s.trace.length) :
    ∃ s', Reaches (move? d) s s' ∧
      Through cancelAt settled (d.workFrom cancelAt s.jobs.length s.trace.length s.done xs)
        s s' := by
  induction xs generalizing s settled with
  | nil =>
    rw [List.map_nil, List.append_nil] at hjobs
    refine ⟨s, .refl s, ?_, hc, rfl, ?_, rfl, ?_⟩
    · rw [isSettled, hjobs, hsettled]
    · rw [workFrom, List.append_nil]
    · rw [workFrom, hjobs, List.append_nil]
  | cons x xs ih =>
    cases hcancelled : isCancelled cancelAt s.trace.length with
    | true =>
      -- the item is left out, as are all that follow
      rw [workFrom_of_isCancelled hcancelled]
      let t : Shift α β := { s with jobs := (settled ++ [.skipped x]) ++ xs.map .waiting }
      have ht : t.jobs = settled ++ .skipped x :: xs.map .waiting := List.append_assoc ..
      have hstep : Reaches (move? d) s t := by
        have hskipped := reaches_skipped (d := d) hjobs (hc.trans hcancelled)
        rw [← ht] at hskipped
        exact hskipped
      have hsettled' : (settled ++ [Job.skipped (β := β) x]).all Job.isSettled = true := by
        rw [List.all_append, hsettled]
        rfl
      have hresults : Job.results (settled ++ [.skipped x]) = Job.results settled :=
        List.filterMap_append.trans (List.append_nil _)
      obtain ⟨s', hreach, hthrough⟩ := ih (s := t) _ rfl hsettled' hc
      rw [workFrom_of_isCancelled hcancelled] at hthrough
      refine ⟨s', hstep.trans hreach, hthrough.isSettled, hthrough.cancelled_eq, ?_,
        hthrough.trace_eq, hthrough.done_eq, ?_⟩
      · rw [hthrough.length_eq, ht, hjobs, List.length_append, List.length_append]
        rfl
      · rw [hthrough.results_eq, hresults]
    | false =>
      -- the item is done, and its message may cancel the audit
      let t : Shift α β :=
        { cancelled := isCancelled cancelAt (s.trace.length + 1)
          trace := s.trace ++ [d.message s.jobs.length (s.done + 1) x]
          done := s.done + 1
          jobs := (settled ++ [.done x (d.work x)]) ++ xs.map .waiting }
      have ht : t.jobs = settled ++ .done x (d.work x) :: xs.map .waiting := List.append_assoc ..
      have hlength : t.trace.length = s.trace.length + 1 := List.length_append
      have hstep : Reaches (move? d) s t := by
        have hdone := reaches_done (d := d) hjobs (hc.trans hcancelled)
        rw [← ht] at hdone
        exact hdone.trans (reaches_cancelled (s := { t with cancelled := s.cancelled })
          (hc.trans hcancelled) t.cancelled)
      have hsettled' : (settled ++ [Job.done x (d.work x)]).all Job.isSettled = true := by
        rw [List.all_append, hsettled]
        rfl
      have hjobs' : t.jobs.length = s.jobs.length := by
        rw [ht, hjobs, List.length_append, List.length_append]
        rfl
      obtain ⟨s', hreach, hthrough⟩ := ih (s := t) _ rfl hsettled' (by rw [hlength])
      rw [hjobs', hlength] at hthrough
      rw [workFrom, if_neg (by rw [hcancelled]; exact Bool.false_ne_true)]
      refine ⟨s', hstep.trans hreach, hthrough.isSettled, hthrough.cancelled_eq,
        hthrough.length_eq.trans hjobs', ?_, ?_, ?_⟩
      · rw [hthrough.trace_eq]
        exact List.append_assoc ..
      · rw [hthrough.done_eq, List.length_cons]
        exact Nat.add_right_comm ..
      · rw [hthrough.results_eq, Job.results, List.filterMap_append, List.append_assoc]
        rfl

/-- One worker goes through a whole phase, and comes as far as the phase is gone through in
order. -/
theorem exists_reaches (cancelAt : Option Nat) (trace : List Progress) (items : List α) :
    ∃ s', Reaches (move? d) (.start false trace items) s' ∧ s'.isSettled = true ∧
      d.run cancelAt trace items =
        (if s'.cancelled then .error s'.cancellation else .ok (Job.results s'.jobs), s'.trace) := by
  let s : Shift α β := { Shift.start false trace items with
    cancelled := isCancelled cancelAt trace.length }
  obtain ⟨s', hreach, hthrough⟩ :=
    exists_through (d := d) (s := s) [] items rfl rfl rfl
  have hlength : s.jobs.length = items.length := List.length_map ..
  refine ⟨s', (reaches_cancelled rfl _).trans hreach, hthrough.isSettled, ?_⟩
  have hdone := hthrough.done_eq
  have hresults := hthrough.results_eq
  have htrace : s'.trace = trace ++ (d.workFrom cancelAt s.jobs.length trace.length 0 items).2 :=
    hthrough.trace_eq
  rw [hlength] at hdone hresults htrace
  have hcancellation : s'.cancellation =
      ⟨(d.workFrom cancelAt items.length trace.length 0 items).1.length, items.length⟩ := by
    rw [cancellation, hdone, hthrough.length_eq, hlength]
    exact congrArg (Cancellation.mk · items.length) (Nat.zero_add _)
  rw [Duty.run, hthrough.cancelled_eq, hcancellation, hresults, htrace]
  cases isCancelled cancelAt
    (trace ++ (d.workFrom cancelAt items.length trace.length 0 items).2).length <;> rfl

end Shift

/-! ### The whole audit -/

namespace Course

variable {a : Auditor} {total : Nat}

/-- The workers of the first phase move the audit. -/
theorem reaches_parsing {s s' : Shift String (Except Diagnostic ParsedFile)}
    (h : Reaches (Shift.move? a.parsing) s s') :
    Reaches (a.move? total) (.parsing s) (.parsing s') := by
  refine h.lift fun s s' m hm => ?_
  cases m with
  | proceed => cases hm
  | start | finish | cancel => exact congrArg (Option.map Course.parsing) hm

/-- The workers of the second phase move the audit. -/
theorem reaches_checking (files : List (Job String (Except Diagnostic ParsedFile)))
    {s s' : Shift ParsedFile (List (Except Diagnostic (List Issue)))}
    (h : Reaches (Shift.move? a.checking) s s') :
    Reaches (a.move? total) (.checking files s) (.checking files s') := by
  refine h.lift fun s s' m hm => ?_
  cases m with
  | proceed => cases hm
  | start | finish | cancel => exact congrArg (Option.map (Course.checking files)) hm

end Course

/-- **An audit by several workers can end as any audit of one worker.**  One of its courses goes
through the files in order and is cancelled by the same message, if it is cancelled at all. -/
theorem exists_course_of_run (a : Auditor) (files : List String) (cancelAt : Option Nat) :
    ∃ moves c, a.course? files moves = some c ∧ c.outcome? = some (a.run cancelAt files) := by
  suffices h : ∃ c, Reaches (a.move? files.length) (Auditor.outset files) c ∧
      c.outcome? = some (a.run cancelAt files) by
    obtain ⟨c, ⟨moves, hmoves⟩, hc⟩ := h
    exact ⟨moves, c, hmoves, hc⟩
  obtain ⟨s, hreach, hsettled, hrun⟩ := Shift.exists_reaches (d := a.parsing) cancelAt
    [Phase.parsing.opening files.length] files
  rw [Auditor.run, hrun]
  cases hc : s.cancelled with
  | true =>
    -- the first phase is cut short
    have hcut : a.move? files.length (.parsing s) .proceed =
        some (.cut .parsing s.cancellation s.trace) := by
      simp [Auditor.move?, Shift.close?, hsettled, hc]
    exact ⟨_, (Course.reaches_parsing hreach).trans (.single hcut), rfl⟩
  | false =>
    obtain ⟨t, hreach', hsettled', hrun'⟩ := Shift.exists_reaches (d := a.checking) cancelAt
      (s.trace ++ [Phase.checking.opening files.length]) (Auditor.successes (Job.results s.jobs))
    have hopen : a.move? files.length (.parsing s) .proceed =
        some (.checking s.jobs (.start false (s.trace ++ [Phase.checking.opening files.length])
          (Auditor.successes (Job.results s.jobs)))) := by
      simp [Auditor.move?, Shift.close?, hsettled, hc]
    have hreach'' := ((Course.reaches_parsing hreach).trans (.single hopen)).trans
      (Course.reaches_checking s.jobs hreach')
    rw [if_neg Bool.false_ne_true]
    dsimp only
    rw [hrun']
    cases hc' : t.cancelled with
    | true =>
      -- the second phase is cut short
      have hcut : a.move? files.length (.checking s.jobs t) .proceed =
          some (.cut .checking t.cancellation t.trace) := by
        simp [Auditor.move?, Shift.close?, hsettled', hc']
      exact ⟨_, hreach''.trans (.single hcut), rfl⟩
    | false =>
      have hcomplete : a.move? files.length (.checking s.jobs t) .proceed =
          some (.complete s.jobs t.jobs
            (Auditor.findings files.length (Job.results s.jobs) (Job.results t.jobs).flatten)
            (t.trace ++ [Phase.reporting.opening files.length])) := by
        simp [Auditor.move?, Shift.close?, hsettled', hc']
      exact ⟨_, hreach''.trans (.single hcomplete), rfl⟩

end SheetAudit
