import SheetAudit.Audit.Crew
import SheetAudit.Proofs.Cancellation

/-!
# Audits by several workers find what one worker finds

Whatever the order in which workers take up and finish the items of a phase, and whenever the
audit is cancelled, the messages of a phase count up one by one, and an item is left out only
when the audit is cancelled.  So an audit that comes to its findings has left out nothing, and
has found what an audit finds that goes through its files in order.

## Main definitions

* `Phase.counts`, `Phase.itemMessages` — what the messages of a phase tell.
* `Phase.Told` — the messages of a phase up to some item.
* `Shift.Sound`, `Course.Sound` — what holds at any moment of a phase, and of an audit.

## Main results

* `Shift.Sound.move`, `Course.Sound.move` — one move keeps what holds.
* `Course.sound` — it holds after any moves.
* `outcome_of_any_course` — **every course of an audit ends as the audit of one worker does, or
  tells how far it came.**
-/

namespace SheetAudit

/-! ### What the messages of a phase tell -/

namespace Phase

/-- The numbers that the messages of a phase count up. -/
def counts (phase : Phase) (trace : List Progress) : List Nat :=
  (trace.filter fun m => m.phase == phase).map Progress.done

/-- The messages of a phase after the one that opens it. -/
def itemMessages (phase : Phase) (trace : List Progress) : List Progress :=
  (trace.filter fun m => m.phase == phase).tail

/-- The messages of a phase in which so many items are done. -/
structure Told (phase : Phase) (done : Nat) (messages : List Progress) : Prop where
  phase_eq : ∀ m ∈ messages, m.phase = phase
  done_eq : messages.map Progress.done = List.range (done + 1)

variable {phase other : Phase} {n : Nat} {messages : List Progress}

/-- The message that opens a phase tells that no item is done. -/
theorem Told.opening {o : Progress} (hphase : o.phase = phase) (hdone : o.done = 0) :
    phase.Told 0 [o] where
  phase_eq m hm := List.mem_singleton.1 hm ▸ hphase
  done_eq := by rw [List.map_singleton, hdone]; rfl

/-- Another message tells that another item is done. -/
theorem Told.append (h : phase.Told n messages) {m : Progress} (hphase : m.phase = phase)
    (hdone : m.done = n + 1) : phase.Told (n + 1) (messages ++ [m]) where
  phase_eq m' hm' := by
    rcases List.mem_append.1 hm' with hm' | hm'
    · exact h.phase_eq m' hm'
    · exact List.mem_singleton.1 hm' ▸ hphase
  done_eq := by
    rw [List.map_append, h.done_eq, List.map_singleton, hdone, ← List.range_succ]

theorem Told.filter_self (h : phase.Told n messages) :
    (messages.filter fun m => m.phase == phase) = messages := by
  refine List.filter_eq_self.2 fun m hm => ?_
  rw [h.phase_eq m hm]
  exact beq_self_eq_true phase

theorem Told.filter_other (h : phase.Told n messages) (hne : phase ≠ other) :
    (messages.filter fun m => m.phase == other) = [] := by
  refine List.filter_eq_nil_iff.2 fun m hm heq => hne ?_
  rw [h.phase_eq m hm] at heq
  exact eq_of_beq heq

end Phase

/-! ### One phase -/

/-- The jobs of a phase that leaves out nothing. -/
def Duty.allDone {α β : Type} (d : Duty α β) (items : List α) : List (Job α β) :=
  items.map fun x => .done x (d.work x)

theorem Job.results_allDone {α β : Type} (d : Duty α β) (items : List α) :
    Job.results (d.allDone items) = items.map d.work := by
  induction items with
  | nil => rfl
  | cons x xs ih =>
    rw [List.map_cons, ← ih]
    rfl

namespace Shift

variable {α β : Type} {d : Duty α β} {s s' : Shift α β}

/-- All that a move can do to a phase. -/
theorem move?_eq_some {m : Move} (h : s.move? d m = some s') :
    (∃ i x, s.jobs[i]? = some (.waiting x) ∧
      s' = { s with jobs := s.jobs.set i (if s.cancelled then .skipped x else .begun x) }) ∨
    (∃ i x, s.jobs[i]? = some (.begun x) ∧
      s' = { s with
        trace := s.trace ++ [d.message s.jobs.length (s.done + 1) x]
        done := s.done + 1
        jobs := s.jobs.set i (.done x (d.work x)) }) ∨
    s' = { s with cancelled := true } := by
  cases m with
  | start i =>
    rw [move?] at h
    split at h
    · next x hx => exact .inl ⟨i, x, hx, (Option.some.inj h).symm⟩
    · cases h
  | finish i =>
    rw [move?] at h
    split at h
    · next x hx => exact .inr (.inl ⟨i, x, hx, (Option.some.inj h).symm⟩)
    · cases h
  | cancel => exact .inr (.inr (Option.some.inj h).symm)
  | proceed => cases h

/-- What holds at any moment of a phase.  `before` holds the messages of the audit before it. -/
structure Sound (d : Duty α β) (before : List Progress) (items : List α) (s : Shift α β) :
    Prop where
  items_eq : s.jobs.map Job.item = items
  result_eq : ∀ x y, Job.done x y ∈ s.jobs → y = d.work x
  done_eq : s.done = s.jobs.countP Job.isDone
  /-- An item is left out only when the audit is cancelled. -/
  cancelled_eq : ∀ x, Job.skipped x ∈ s.jobs → s.cancelled = true
  told : ∃ messages, s.trace = before ++ messages ∧ d.phase.Told s.done messages

/-- It holds when the phase is opened. -/
theorem Sound.start (before : List Progress) {o : Progress} (items : List α) (cancelled : Bool)
    (hphase : o.phase = d.phase) (hdone : o.done = 0) :
    Sound d before items (.start cancelled (before ++ [o]) items) where
  items_eq := by
    have hid : (Job.item : Job α β → α) ∘ Job.waiting = id := rfl
    rw [Shift.start, List.map_map, hid, List.map_id]
  result_eq x y h := by
    obtain ⟨_, -, hx⟩ := List.mem_map.1 h
    cases hx
  done_eq := by
    rw [Shift.start, List.countP_map]
    exact (List.countP_eq_zero.2 fun x _ => Bool.false_ne_true).symm
  cancelled_eq x h := by
    obtain ⟨_, -, hx⟩ := List.mem_map.1 h
    cases hx
  told := ⟨[o], rfl, .opening hphase hdone⟩

/-- Another job for the same item. -/
theorem map_item_set {jobs : List (Job α β)} {i : Nat} {j j' : Job α β} (h : jobs[i]? = some j)
    (hitem : j'.item = j.item) : (jobs.set i j').map Job.item = jobs.map Job.item := by
  obtain ⟨hi, rfl⟩ := List.getElem?_eq_some_iff.1 h
  rw [List.map_set, hitem, ← List.getElem_map (h := by simpa using hi) Job.item,
    List.set_getElem_self]

/-- One more job is done, or none. -/
theorem countP_set {jobs : List (Job α β)} {i : Nat} {j j' : Job α β} (h : jobs[i]? = some j)
    (hopen : j.isDone = false) :
    (jobs.set i j').countP Job.isDone = jobs.countP Job.isDone + if j'.isDone then 1 else 0 := by
  obtain ⟨hi, rfl⟩ := List.getElem?_eq_some_iff.1 h
  rw [List.countP_set hi, hopen]
  simp

/-- **A move keeps what holds in a phase.** -/
theorem Sound.move {before : List Progress} {items : List α} {m : Move}
    (h : s.Sound d before items) (hm : s.move? d m = some s') : s'.Sound d before items := by
  rcases move?_eq_some hm with ⟨i, x, hx, rfl⟩ | ⟨i, x, hx, rfl⟩ | rfl
  · -- an item is taken up or left out
    have hmem : ∀ j ∈ s.jobs.set i (if s.cancelled then .skipped x else .begun x),
        j ∈ s.jobs ∨ j = if s.cancelled then .skipped x else .begun x :=
      fun j hj => List.mem_or_eq_of_mem_set hj
    refine ⟨?_, ?_, ?_, ?_, h.told⟩
    · rw [← h.items_eq]
      refine map_item_set hx ?_
      split <;> rfl
    · intro x' y hy
      rcases hmem _ hy with hy | hy
      · exact h.result_eq x' y hy
      · split at hy <;> cases hy
    · rw [h.done_eq]
      refine ((countP_set hx rfl).trans ?_).symm
      split <;> rfl
    · intro x' hx'
      rcases hmem _ hx' with hx' | hx'
      · exact h.cancelled_eq x' hx'
      · split at hx'
        · next hc => exact hc
        · cases hx'
  · -- an item is done
    have hmem : ∀ j ∈ s.jobs.set i (.done x (d.work x)), j ∈ s.jobs ∨ j = .done x (d.work x) :=
      fun j hj => List.mem_or_eq_of_mem_set hj
    refine ⟨?_, ?_, ?_, ?_, ?_⟩
    · rw [← h.items_eq]
      exact map_item_set hx rfl
    · intro x' y hy
      rcases hmem _ hy with hy | hy
      · exact h.result_eq x' y hy
      · cases hy
        rfl
    · rw [h.done_eq]
      refine ((countP_set hx rfl).trans ?_).symm
      rfl
    · intro x' hx'
      rcases hmem _ hx' with hx' | hx'
      · exact h.cancelled_eq x' hx'
      · cases hx'
    · obtain ⟨messages, htrace, htold⟩ := h.told
      refine ⟨messages ++ [d.message s.jobs.length (s.done + 1) x], ?_, htold.append rfl rfl⟩
      rw [htrace, List.append_assoc]
  · -- the audit is cancelled
    exact ⟨h.items_eq, h.result_eq, h.done_eq, fun _ _ => rfl, h.told⟩

/-- A phase that ends before the audit is cancelled has left out nothing. -/
theorem Sound.jobs_eq {before : List Progress} {items : List α} (h : s.Sound d before items)
    (hsettled : s.isSettled = true) (hc : s.cancelled = false) : s.jobs = d.allDone items := by
  rw [Duty.allDone, ← h.items_eq, List.map_map]
  refine (List.map_id s.jobs).symm.trans (List.map_congr_left fun j hj => ?_)
  have hj' : j.isSettled = true := List.all_eq_true.1 hsettled j hj
  cases j with
  | waiting x => cases hj'
  | begun x => cases hj'
  | skipped x => exact absurd (h.cancelled_eq x hj) (by rw [hc]; exact Bool.false_ne_true)
  | done x y =>
    obtain rfl := h.result_eq x y hj
    rfl

theorem Sound.length_jobs {before : List Progress} {items : List α}
    (h : s.Sound d before items) : s.jobs.length = items.length := by
  rw [← h.items_eq, List.length_map]

/-- No more items are done than there are. -/
theorem Sound.done_le_length {before : List Progress} {items : List α}
    (h : s.Sound d before items) : s.done ≤ s.jobs.length := by
  rw [h.done_eq]
  exact List.countP_le_length

/-- In such a phase all items are done. -/
theorem Sound.done_eq_length {before : List Progress} {items : List α}
    (h : s.Sound d before items) (hsettled : s.isSettled = true) (hc : s.cancelled = false) :
    s.done = items.length := by
  rw [h.done_eq, h.jobs_eq hsettled hc, Duty.allDone, List.countP_map]
  exact List.countP_eq_length.2 fun x _ => rfl

end Shift

/-! ### The whole audit -/

/-- All that can follow a phase. -/
theorem Shift.close?_eq_some {α β : Type} {s : Shift α β} {phase : Phase} {next c : Course}
    (h : s.close? phase next = some c) :
    s.isSettled = true ∧
      (s.cancelled = true ∧ c = .cut phase s.cancellation s.trace ∨
        s.cancelled = false ∧ c = next) := by
  rw [close?] at h
  split at h
  · cases h
  · next hsettled =>
    refine ⟨by simpa using hsettled, ?_⟩
    split at h
    · next hc => exact .inl ⟨hc, (Option.some.inj h).symm⟩
    · next hc => exact .inr ⟨by simpa using hc, (Option.some.inj h).symm⟩

namespace Auditor

variable {a : Auditor} {total : Nat} {c : Course} {m : Move}

/-- All that a move can do while files are parsed. -/
theorem move?_parsing {s : Shift String (Except Diagnostic ParsedFile)}
    (h : a.move? total (.parsing s) m = some c) :
    (∃ s', s.move? a.parsing m = some s' ∧ c = .parsing s') ∨
    s.isSettled = true ∧
      (s.cancelled = true ∧ c = .cut .parsing s.cancellation s.trace ∨
        s.cancelled = false ∧
          c = .checking s.jobs (.start s.cancelled (s.trace ++ [Phase.checking.opening total])
            (successes (Job.results s.jobs)))) := by
  cases m with
  | proceed => exact .inr (Shift.close?_eq_some h)
  | start | finish =>
    obtain ⟨s', hs', rfl⟩ := Option.map_eq_some_iff.1 h
    exact .inl ⟨s', hs', rfl⟩
  | cancel => exact .inl ⟨_, rfl, (Option.some.inj h).symm⟩

/-- All that a move can do while the checkers are run. -/
theorem move?_checking {files : List (Job String (Except Diagnostic ParsedFile))}
    {s : Shift ParsedFile (List (Except Diagnostic (List Issue)))}
    (h : a.move? total (.checking files s) m = some c) :
    (∃ s', s.move? a.checking m = some s' ∧ c = .checking files s') ∨
    s.isSettled = true ∧
      (s.cancelled = true ∧ c = .cut .checking s.cancellation s.trace ∨
        s.cancelled = false ∧
          c = .complete files s.jobs
            (findings total (Job.results files) (Job.results s.jobs).flatten)
            (s.trace ++ [Phase.reporting.opening total])) := by
  cases m with
  | proceed => exact .inr (Shift.close?_eq_some h)
  | start | finish =>
    obtain ⟨s', hs', rfl⟩ := Option.map_eq_some_iff.1 h
    exact .inl ⟨s', hs', rfl⟩
  | cancel => exact .inl ⟨_, rfl, (Option.some.inj h).symm⟩

end Auditor

namespace Course

variable {a : Auditor} {files : List String} {c c' : Course}

/-- What holds at any moment of an audit. -/
def Sound (a : Auditor) (files : List String) : Course → Prop
  | .parsing s => s.Sound a.parsing [] files
  | .checking jobs s =>
    jobs = a.parsing.allDone files ∧
      ∃ before, Phase.parsing.Told files.length before ∧
        s.Sound a.checking before (a.parsed files)
  | .cut phase c trace =>
    c.total = a.phaseSize files phase ∧ c.processed ≤ c.total ∧
      ∃ before messages, trace = before ++ messages ∧ phase.Told c.processed messages ∧
        (phase = .parsing ∧ before = [] ∨
          phase = .checking ∧ Phase.parsing.Told files.length before)
  | .complete jobs jobs' findings trace =>
    jobs = a.parsing.allDone files ∧ jobs' = a.checking.allDone (a.parsed files) ∧
      findings = a.found files ∧
      ∃ before messages, trace = before ++ messages ++ [Phase.reporting.opening files.length] ∧
        Phase.parsing.Told files.length before ∧
        Phase.checking.Told (a.parsed files).length messages

/-- It holds at the outset. -/
theorem sound_outset : (Auditor.outset files).Sound a files :=
  Shift.Sound.start [] files false rfl rfl

/-- **A move keeps what holds in an audit.** -/
theorem Sound.move {m : Move} (h : c.Sound a files) (hm : a.move? files.length c m = some c') :
    c'.Sound a files := by
  cases c with
  | parsing s =>
    have h : s.Sound a.parsing [] files := h
    obtain ⟨messages, htrace, htold⟩ := h.told
    rw [List.nil_append] at htrace
    rcases Auditor.move?_parsing hm with ⟨s', hs', rfl⟩ | ⟨hsettled, ⟨hc, rfl⟩ | ⟨hc, rfl⟩⟩
    · exact h.move hs'
    · exact ⟨h.length_jobs, h.done_le_length, [], messages, htrace, htold, .inl ⟨rfl, rfl⟩⟩
    · -- no file was left out, so the sheets are those of all files
      have hjobs := h.jobs_eq hsettled hc
      rw [h.done_eq_length hsettled hc] at htold
      refine ⟨hjobs, messages, htold, ?_⟩
      rw [hjobs, Job.results_allDone, htrace]
      exact Shift.Sound.start _ _ _ rfl rfl
  | checking jobs s =>
    obtain ⟨hjobs, before, hbefore, h⟩ := h
    obtain ⟨messages, htrace, htold⟩ := h.told
    rcases Auditor.move?_checking hm with ⟨s', hs', rfl⟩ | ⟨hsettled, ⟨hc, rfl⟩ | ⟨hc, rfl⟩⟩
    · exact ⟨hjobs, before, hbefore, h.move hs'⟩
    · exact ⟨h.length_jobs, h.done_le_length, before, messages, htrace, htold,
        .inr ⟨rfl, hbefore⟩⟩
    · -- no sheet was left out either
      have hjobs' := h.jobs_eq hsettled hc
      rw [h.done_eq_length hsettled hc] at htold
      refine ⟨hjobs, hjobs', ?_, before, messages, ?_, hbefore, htold⟩
      · rw [hjobs, hjobs', Job.results_allDone, Job.results_allDone]
        rfl
      · rw [htrace]
  | cut phase cancellation trace | complete jobs jobs' findings trace =>
    cases m with
    | cancel =>
      obtain rfl := Option.some.inj hm
      exact h
    | start | finish | proceed => cases hm

/-- It holds after any moves. -/
theorem Sound.moves {moves : List Move} (h : c.Sound a files)
    (hm : moves.foldlM (a.move? files.length) c = some c') : c'.Sound a files := by
  induction moves generalizing c with
  | nil =>
    obtain rfl := Option.some.inj hm
    exact h
  | cons m moves ih =>
    rw [List.foldlM_cons] at hm
    obtain ⟨next, hnext, hm⟩ := Option.bind_eq_some_iff.1 hm
    exact ih (h.move hnext) hm

/-- **What holds at the outset holds at any moment of an audit.** -/
theorem sound {moves : List Move} (h : a.course? files moves = some c) : c.Sound a files :=
  sound_outset.moves h

end Course

/-- **Every course of an audit ends as the audit of one worker does, or tells how far it came.**
When it comes to its findings, no item was left out, the messages of both phases count up to the
number of their items, and the findings are those of the audit that goes through its files in
order.  When it is cancelled, it tells how many items of the phase were announced as done. -/
theorem outcome_of_any_course (a : Auditor) (files : List String) (moves : List Move) (c : Course)
    (h : a.course? files moves = some c) :
    (∀ jobs jobs' findings trace, c = .complete jobs jobs' findings trace →
      jobs = files.map (fun path => .done path (a.parseFile path)) ∧
      jobs' = (a.parsed files).map (fun file => .done file (a.checkFile file)) ∧
      Phase.parsing.counts trace = List.range (files.length + 1) ∧
      Phase.checking.counts trace = List.range ((a.parsed files).length + 1) ∧
      (a.run none files).1 = .ok findings) ∧
    (∀ phase cancellation trace, c = .cut phase cancellation trace →
      (phase = .parsing ∨ phase = .checking) ∧
      (∀ m ∈ trace, m.phase = .parsing ∨ m.phase = phase) ∧
      phase.counts trace = List.range (cancellation.processed + 1) ∧
      (phase.itemMessages trace).length = cancellation.processed ∧
      cancellation.processed ≤ cancellation.total ∧
      cancellation.total = a.phaseSize files phase) := by
  have hsound := Course.sound h
  constructor
  · rintro jobs jobs' findings trace rfl
    obtain ⟨rfl, rfl, rfl, before, messages, rfl, hbefore, htold⟩ := hsound
    refine ⟨rfl, rfl, ?_, ?_, ?_⟩
    · have hreport : ([Phase.reporting.opening files.length].filter
          fun m => m.phase == .parsing) = [] := rfl
      rw [Phase.counts, List.filter_append, List.filter_append, hbefore.filter_self,
        htold.filter_other (by decide), hreport, List.append_nil, List.append_nil,
        hbefore.done_eq]
    · have hreport : ([Phase.reporting.opening files.length].filter
          fun m => m.phase == .checking) = [] := rfl
      rw [Phase.counts, List.filter_append, List.filter_append, htold.filter_self,
        hbefore.filter_other (by decide), hreport, List.append_nil, List.nil_append,
        htold.done_eq]
    · rw [a.run_none]
  · rintro phase cancellation trace rfl
    obtain ⟨htotal, hle, before, messages, rfl, htold, hphase⟩ := hsound
    -- the messages of the phase that is cut short are the last ones
    have hfilter : ((before ++ messages).filter fun m => m.phase == phase) = messages := by
      rw [List.filter_append, htold.filter_self]
      rcases hphase with ⟨-, rfl⟩ | ⟨rfl, hbefore⟩
      · rfl
      · rw [hbefore.filter_other (by decide), List.nil_append]
    have hlength : messages.length = cancellation.processed + 1 := by
      rw [← List.length_map Progress.done, htold.done_eq, List.length_range]
    refine ⟨?_, ?_, ?_, ?_, hle, htotal⟩
    · rcases hphase with ⟨hp, -⟩ | ⟨hp, -⟩
      · exact .inl hp
      · exact .inr hp
    · intro m hm
      rcases List.mem_append.1 hm with hm | hm
      · rcases hphase with ⟨-, rfl⟩ | ⟨-, hbefore⟩
        · cases hm
        · exact .inl (hbefore.phase_eq m hm)
      · exact .inr (htold.phase_eq m hm)
    · rw [Phase.counts, hfilter, htold.done_eq]
    · rw [Phase.itemMessages, hfilter, List.length_tail, hlength, Nat.add_sub_cancel]

/-- Two workers begin and finish in the other order than that of the files, one of which cannot be
read, and the audit is cancelled when it is over. -/
theorem outcome_of_two_workers :
    let a : Auditor :=
      { base := none
        read := fun path => if path == "a" then .ok "" else .error "gone"
        checkers := [] }
    let moves : List Move :=
      [.start 1, .start 0, .finish 1, .finish 0, .proceed, .start 0, .finish 0, .proceed, .cancel]
    ∃ jobs jobs' findings trace,
      a.course? ["a", "b"] moves = some (.complete jobs jobs' findings trace) ∧
      jobs = ["a", "b"].map (fun path => .done path (a.parseFile path)) ∧
      jobs' = (a.parsed ["a", "b"]).map (fun file => .done file (a.checkFile file)) ∧
      Phase.parsing.counts trace = List.range 3 ∧
      Phase.checking.counts trace = List.range ((a.parsed ["a", "b"]).length + 1) ∧
      (a.run none ["a", "b"]).1 = .ok findings := by
  intro a moves
  have hcomplete : (a.course? ["a", "b"] moves).any (fun c => c matches .complete ..) = true := by
    cbv
  cases hc : a.course? ["a", "b"] moves with
  | none =>
    rw [hc] at hcomplete
    cases hcomplete
  | some c =>
    rw [hc] at hcomplete
    cases c with
    | complete jobs jobs' findings trace =>
      exact ⟨jobs, jobs', findings, trace, rfl,
        (outcome_of_any_course a ["a", "b"] moves _ hc).1 jobs jobs' findings trace rfl⟩
    | parsing | checking | cut => cases hcomplete

end SheetAudit
