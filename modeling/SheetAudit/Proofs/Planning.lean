import SheetAudit.Proofs.Arrangement
import SheetAudit.Report.Plan

/-!
# A plan settles every issue

The tasks of a plan are the groups of the issues by severity and category, in the order in which
these first occur, and then sorted by priority, severity and category.  No two tasks have the same
severity and category, so no two are sorted alike: the order of a plan is strict, and there is only
one, wherever the groups stood before.  The issues decide it by their numbers alone.

## Main definitions

* `Task.Outranks` — what a plan is ordered by.
* `Settles` — a plan whose tasks hold every issue once, in strict order.
* `Task.outline` — what a task says of its issues by their number.

## Main results

* `Plan.tasksOf_eq` — the tasks are those of the keys that occur.
* `Plan.map_sortKey_of_perm` — in another order the issues lead to the same keys, sorted alike.
* `Plan.settles_of` — the plan for a list of issues settles them.
* `Plan.of_partitions_issues` — **no plan loses an issue or depends on their order.**
-/

namespace SheetAudit

/-! ### What plans are -/

namespace Task

/-- What sets the tasks of a plan apart. -/
def key (t : Task) : Severity × Category := (t.severity, t.category)

/-- Before in a plan: of a higher priority, or of the same and more severe, or of the same and of
an earlier category. -/
def Outranks (s t : Task) : Prop :=
  t.priority < s.priority ∨ s.priority = t.priority ∧
    (s.severity.rank < t.severity.rank ∨
      s.severity = t.severity ∧ s.category.ctorIdx < t.category.ctorIdx)

/-- What a task says of its issues by their number. -/
def outline (t : Task) : String × String × Nat × Nat × String :=
  (t.id, t.title, t.priority, t.minutes, t.time)

end Task

/-- The tasks of the plan hold every issue once, by severity and category, in strict order. -/
structure Settles (issues : List Issue) (p : Plan) : Prop where
  /-- No two tasks have the same severity and category. -/
  nodup_keys : (p.tasks.map Task.key).Nodup
  /-- There is a task for every severity and category that occur together, and no other. -/
  mem_keys : ∀ s c, (s, c) ∈ p.tasks.map Task.key ↔ ∃ i ∈ issues, i.severity = s ∧ i.category = c
  /-- A task has its issues in the order of the list. -/
  issues_eq : ∀ t ∈ p.tasks,
    t.issues = issues.filter fun i => i.severity == t.severity && i.category == t.category
  priority_eq : ∀ t ∈ p.tasks, t.priority = t.severity.weight + t.issues.length
  minutes_eq : ∀ t ∈ p.tasks, t.minutes = t.severity.minutes * t.issues.length
  ordered : p.tasks.Pairwise Task.Outranks
  priority_le : p.tasks.Pairwise fun s t => t.priority ≤ s.priority
  order_eq : p.order = p.tasks.map Task.id
  nodup_order : p.order.Nodup
  /-- The time of a plan is that of all issues together. -/
  sum_minutes : p.minutes = (issues.map fun i => i.severity.minutes).sum

/-! ### The tasks before they are sorted -/

namespace Plan

/-- The issues of one severity and category as a task. -/
def taskOn (issues : List Issue) (k : Severity × Category) : Task :=
  ⟨k.1, k.2, issues.filter fun i => (i.severity, i.category) == k⟩

/-- The keys that occur, in the order in which they first do. -/
def keys (issues : List Issue) : List (Severity × Category) :=
  Issues.keysOn (fun i => (i.severity, i.category)) issues

theorem mem_keys {issues : List Issue} {k : Severity × Category} :
    k ∈ keys issues ↔ ∃ i ∈ issues, (i.severity, i.category) = k :=
  (Issues.mem_keysOn _).trans List.mem_map

theorem nodup_keys (issues : List Issue) : (keys issues).Nodup := Issues.nodup_keysOn _ issues

/-- The tasks are those of the keys that occur. -/
theorem tasksOf_eq (issues : List Issue) : tasksOf issues = (keys issues).map (taskOn issues) := by
  rw [tasksOf, Issues.groupOn_eq_map, List.map_map]
  rfl

theorem key_tasksOf (issues : List Issue) : (tasksOf issues).map Task.key = keys issues := by
  rw [tasksOf_eq, List.map_map]
  exact List.map_id _

theorem issues_of_mem_tasksOf {issues : List Issue} {t : Task} (h : t ∈ tasksOf issues) :
    t.issues = issues.filter fun i => i.severity == t.severity && i.category == t.category := by
  rw [tasksOf_eq] at h
  obtain ⟨k, -, rfl⟩ := List.mem_map.1 h
  rfl

theorem mem_key_tasksOf (issues : List Issue) (s : Severity) (c : Category) :
    (s, c) ∈ (tasksOf issues).map Task.key ↔ ∃ i ∈ issues, i.severity = s ∧ i.category = c := by
  rw [key_tasksOf, mem_keys]
  simp only [Prod.mk.injEq]

/-- The times of the groups of issues add up to that of all issues. -/
theorem sum_minutes_tasksOf (issues : List Issue) :
    ((tasksOf issues).map Task.minutes).sum = (issues.map fun i => i.severity.minutes).sum := by
  have harr := Issues.arranges_groupOn (fun i : Issue => (i.severity, i.category)) issues
  have hgroup : ∀ g ∈ Issues.groupOn (fun i : Issue => (i.severity, i.category)) issues,
      (Task.mk g.1.1 g.1.2 g.2).minutes = (g.2.map fun i => i.severity.minutes).sum := by
    intro g hg
    have hall : ∀ i ∈ g.2, i.severity.minutes = g.1.1.minutes := by
      intro i hi
      rw [harr.group_eq g hg] at hi
      have hkey : (i.severity, i.category) = g.1 := eq_of_beq (List.mem_filter.1 hi).2
      rw [← hkey]
    rw [List.map_congr_left hall, List.map_const', List.sum_replicate, smul_eq_mul, Nat.mul_comm]
    rfl
  rw [← (harr.perm.map fun i => i.severity.minutes).sum_eq, List.map_flatMap, List.flatMap_def,
    List.sum_flatten, List.map_map, tasksOf, List.map_map]
  exact congrArg List.sum (List.map_congr_left hgroup)

/-! ### The order of a plan -/

theorem sortsBefore_trans (k k' k'' : Nat × Nat × Nat) (h : Task.sortsBefore k k' = true)
    (h' : Task.sortsBefore k' k'' = true) : Task.sortsBefore k k'' = true := by
  simp only [Task.sortsBefore, Bool.or_eq_true, Bool.and_eq_true, decide_eq_true_eq,
    beq_iff_eq] at h h' ⊢
  omega

theorem sortsBefore_total (k k' : Nat × Nat × Nat) :
    (Task.sortsBefore k k' || Task.sortsBefore k' k) = true := by
  simp only [Task.sortsBefore, Bool.or_eq_true, Bool.and_eq_true, decide_eq_true_eq, beq_iff_eq]
  omega

/-- Only equal keys sort before each other. -/
theorem eq_of_sortsBefore {k k' : Nat × Nat × Nat} (h : Task.sortsBefore k k' = true)
    (h' : Task.sortsBefore k' k = true) : k = k' := by
  simp only [Task.sortsBefore, Bool.or_eq_true, Bool.and_eq_true, decide_eq_true_eq,
    beq_iff_eq] at h h'
  refine Prod.ext ?_ (Prod.ext ?_ ?_) <;> omega

theorem eq_of_rank {s t : Severity} (h : s.rank = t.rank) : s = t := by
  revert h
  cases s <;> cases t <;> decide

theorem eq_of_ctorIdx {c d : Category} (h : c.ctorIdx = d.ctorIdx) : c = d := by
  revert h
  cases c <;> cases d <;> decide

/-- A task that sorts before another one comes before it, as its key is not that of the other. -/
theorem outranks_of_sortsBefore {s t : Task} (hkey : s.key ≠ t.key)
    (h : Task.sortsBefore s.sortKey t.sortKey = true) : s.Outranks t := by
  simp only [Task.sortsBefore, Bool.or_eq_true, Bool.and_eq_true, decide_eq_true_eq,
    beq_iff_eq] at h
  unfold Task.sortKey at h
  rcases h with h | ⟨hpriority, h | ⟨hrank, hcategory⟩⟩
  · exact .inl h
  · exact .inr ⟨hpriority, .inl h⟩
  · have hle : s.category.ctorIdx ≤ t.category.ctorIdx := hcategory
    have hseverity := eq_of_rank hrank
    have hne : s.category.ctorIdx ≠ t.category.ctorIdx := fun heq =>
      hkey (Prod.ext hseverity (eq_of_ctorIdx heq))
    exact .inr ⟨hpriority, .inr ⟨hseverity, by omega⟩⟩

theorem perm_tasks (issues : List Issue) : (Plan.of issues).tasks.Perm (tasksOf issues) :=
  List.mergeSort_perm _ _

theorem pairwise_tasks (issues : List Issue) : (Plan.of issues).tasks.Pairwise fun s t =>
    Task.sortsBefore s.sortKey t.sortKey = true :=
  List.pairwise_mergeSort (fun s t u => sortsBefore_trans s.sortKey t.sortKey u.sortKey)
    (fun s t => sortsBefore_total s.sortKey t.sortKey) _

theorem nodup_key_tasks (issues : List Issue) : ((Plan.of issues).tasks.map Task.key).Nodup := by
  refine ((perm_tasks issues).map Task.key).nodup_iff.2 ?_
  rw [key_tasksOf]
  exact nodup_keys issues

theorem outranks_of (issues : List Issue) : (Plan.of issues).tasks.Pairwise Task.Outranks := by
  have hkeys := List.pairwise_map.1 (nodup_key_tasks issues)
  refine ((pairwise_tasks issues).and hkeys).imp fun {s t} h => ?_
  exact outranks_of_sortsBefore h.2 h.1

/-- All pairs of a severity and a category. -/
def pairs : List (Severity × Category) :=
  Severity.all.flatMap fun s => Category.all.map fun c => (s, c)

theorem mem_pairs (k : Severity × Category) : k ∈ pairs := by
  obtain ⟨s, c⟩ := k
  exact List.mem_flatMap.2 ⟨s, s.mem_all, List.mem_map_of_mem c.mem_all⟩

theorem order_injective (k k' : Severity × Category)
    (h : (⟨k.1, k.2, []⟩ : Task).id = (⟨k'.1, k'.2, []⟩ : Task).id) : k = k' := by
  have hids : (pairs.map fun k => (⟨k.1, k.2, []⟩ : Task).id).Nodup := by decide
  exact List.inj_on_of_nodup_map hids (mem_pairs k) (mem_pairs k') h

/-- The plan for a list of issues settles them. -/
theorem settles_of (issues : List Issue) : Settles issues (Plan.of issues) := by
  have hperm := perm_tasks issues
  have hkeys := nodup_key_tasks issues
  have hordered := outranks_of issues
  refine ⟨hkeys, ?_, ?_, fun _ _ => rfl, fun _ _ => rfl, hordered, ?_, rfl, ?_, ?_⟩
  · intro s c
    rw [(hperm.map Task.key).mem_iff]
    exact mem_key_tasksOf issues s c
  · intro t ht
    exact issues_of_mem_tasksOf (hperm.mem_iff.1 ht)
  · refine hordered.imp fun {s t} h => ?_
    rcases h with h | ⟨h, -⟩ <;> omega
  · -- the key can be read off the name of a task
    have hid : (Plan.of issues).order =
        ((Plan.of issues).tasks.map Task.key).map fun k => (⟨k.1, k.2, []⟩ : Task).id := by
      rw [List.map_map]
      rfl
    rw [hid]
    exact hkeys.map fun k k' h => order_injective k k' h
  · rw [← sum_minutes_tasksOf, ← (hperm.map Task.minutes).sum_eq]
    rfl

/-! ### Other orders of the issues -/

section

variable {issues issues' : List Issue} (h : issues'.Perm issues)
include h

theorem perm_keys : (keys issues').Perm (keys issues) := by
  refine (List.perm_ext_iff_of_nodup (nodup_keys issues') (nodup_keys issues)).2 fun k => ?_
  rw [mem_keys, mem_keys]
  simp only [h.mem_iff]

/-- What a task is sorted by depends on the number of its issues alone. -/
theorem sortKey_taskOn (k : Severity × Category) :
    (taskOn issues' k).sortKey = (taskOn issues k).sortKey := by
  have hlength : (taskOn issues' k).issues.length = (taskOn issues k).issues.length :=
    (h.filter _).length_eq
  unfold Task.sortKey Task.priority
  rw [hlength]
  rfl

theorem perm_sortKey_tasks :
    ((Plan.of issues').tasks.map Task.sortKey).Perm ((Plan.of issues).tasks.map Task.sortKey) := by
  have hsame : (keys issues').map (Task.sortKey ∘ taskOn issues') =
      (keys issues').map (Task.sortKey ∘ taskOn issues) :=
    List.map_congr_left fun k _ => sortKey_taskOn h k
  have htasks : ((tasksOf issues').map Task.sortKey).Perm ((tasksOf issues).map Task.sortKey) := by
    rw [tasksOf_eq, tasksOf_eq, List.map_map, List.map_map, hsame]
    exact (perm_keys h).map _
  exact ((perm_tasks issues').map _).trans (htasks.trans ((perm_tasks issues).map _).symm)

/-- In another order the issues lead to the same keys, sorted alike. -/
theorem map_sortKey_of_perm :
    (Plan.of issues').tasks.map Task.sortKey = (Plan.of issues).tasks.map Task.sortKey := by
  have hsorted (is : List Issue) : ((Plan.of is).tasks.map Task.sortKey).Pairwise fun k k' =>
      Task.sortsBefore k k' = true :=
    List.pairwise_map.2 (pairwise_tasks is)
  exact List.Perm.eq_of_pairwise (fun _ _ _ _ => eq_of_sortsBefore) (hsorted issues')
    (hsorted issues) (perm_sortKey_tasks h)

end

/-- A task is outlined by what it is sorted by: its severity, its category and, as the priority
tells, the number of its issues. -/
theorem outline_congr {t u : Task} (h : t.sortKey = u.sortKey) : t.outline = u.outline := by
  simp only [Task.sortKey, Prod.mk.injEq] at h
  obtain ⟨hpriority, hrank, hcategory⟩ := h
  have hseverity := eq_of_rank hrank
  have hcategory := eq_of_ctorIdx hcategory
  have hlength : t.issues.length = u.issues.length := by
    unfold Task.priority at hpriority
    rw [hseverity] at hpriority
    omega
  simp only [Task.outline, Task.id, Task.title, Task.priority, Task.minutes, Task.time,
    hseverity, hcategory, hlength]

theorem map_outline_congr {ts us : List Task} (h : ts.map Task.sortKey = us.map Task.sortKey) :
    ts.map Task.outline = us.map Task.outline := by
  induction ts generalizing us with
  | nil =>
    obtain rfl : us = [] := List.map_eq_nil_iff.1 h.symm
    rfl
  | cons t ts ih =>
    obtain ⟨u, us, rfl, hu, hus⟩ := List.map_eq_cons_iff.1 h.symm
    rw [List.map_cons, List.map_cons, outline_congr hu.symm, ih hus.symm]

/-- **No plan loses an issue or depends on their order.**  Its tasks hold every issue once, by
severity and category, and their order is strict.  The issues in another order give tasks of the
same names, titles, priorities and times in the same order. -/
theorem of_partitions_issues (issues : List Issue) :
    Settles issues (Plan.of issues) ∧
      ∀ issues', issues'.Perm issues →
        (Plan.of issues').tasks.map Task.outline = (Plan.of issues).tasks.map Task.outline ∧
        (Plan.of issues').minutes = (Plan.of issues).minutes ∧
        (Plan.of issues').effort = (Plan.of issues).effort := by
  refine ⟨settles_of issues, fun issues' h => ?_⟩
  have hminutes : (Plan.of issues').minutes = (Plan.of issues).minutes := by
    rw [(settles_of issues').sum_minutes, (settles_of issues).sum_minutes]
    exact (h.map fun i => i.severity.minutes).sum_eq
  exact ⟨map_outline_congr (map_sortKey_of_perm h), hminutes, congrArg duration hminutes⟩

/-- Two issues, found one way and the other. -/
theorem of_partitions_two :
    let a : Issue := ⟨"quality/important", .minor, .bestPractice, "a", .fileStart "a.css", "", none⟩
    let b : Issue := ⟨"naming/class", .minor, .naming, "b", .fileStart "b.css", "", none⟩
    [b, a].Perm [a, b] ∧ (Plan.of [b, a]).tasks.length = 2 ∧
      (Plan.of [b, a]).tasks.map Task.outline = (Plan.of [a, b]).tasks.map Task.outline ∧
      (Plan.of [b, a]).minutes = (Plan.of [a, b]).minutes ∧
      (Plan.of [b, a]).effort = (Plan.of [a, b]).effort := by
  intro a b
  have hperm : [b, a].Perm [a, b] := List.Perm.swap a b []
  refine ⟨hperm, ?_, (of_partitions_issues [a, b]).2 [b, a] hperm⟩
  rw [(perm_tasks [b, a]).length_eq]
  rfl

end Plan
end SheetAudit
