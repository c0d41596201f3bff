import Mathlib
import SheetAudit.Report.Basic

/-!
# A report accounts for every issue

The three arrangements of a report hold every issue once, each under its own key and in its own
order of keys, and the counts of the report are the sizes of their groups.

Groups are put together in two ways.  Categories and severities are known beforehand, so their
issues are selected; files are met one by one, so an issue is put into the group of its file.  The
second way comes to the same as selecting by the keys in the order in which they first occur.

## Main definitions

* `Arranges` — groups hold every member of a list once, by key.
* `Tallies` — counts are the sizes of groups.

## Main results

* `arranges_groupAlong` — selecting by distinct keys arranges a list.
* `groupOn_eq_groupAlong` — **so does putting every member into the group of its key.**
* `Arranges.tallies` — the counts of the members with some key are the sizes of the groups.
* `Report.of_accounts_for_issues` — **no report loses, invents or counts twice an issue.**
-/

namespace SheetAudit
namespace Issues

variable {α κ : Type} [BEq κ]

/-! ### What arrangements and counts are -/

/-- `groups` holds every member of `xs` once, by key.  The keys ascend with regard to `rank`. -/
structure Arranges (key : α → κ) (rank : κ → Nat) (xs : List α) (groups : List (κ × List α)) :
    Prop where
  nodup_keys : (groups.map Prod.fst).Nodup
  ordered : (groups.map fun g => rank g.1).Pairwise (· < ·)
  ne_nil : ∀ g ∈ groups, g.2 ≠ []
  /-- A group has the members with its key, in the order of the list. -/
  group_eq : ∀ g ∈ groups, g.2 = xs.filter fun x => key x == g.1
  perm : (groups.flatMap Prod.snd).Perm xs

/-- The size of the group of a key, zero when there is none. -/
def groupSize (groups : List (κ × List α)) (k : κ) : Nat := ((groups.lookup k).getD []).length

/-- `counts` gives the sizes of the groups for all keys, which sum up to `total`. -/
structure Tallies (all : List κ) (groups : List (κ × List α)) (counts : List (κ × Nat))
    (total : Nat) : Prop where
  keys_eq : counts.map Prod.fst = all
  /-- No key is left out. -/
  complete : ∀ k, k ∈ all
  count_eq : ∀ k n, (k, n) ∈ counts → n = groupSize groups k
  sum_eq : (counts.map Prod.snd).sum = total

/-! ### One member more -/

theorem keysOn_append_singleton (key : α → κ) (xs : List α) (x : α) :
    keysOn key (xs ++ [x]) =
      if (keysOn key xs).contains (key x) then keysOn key xs else keysOn key xs ++ [key x] := by
  rw [keysOn, List.foldl_append]
  rfl

theorem groupOn_append_singleton (key : α → κ) (xs : List α) (x : α) :
    groupOn key (xs ++ [x]) = enter (key x) x (groupOn key xs) := by
  rw [groupOn, List.foldl_append]
  rfl

/-! ### Selecting by given keys -/

/-- The keys of the groups are some of the given keys. -/
theorem map_fst_groupAlong_sublist (keys : List κ) (key : α → κ) (xs : List α) :
    ((groupAlong keys key xs).map Prod.fst).Sublist keys := by
  have hkeys : (keys.map fun k => (k, xs.filter fun x => key x == k)).map Prod.fst = keys := by
    rw [List.map_map]
    exact List.map_id keys
  have hsublist := (List.filter_sublist (p := fun g : κ × List α => !g.2.isEmpty)
    (l := keys.map fun k => (k, xs.filter fun x => key x == k))).map Prod.fst
  rw [hkeys] at hsublist
  exact hsublist

/-- Leaving out empty groups leaves out no member. -/
theorem flatMap_groupAlong (keys : List κ) (key : α → κ) (xs : List α) :
    (groupAlong keys key xs).flatMap Prod.snd =
      keys.flatMap fun k => xs.filter fun x => key x == k := by
  rw [groupAlong]
  induction keys with
  | nil => rfl
  | cons k ks ih =>
    rw [List.map_cons, List.filter_cons, List.flatMap_cons, ← ih]
    split
    · rw [List.flatMap_cons]
    · next hempty =>
      have hnil : (xs.filter fun x => key x == k) = [] := by simpa using hempty
      rw [hnil, List.nil_append]

variable [LawfulBEq κ]

/-- Selecting by distinct keys loses no member and repeats none. -/
theorem perm_flatMap_filter (key : α → κ) {keys : List κ} (hnodup : keys.Nodup) {xs : List α}
    (hcover : ∀ x ∈ xs, key x ∈ keys) :
    (keys.flatMap fun k => xs.filter fun x => key x == k).Perm xs := by
  induction keys generalizing xs with
  | nil =>
    have hnil : xs = [] := List.eq_nil_iff_forall_not_mem.2 fun x hx =>
      List.not_mem_nil (hcover x hx)
    rw [hnil]
    exact .refl _
  | cons k ks ih =>
    obtain ⟨hk, hks⟩ := List.nodup_cons.1 hnodup
    -- the other groups are those of the members that have another key
    have hrest : (ks.flatMap fun k' => xs.filter fun x => key x == k') =
        ks.flatMap fun k' => (xs.filter fun x => !(key x == k)).filter fun x => key x == k' := by
      refine List.flatMap_congr fun k' hk' => ?_
      rw [List.filter_filter]
      refine List.filter_congr fun x _ => ?_
      have hne : k ≠ k' := fun heq => hk (heq ▸ hk')
      by_cases hx : key x = k'
      · simp [hx, Ne.symm hne]
      · simp [hx]
    have hcover' : ∀ x ∈ xs.filter (fun x => !(key x == k)), key x ∈ ks := by
      intro x hx
      obtain ⟨hx, hne⟩ := List.mem_filter.1 hx
      rcases List.mem_cons.1 (hcover x hx) with heq | hmem
      · simp [heq] at hne
      · exact hmem
    rw [List.flatMap_cons, hrest]
    exact ((ih hks hcover').append_left _).trans (List.filter_append_perm _ xs)

/-- Selecting by keys that ascend, and among which are those of all members, arranges a list. -/
theorem arranges_groupAlong {key : α → κ} {rank : κ → Nat} {keys : List κ} {xs : List α}
    (hkeys : (keys.map rank).Pairwise (· < ·)) (hcover : ∀ x ∈ xs, key x ∈ keys) :
    Arranges key rank xs (groupAlong keys key xs) := by
  have hsublist := map_fst_groupAlong_sublist keys key xs
  have hnodup : keys.Nodup :=
    List.Pairwise.of_map rank (fun k k' hlt heq => Nat.ne_of_lt hlt (congrArg rank heq)) hkeys
  have hgroup : ∀ g ∈ groupAlong keys key xs,
      g.2 = (xs.filter fun x => key x == g.1) ∧ g.2 ≠ [] := by
    intro g hg
    obtain ⟨hg, hne⟩ := List.mem_filter.1 hg
    obtain ⟨k, -, rfl⟩ := List.mem_map.1 hg
    exact ⟨rfl, by simpa using hne⟩
  refine ⟨hsublist.nodup hnodup, ?_, fun g hg => (hgroup g hg).2, fun g hg => (hgroup g hg).1, ?_⟩
  · have hranks := hkeys.sublist (hsublist.map rank)
    rw [List.map_map] at hranks
    exact hranks
  · rw [flatMap_groupAlong]
    exact perm_flatMap_filter key hnodup hcover

/-! ### Keys in the order in which they first occur -/

section

variable (key : α → κ)

theorem mem_keysOn {xs : List α} {k : κ} : k ∈ keysOn key xs ↔ k ∈ xs.map key := by
  induction xs using List.reverseRecOn with
  | nil => exact Iff.rfl
  | append_singleton xs x ih =>
    rw [keysOn_append_singleton, List.map_append, List.map_singleton, List.mem_append,
      List.mem_singleton, ← ih]
    split
    · next hx =>
      have hx : key x ∈ keysOn key xs := by simpa using hx
      exact ⟨.inl, fun h => h.elim id fun heq => heq ▸ hx⟩
    · rw [List.mem_append, List.mem_singleton]

/-- The keys ascend in the order in which they first occur. -/
theorem ordered_keysOn (xs : List α) :
    ((keysOn key xs).map fun k => (xs.map key).idxOf k).Pairwise (· < ·) := by
  induction xs using List.reverseRecOn with
  | nil => exact .nil
  | append_singleton xs x ih =>
    -- what has occurred before keeps its place
    have hidx : (keysOn key xs).map (fun k => ((xs ++ [x]).map key).idxOf k) =
        (keysOn key xs).map fun k => (xs.map key).idxOf k := by
      refine List.map_congr_left fun k hk => ?_
      rw [List.map_append, List.idxOf_append, if_pos ((mem_keysOn key).1 hk)]
    rw [keysOn_append_singleton]
    split
    · rw [hidx]
      exact ih
    · next hx =>
      have hx : key x ∉ xs.map key := fun hmem => hx (by simpa using (mem_keysOn key).2 hmem)
      have hlast : ((xs ++ [x]).map key).idxOf (key x) = (xs.map key).length := by
        rw [List.map_append, List.idxOf_append, if_neg hx, List.map_singleton, List.idxOf_cons_self,
          Nat.zero_add]
      rw [List.map_append, hidx, List.map_singleton, hlast]
      refine List.pairwise_append.2 ⟨ih, List.pairwise_singleton .., fun i hi j hj => ?_⟩
      obtain ⟨k, hk, rfl⟩ := List.mem_map.1 hi
      rw [List.mem_singleton.1 hj]
      exact List.idxOf_lt_length_of_mem ((mem_keysOn key).1 hk)

theorem nodup_keysOn (xs : List α) : (keysOn key xs).Nodup :=
  List.Pairwise.of_map _ (fun _ _ hlt heq => Nat.ne_of_lt hlt (heq ▸ rfl)) (ordered_keysOn key xs)

end

/-! ### Putting members into the groups of their keys -/

/-- A member with a key that has occurred joins the group of that key. -/
theorem enter_of_mem {keys : List κ} (hnodup : keys.Nodup) {k : κ} (hk : k ∈ keys) (x : α)
    (group : κ → List α) :
    enter k x (keys.map fun k' => (k', group k')) =
      keys.map fun k' => (k', if k == k' then group k' ++ [x] else group k') := by
  induction keys with
  | nil => exact absurd hk List.not_mem_nil
  | cons k' ks ih =>
    obtain ⟨hk', hks⟩ := List.nodup_cons.1 hnodup
    rw [List.map_cons, List.map_cons, enter]
    by_cases heq : k' = k
    · -- no later group has this key
      subst heq
      have hrest : (ks.map fun k'' => (k'', if k' == k'' then group k'' ++ [x] else group k'')) =
          ks.map fun k'' => (k'', group k'') := by
        refine List.map_congr_left fun k'' hk'' => ?_
        have hne : k' ≠ k'' := fun heq => hk' (heq ▸ hk'')
        rw [if_neg (by simpa using hne)]
      rw [if_pos (beq_self_eq_true k'), if_pos (beq_self_eq_true k'), hrest]
    · have hmem : k ∈ ks := (List.mem_cons.1 hk).resolve_left (Ne.symm heq)
      rw [if_neg (by simpa using heq), if_neg (by simpa using Ne.symm heq), ih hks hmem]

/-- A member with a new key gets a new group. -/
theorem enter_of_not_mem {keys : List κ} {k : κ} (hk : k ∉ keys) (x : α) (group : κ → List α) :
    enter k x (keys.map fun k' => (k', group k')) =
      (keys.map fun k' => (k', group k')) ++ [(k, [x])] := by
  induction keys with
  | nil => rfl
  | cons k' ks ih =>
    obtain ⟨hne, hks⟩ := not_or.1 (mt List.mem_cons.2 hk)
    rw [List.map_cons, enter, if_neg (by simpa using Ne.symm hne), ih hks]
    rfl

variable (key : α → κ)

/-- Putting every member into the group of its key is selecting by the keys that occur. -/
theorem groupOn_eq_map (xs : List α) :
    groupOn key xs = (keysOn key xs).map fun k => (k, xs.filter fun x => key x == k) := by
  induction xs using List.reverseRecOn with
  | nil => rfl
  | append_singleton xs x ih =>
    have hfilter : ∀ k, ((xs ++ [x]).filter fun y => key y == k) =
        if key x == k then (xs.filter fun y => key y == k) ++ [x]
        else xs.filter fun y => key y == k := by
      intro k
      rw [List.filter_append, List.filter_cons, List.filter_nil]
      split
      · rfl
      · exact List.append_nil _
    rw [groupOn_append_singleton, ih, keysOn_append_singleton]
    simp only [hfilter]
    split
    · next hx => exact enter_of_mem (nodup_keysOn key xs) (by simpa using hx) x _
    · next hx =>
      have hx : key x ∉ keysOn key xs := by simpa using hx
      have hnone : (xs.filter fun y => key y == key x) = [] := by
        refine List.filter_eq_nil_iff.2 fun y hy heq => hx ?_
        exact (mem_keysOn key).2 (List.mem_map.2 ⟨y, hy, eq_of_beq heq⟩)
      have hkeep : ((keysOn key xs).map fun k => (k, if key x == k then
            (xs.filter fun y => key y == k) ++ [x] else xs.filter fun y => key y == k)) =
          (keysOn key xs).map fun k => (k, xs.filter fun y => key y == k) := by
        refine List.map_congr_left fun k hk => ?_
        have hne : key x ≠ k := fun heq => hx (heq ▸ hk)
        rw [if_neg (by simpa using hne)]
      rw [enter_of_not_mem hx, List.map_append, hkeep, List.map_singleton,
        if_pos (beq_self_eq_true (key x)), hnone, List.nil_append]

/-- **Putting every member into the group of its key arranges a list** as selecting by the keys
does, in the order in which they first occur. -/
theorem groupOn_eq_groupAlong (xs : List α) :
    groupOn key xs = groupAlong (keysOn key xs) key xs := by
  rw [groupOn_eq_map, groupAlong]
  refine (List.filter_eq_self.2 fun g hg => ?_).symm
  obtain ⟨k, hk, rfl⟩ := List.mem_map.1 hg
  obtain ⟨x, hx, rfl⟩ := List.mem_map.1 ((mem_keysOn key).1 hk)
  have hmem : x ∈ xs.filter fun y => key y == key x :=
    List.mem_filter.2 ⟨hx, beq_self_eq_true (key x)⟩
  simpa using List.ne_nil_of_mem hmem

theorem arranges_groupOn (xs : List α) :
    Arranges key (fun k => (xs.map key).idxOf k) xs (groupOn key xs) := by
  rw [groupOn_eq_groupAlong]
  exact arranges_groupAlong (ordered_keysOn key xs) fun x hx =>
    (mem_keysOn key).2 (List.mem_map.2 ⟨x, hx, rfl⟩)

/-! ### Counting -/

variable {key} {rank : κ → Nat} {xs : List α} {groups : List (κ × List α)}

/-- The size of a group is the number of members with its key. -/
theorem Arranges.groupSize_eq (h : Arranges key rank xs groups) (k : κ) :
    groupSize groups k = xs.countP fun x => key x == k := by
  rw [groupSize, List.countP_eq_length_filter]
  cases hk : groups.lookup k with
  | some group =>
    obtain ⟨before, after, hgroups, -⟩ := List.lookup_eq_some_iff.1 hk
    have hmem : (k, group) ∈ groups := by
      rw [hgroups]
      exact List.mem_append_right _ List.mem_cons_self
    exact congrArg List.length (h.group_eq _ hmem)
  | none =>
    -- a member with this key would be in a group
    have hnone : (xs.filter fun x => key x == k) = [] := by
      refine List.filter_eq_nil_iff.2 fun x hx heq => ?_
      obtain ⟨g, hg, hxg⟩ := List.mem_flatMap.1 (h.perm.mem_iff.2 hx)
      rw [h.group_eq g hg] at hxg
      have hkey : k = g.1 := (eq_of_beq heq).symm.trans (eq_of_beq (List.mem_filter.1 hxg).2)
      exact absurd (List.lookup_eq_none_iff.1 hk g hg) (by simp [hkey])
    rw [hnone]
    rfl

/-- The numbers of members with each of all keys are the sizes of the groups. -/
theorem Arranges.tallies (h : Arranges key rank xs groups) {all : List κ} (hnodup : all.Nodup)
    (hall : ∀ k, k ∈ all) :
    Tallies all groups (all.map fun k => (k, xs.countP fun x => key x == k)) xs.length where
  keys_eq := by
    rw [List.map_map]
    exact List.map_id all
  complete := hall
  count_eq k n hkn := by
    obtain ⟨k', -, heq⟩ := List.mem_map.1 hkn
    cases heq
    exact (h.groupSize_eq k).symm
  sum_eq := by
    rw [← (perm_flatMap_filter key hnodup fun x _ => hall (key x)).length_eq, List.length_flatMap,
      List.map_map]
    simp only [List.countP_eq_length_filter]
    rfl

end Issues

/-! ### Severities and categories -/

theorem Severity.mem_all (s : Severity) : s ∈ Severity.all := by
  cases s <;> decide

theorem Category.mem_all (c : Category) : c ∈ Category.all := by
  cases c <;> decide

theorem Issues.arranges_byCategory (issues : List Issue) :
    Arranges Issue.category Category.ctorIdx issues (byCategory issues) :=
  arranges_groupAlong (by decide) fun i _ => i.category.mem_all

theorem Issues.arranges_bySeverity (issues : List Issue) :
    Arranges Issue.severity Severity.ctorIdx issues (bySeverity issues) :=
  arranges_groupAlong (by decide) fun i _ => i.severity.mem_all

/-- Some severity that is severe enough is counted when some issue is. -/
theorem Summary.hasAtLeast_of (issues : List Issue) (filesScanned : Nat) (t : Severity) :
    (Summary.of issues filesScanned).hasAtLeast t = true ↔
      ∃ i ∈ issues, i.severity.rank ≤ t.rank := by
  rw [hasAtLeast, List.any_eq_true]
  constructor
  · rintro ⟨⟨s, n⟩, hmem, h⟩
    obtain ⟨s', -, heq⟩ := List.mem_map.1 hmem
    cases heq
    obtain ⟨hle, hpos⟩ : s.rank ≤ t.rank ∧ 0 < Issues.countSeverity issues s := by
      simpa [Severity.atLeast] using h
    obtain ⟨i, hi, hs⟩ := List.countP_pos_iff.1 hpos
    obtain rfl := eq_of_beq hs
    exact ⟨i, hi, hle⟩
  · rintro ⟨i, hi, hle⟩
    have hpos : 0 < Issues.countSeverity issues i.severity :=
      List.countP_pos_iff.2 ⟨i, hi, beq_self_eq_true i.severity⟩
    refine ⟨(i.severity, Issues.countSeverity issues i.severity), ?_, ?_⟩
    · exact List.mem_map.2 ⟨i.severity, i.severity.mem_all, rfl⟩
    · simpa [Severity.atLeast] using ⟨hle, hpos⟩

/-! ### Reports -/

namespace Report

open Issues

/-- Headings that tell the keys apart show the groups as they are. -/
theorem shown_once {κ : Type} {groups : List (κ × List Issue)} {issues : List Issue}
    {all : List κ} {title : κ → String} (hsublist : (groups.map Prod.fst).Sublist all)
    (htitle : (all.map title).Nodup) (hperm : (groups.flatMap Prod.snd).Perm issues) :
    ((groups.map fun g => (title g.1, g.2)).map Prod.fst).Nodup ∧
      ((groups.map fun g => (title g.1, g.2)).flatMap Prod.snd).Perm issues := by
  constructor
  · have hnodup := (hsublist.map title).nodup htitle
    rw [List.map_map] at hnodup ⊢
    exact hnodup
  · rw [List.flatMap_map]
    exact hperm

/-- However a report is grouped, no two groups have the same heading, and every issue is shown
once. -/
theorem groups_of (issues : List Issue) (filesScanned : Nat) (grouping : Grouping) :
    (((Report.of issues filesScanned).groups grouping).map Prod.fst).Nodup ∧
      (((Report.of issues filesScanned).groups grouping).flatMap Prod.snd).Perm issues := by
  cases grouping with
  | category =>
    exact shown_once (map_fst_groupAlong_sublist ..) (by decide) (arranges_byCategory issues).perm
  | severity =>
    exact shown_once (map_fst_groupAlong_sublist ..) (by decide) (arranges_bySeverity issues).perm
  | file => exact ⟨(arranges_groupOn _ issues).nodup_keys, (arranges_groupOn _ issues).perm⟩

/-- **No report loses, invents or counts twice an issue.**  Its three arrangements hold every
issue once, by category and by severity in the order in which these are declared, and by file in
the order in which the files first appear.  Its counts are the sizes of the groups.  Whatever
arrangement is shown, its groups are shown as they are. -/
theorem of_accounts_for_issues (issues : List Issue) (filesScanned : Nat) :
    let r := Report.of issues filesScanned
    Arranges Issue.category Category.ctorIdx issues r.byCategory ∧
    Arranges Issue.severity Severity.ctorIdx issues r.bySeverity ∧
    Arranges Issue.file (fun file => (issues.map Issue.file).idxOf file) issues r.byFile ∧
    r.summary.total = issues.length ∧
    Tallies Severity.all r.bySeverity r.summary.bySeverity r.summary.total ∧
    Tallies Category.all r.byCategory r.summary.byCategory r.summary.total ∧
    r.summary.filesWithIssues = r.byFile.length ∧
    r.summary.filesScanned = filesScanned ∧
    (∀ t, r.summary.hasAtLeast t = true ↔ ∃ i ∈ issues, i.severity.rank ≤ t.rank) ∧
    r.groups .category = r.byCategory.map (fun g => (g.1.title, g.2)) ∧
    r.groups .severity = r.bySeverity.map (fun g => (g.1.title, g.2)) ∧
    r.groups .file = r.byFile ∧
    ∀ grouping, ((r.groups grouping).map Prod.fst).Nodup ∧
      ((r.groups grouping).flatMap Prod.snd).Perm issues := by
  intro r
  refine ⟨arranges_byCategory issues, arranges_bySeverity issues, arranges_groupOn _ issues, rfl,
    ?_, ?_, rfl, rfl, Summary.hasAtLeast_of issues filesScanned, rfl, rfl, rfl,
    groups_of issues filesScanned⟩
  · exact (arranges_bySeverity issues).tallies (by decide) Severity.mem_all
  · exact (arranges_byCategory issues).tallies (by decide) Category.mem_all

end Report
end SheetAudit
