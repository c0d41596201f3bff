import Mathlib.Data.List.Basic
import Mathlib.Data.List.Pairwise
import SheetAudit.Proofs.Firsts
import SheetAudit.Rules.Documentation

/-!
# The script of the majority

Which script a text is written in is decided twice by counting: among the letters of a comment, and
among the comments of a style sheet.  Where several occur equally often, the one that occurs first
is taken.

## Main definitions

* `Repeats.IsGreatest` — the first of the members of a list with the greatest count.
* `Repeats.IsUsual` — no member occurs more often, and of those that occur as often it comes first.
* `Documentation.IsWrittenIn` — the script of a comment.
* `Documentation.written` — the comments that have a script, with their scripts.

## Main results

* `Repeats.isGreatest_of_greatest` — the search for the greatest count finds the first.
* `Repeats.mostFrequent_eq_some_iff` — what occurs most often is found, and nothing else.
* `Documentation.languages_by_majority` — **the comments that are reported are those that are not
  written in the script of the majority.**
-/

namespace SheetAudit
namespace Repeats

/-! ### The greatest count -/

section

variable {α : Type} {count : α → Nat} {xs : List α} {x y : α}

/-- All members before have smaller counts, and no member behind has a greater one. -/
def IsGreatest (count : α → Nat) (xs : List α) (x : α) : Prop :=
  ∃ before after, xs = before ++ x :: after ∧ (∀ y ∈ before, count y < count x) ∧
    ∀ y ∈ after, count y ≤ count x

theorem IsGreatest.le (h : IsGreatest count xs x) (hy : y ∈ xs) : count y ≤ count x := by
  obtain ⟨before, after, rfl, hbefore, hafter⟩ := h
  rcases List.mem_append.1 hy with hy | hy
  · exact Nat.le_of_lt (hbefore y hy)
  · rcases List.mem_cons.1 hy with rfl | hy
    · exact Nat.le_refl _
    · exact hafter y hy

theorem greatest_eq_none_iff : greatest count xs = none ↔ xs = [] := by
  cases xs with
  | nil => exact iff_of_true rfl rfl
  | cons x xs =>
    refine iff_of_false ?_ (List.cons_ne_nil x xs)
    rw [greatest]
    split
    · split <;> exact nofun
    · exact nofun

/-- The search for the greatest count finds the first. -/
theorem isGreatest_of_greatest (h : greatest count xs = some x) : IsGreatest count xs x := by
  induction xs generalizing x with
  | nil => cases h
  | cons z zs ih =>
    rw [greatest] at h
    split at h
    · next y hy =>
      have hgreatest := ih hy
      split at h
      · next hlt =>
        obtain rfl := Option.some.inj h
        obtain ⟨before, after, rfl, hbefore, hafter⟩ := hgreatest
        exact ⟨z :: before, after, rfl, List.forall_mem_cons.2 ⟨hlt, hbefore⟩, hafter⟩
      · next hle =>
        obtain rfl := Option.some.inj h
        refine ⟨[], zs, rfl, nofun, fun w hw => ?_⟩
        exact Nat.le_trans (hgreatest.le hw) (Nat.le_of_not_lt hle)
    · next hnone =>
      obtain rfl := Option.some.inj h
      obtain rfl := greatest_eq_none_iff.1 hnone
      exact ⟨[], [], rfl, nofun, nofun⟩

end

/-! ### What occurs most often -/

section

variable {α : Type} [BEq α] [LawfulBEq α] {xs : List α} {x y : α}

/-- A member that occurs as often as any, and before all others that occur as often. -/
structure IsUsual (x : α) (xs : List α) : Prop where
  mem : x ∈ xs
  most : ∀ y ∈ xs, xs.count y ≤ xs.count x
  first : ∀ y ∈ xs, xs.count y = xs.count x → xs.idxOf x ≤ xs.idxOf y

theorem IsUsual.unique (hx : IsUsual x xs) (hy : IsUsual y xs) : x = y := by
  have hcount : xs.count x = xs.count y :=
    Nat.le_antisymm (hy.most x hx.mem) (hx.most y hy.mem)
  have hplace : xs.idxOf x = xs.idxOf y :=
    Nat.le_antisymm (hx.first y hy.mem hcount.symm) (hy.first x hx.mem hcount)
  exact (List.idxOf_inj hx.mem).1 hplace

theorem pairwise_idxOf_firstsFrom (seen xs : List α) :
    (firstsFrom id seen xs).Pairwise fun x y => xs.idxOf x < xs.idxOf y := by
  induction xs generalizing seen with
  | nil => exact List.Pairwise.nil
  | cons z zs ih =>
    -- what was seen is not taken any more, so all that is taken stands behind
    have hbehind {seen' : List α} (hz : z ∈ seen') {y : α} (hy : y ∈ firstsFrom id seen' zs) :
        (z :: zs).idxOf y = zs.idxOf y + 1 := by
      refine List.idxOf_cons_ne zs fun heq => ?_
      exact key_not_mem_of_mem_firstsFrom hy (heq ▸ hz)
    have hshift {seen' : List α} (hz : z ∈ seen') :
        (firstsFrom id seen' zs).Pairwise fun x y => (z :: zs).idxOf x < (z :: zs).idxOf y := by
      refine (ih seen').imp_of_mem fun hx hy hlt => ?_
      rw [hbehind hz hx, hbehind hz hy]
      exact Nat.succ_lt_succ hlt
    rw [firstsFrom]
    split
    · next hseen => exact hshift (List.contains_iff_mem.1 hseen)
    · refine List.pairwise_cons.2 ⟨fun y hy => ?_, hshift List.mem_cons_self⟩
      have hz : (z :: zs).idxOf (id z) = 0 := List.idxOf_cons_self
      rw [hbehind List.mem_cons_self hy]
      exact hz ▸ Nat.succ_pos _

/-- First occurrences come in the order of their places. -/
theorem pairwise_idxOf_firsts (xs : List α) :
    (firsts id xs).Pairwise fun x y => xs.idxOf x < xs.idxOf y :=
  pairwise_idxOf_firstsFrom [] xs

theorem mem_firsts_id : x ∈ firsts id xs ↔ x ∈ xs := by
  refine ⟨fun h => (firsts_sublist id xs).subset h, fun h => ?_⟩
  obtain ⟨y, hy, rfl⟩ := exists_mem_firsts id h
  exact hy

theorem mostFrequent_eq_none_iff : mostFrequent xs = none ↔ xs = [] := by
  rw [mostFrequent, greatest_eq_none_iff]
  refine ⟨fun h => List.eq_nil_iff_forall_not_mem.2 fun x hx => ?_, fun h => by rw [h]; rfl⟩
  have hmem := mem_firsts_id.2 hx
  rw [h] at hmem
  exact List.not_mem_nil hmem

theorem isUsual_of_mostFrequent (h : mostFrequent xs = some x) : IsUsual x xs := by
  have hgreatest : IsGreatest (fun y => xs.count y) (firsts id xs) x := isGreatest_of_greatest h
  have hmost {y : α} (hy : y ∈ xs) : xs.count y ≤ xs.count x := hgreatest.le (mem_firsts_id.2 hy)
  have hplaces := pairwise_idxOf_firsts xs
  obtain ⟨before, after, hfirsts, hbefore, -⟩ := hgreatest
  rw [hfirsts, List.pairwise_append] at hplaces
  obtain ⟨-, hplaces, -⟩ := hplaces
  refine ⟨mem_firsts_id.1 (hfirsts ▸ List.mem_append_right before List.mem_cons_self),
    fun y hy => hmost hy, fun y hy hcount => ?_⟩
  -- what occurs as often is found behind
  have hy := mem_firsts_id.2 hy
  rw [hfirsts, List.mem_append] at hy
  rcases hy with hy | hy
  · exact absurd hcount (Nat.ne_of_lt (hbefore y hy))
  · rcases List.mem_cons.1 hy with rfl | hy
    · exact Nat.le_refl _
    · exact Nat.le_of_lt ((List.pairwise_cons.1 hplaces).1 y hy)

/-- What occurs most often is found, and nothing else. -/
theorem mostFrequent_eq_some_iff : mostFrequent xs = some x ↔ IsUsual x xs := by
  refine ⟨isUsual_of_mostFrequent, fun h => ?_⟩
  cases hfound : mostFrequent xs with
  | none =>
    rw [mostFrequent_eq_none_iff] at hfound
    exact absurd h.mem (hfound ▸ List.not_mem_nil)
  | some y => rw [(isUsual_of_mostFrequent hfound).unique h]

end

end Repeats

namespace Documentation

open Source Repeats

/-! ### Comments and their scripts -/

/-- A comment that is no separator is written in the script of most of its letters, which is the
one that occurs first if there are several. -/
def IsWrittenIn (c : Comment) (script : Script) : Prop :=
  c.separator? = none ∧ IsUsual script (c.text.filterMap Script.of?)

/-- The script that a comment is written in, if it has one. -/
def scriptOf? (c : Comment) : Option Script :=
  if c.separator?.isSome then none else Script.dominant? c.text

theorem scriptOf?_eq_some_iff {c : Comment} {script : Script} :
    scriptOf? c = some script ↔ IsWrittenIn c script := by
  rw [scriptOf?, IsWrittenIn, Option.ite_none_left_eq_some, Script.dominant?,
    mostFrequent_eq_some_iff, Bool.not_eq_true, Option.isSome_eq_false_iff,
    Option.isNone_iff_eq_none]

/-- The comments that have a script, with their scripts. -/
def written (comments : List Comment) : List (Script × Comment) :=
  comments.filterMap fun c => (scriptOf? c).map fun script => (script, c)

theorem scripts_eq (comments : List Comment) :
    scripts comments = (written comments).map fun w => (w.1, w.2.line) := by
  rw [scripts, written, List.map_filterMap]
  refine List.filterMap_congr fun c _ => ?_
  rw [scriptOf?]
  split
  · rfl
  · rw [Option.map_map]
    rfl

/-- **The comments that are reported are those that are not written in the script of the majority.**
A comment is written in the script of most of its letters; with three comments or more that have a
script there is one that most of them are written in, and each of the others is reported at its line
with its own script and that one by name, in the order of the comments. -/
theorem languages_by_majority (s : Sheet) (comments : List Comment) :
    (∀ c script, scriptOf? c = some script ↔ IsWrittenIn c script) ∧
    ((written comments).length < 3 → languages s comments = []) ∧
    (3 ≤ (written comments).length → ∃ usual, IsUsual usual ((written comments).map (·.1)) ∧
      languages s comments = ((written comments).filter fun w => w.1 != usual).map fun w =>
        { rule := "comments/mixed-language"
          severity := .minor
          category := .bestPractice
          message := s!"Comment is written in {w.1.label} while most comments use {usual.label}"
          location := ⟨s.path, ⟨w.2.line, 1⟩⟩
          suggestion := s!"Write comments in one language ({usual.label})" }) := by
  have hscripts : (scripts comments).map (·.1) = (written comments).map (·.1) := by
    rw [scripts_eq, List.map_map]
    rfl
  have hlength : (scripts comments).length = (written comments).length := by
    rw [scripts_eq, List.length_map]
  refine ⟨fun c script => scriptOf?_eq_some_iff, fun hfew => ?_, fun hmany => ?_⟩
  · rw [languages, hlength]
    split
    · rfl
    · exact if_pos hfew
  · have hne : (written comments).map (·.1) ≠ [] := by
      intro hnil
      rw [List.map_eq_nil_iff] at hnil
      rw [hnil] at hmany
      exact absurd hmany (by decide)
    obtain ⟨usual, husual⟩ := Option.ne_none_iff_exists'.1 (mt mostFrequent_eq_none_iff.1 hne)
    refine ⟨usual, mostFrequent_eq_some_iff.1 husual, ?_⟩
    have hmany : ¬ (scripts comments).length < minWritten := by
      rw [hlength]
      exact Nat.not_lt.2 hmany
    rw [languages, hscripts, husual]
    dsimp only
    rw [if_neg hmany, scripts_eq, List.filter_map, List.map_map]
    rfl

/-- Behind a separator in another script, both counts end in a tie: the letters of the second
comment are taken for Cyrillic, and the script of the first comment for that of most. -/
example : (languages { path := "a.css" } [⟨"---\u0416".toList, 1, true⟩, ⟨"ab".toList, 2, true⟩,
    ⟨"\u0416a".toList, 3, true⟩, ⟨"\u0416".toList, 4, true⟩, ⟨"a".toList, 5, true⟩]).map
      (·.location.pos.line) = [3, 4] := by
  decide

end Documentation
end SheetAudit
