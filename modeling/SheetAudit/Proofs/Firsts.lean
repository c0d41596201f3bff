import SheetAudit.Repeats

/-!
# First occurrences

Taking the first member for every key loses no key and repeats none.

## Main results

* `firsts_sublist`, `exists_mem_firsts` — only members are taken, and one for every key.
* `mem_of_mem_repeats` — repeats are members as well.
* `nodup_map_firsts` — **no two first members have the same key.**
* `exists_repeats_append` — a member is a repeat if an earlier one has its key, and it comes after
  the first of these.
-/

namespace SheetAudit
namespace Repeats

variable {α κ : Type} [BEq κ] {key : α → κ}

/-! ### Members -/

theorem firstsFrom_sublist (seen : List κ) (xs : List α) : (firstsFrom key seen xs).Sublist xs := by
  induction xs generalizing seen with
  | nil => exact .slnil
  | cons x xs ih =>
    rw [firstsFrom]
    split
    · exact (ih seen).cons x
    · exact (ih _).cons_cons x

theorem firsts_sublist (key : α → κ) (xs : List α) : (firsts key xs).Sublist xs :=
  firstsFrom_sublist [] xs

theorem mem_of_mem_repeatsFrom {seen xs : List α} {p : α × α} (h : p ∈ repeatsFrom key seen xs) :
    p.2 ∈ xs := by
  induction xs generalizing seen with
  | nil => exact absurd h List.not_mem_nil
  | cons x xs ih =>
    rw [repeatsFrom] at h
    split at h
    · rcases List.mem_cons.1 h with rfl | h
      · exact List.mem_cons_self
      · exact List.mem_cons_of_mem _ (ih h)
    · exact List.mem_cons_of_mem _ (ih h)

/-- Repeats are members. -/
theorem mem_of_mem_repeats {xs : List α} {p : α × α} (h : p ∈ repeats key xs) : p.2 ∈ xs :=
  mem_of_mem_repeatsFrom h

/-! ### Keys -/

variable [LawfulBEq κ]

/-- The key of what is taken was not seen before. -/
theorem key_not_mem_of_mem_firstsFrom {seen : List κ} {xs : List α} {x : α}
    (h : x ∈ firstsFrom key seen xs) : key x ∉ seen := by
  induction xs generalizing seen with
  | nil => exact absurd h List.not_mem_nil
  | cons y ys ih =>
    rw [firstsFrom] at h
    split at h
    · exact ih h
    · next hy =>
      rcases List.mem_cons.1 h with rfl | h
      · simpa using hy
      · exact fun hin => ih h (List.mem_cons_of_mem _ hin)

theorem nodup_map_firstsFrom (seen : List κ) (xs : List α) :
    ((firstsFrom key seen xs).map key).Nodup := by
  induction xs generalizing seen with
  | nil => exact List.nodup_nil
  | cons y ys ih =>
    rw [firstsFrom]
    split
    · exact ih seen
    · rw [List.map_cons, List.nodup_cons]
      refine ⟨fun hin => ?_, ih _⟩
      obtain ⟨x, hx, hkey⟩ := List.mem_map.1 hin
      exact key_not_mem_of_mem_firstsFrom hx (hkey ▸ List.mem_cons_self)

theorem exists_mem_firstsFrom {seen : List κ} {xs : List α} {x : α} (hx : x ∈ xs)
    (hseen : key x ∉ seen) : ∃ y ∈ firstsFrom key seen xs, key y = key x := by
  induction xs generalizing seen with
  | nil => exact absurd hx List.not_mem_nil
  | cons z zs ih =>
    rw [firstsFrom]
    split
    · next hz =>
      rcases List.mem_cons.1 hx with rfl | hx
      · exact absurd (by simpa using hz) hseen
      · exact ih hx hseen
    · by_cases hkey : key z = key x
      · exact ⟨z, List.mem_cons_self, hkey⟩
      · rcases List.mem_cons.1 hx with rfl | hx
        · exact absurd rfl hkey
        · have hnot : key x ∉ key z :: seen := by
            intro hin
            rcases List.mem_cons.1 hin with h | h
            · exact hkey h.symm
            · exact hseen h
          obtain ⟨y, hy, hyx⟩ := ih hx hnot
          exact ⟨y, List.mem_cons_of_mem _ hy, hyx⟩

/-- **No two of the first members have the same key.** -/
theorem nodup_map_firsts (key : α → κ) (xs : List α) : ((firsts key xs).map key).Nodup :=
  nodup_map_firstsFrom [] xs

/-- Every key has a first member. -/
theorem exists_mem_firsts (key : α → κ) {xs : List α} {x : α} (h : x ∈ xs) :
    ∃ y ∈ firsts key xs, key y = key x :=
  exists_mem_firstsFrom h List.not_mem_nil

/-! ### Repeats in their places -/

/-- The members met so far are found by their keys. -/
theorem exists_repeatsFrom_append (key : α → κ) (seen before : List α) :
    ∃ seen', (∀ xs, repeatsFrom key seen (before ++ xs) =
        repeatsFrom key seen before ++ repeatsFrom key seen' xs) ∧
      ∀ k, (seen'.find? fun y => key y == k) =
        (seen.find? fun y => key y == k).or (before.find? fun y => key y == k) := by
  induction before generalizing seen with
  | nil => exact ⟨seen, fun xs => rfl, fun k => by rw [List.find?_nil, Option.or_none]⟩
  | cons x before ih =>
    cases hx : seen.find? fun y => key y == key x with
    | some y =>
      obtain ⟨seen', happend, hfind⟩ := ih seen
      refine ⟨seen', fun xs => ?_, fun k => ?_⟩
      · simp only [List.cons_append, repeatsFrom, hx, happend]
      · rw [hfind, List.find?_cons]
        cases hk : key x == k with
        | true =>
          obtain rfl := eq_of_beq hk
          rw [hx]
          rfl
        | false => rfl
    | none =>
      obtain ⟨seen', happend, hfind⟩ := ih (x :: seen)
      refine ⟨seen', fun xs => ?_, fun k => ?_⟩
      · simp only [List.cons_append, repeatsFrom, hx, happend]
      · rw [hfind, List.find?_cons, List.find?_cons]
        cases hk : key x == k with
        | true =>
          obtain rfl := eq_of_beq hk
          rw [hx]
          rfl
        | false => rfl

/-- A member is a repeat if an earlier one has its key, and it comes after the first of these. -/
theorem exists_repeats_append (key : α → κ) (before : List α) (x : α) (after : List α) :
    ∃ later, repeats key (before ++ x :: after) =
        repeats key before ++
          ((before.find? fun y => key y == key x).map fun y => (y, x)).toList ++ later ∧
      ∀ p ∈ later, p.2 ∈ after := by
  obtain ⟨seen, happend, hfind⟩ := exists_repeatsFrom_append key [] before
  have hx := hfind (key x)
  rw [List.find?_nil, Option.none_or] at hx
  rw [repeats, happend, repeatsFrom, hx]
  cases before.find? fun y => key y == key x with
  | some y => exact ⟨_, (List.append_assoc _ [(y, x)] _).symm, fun p => mem_of_mem_repeatsFrom⟩
  | none => exact ⟨_, (List.append_assoc _ [] _).symm, fun p => mem_of_mem_repeatsFrom⟩

end Repeats
end SheetAudit
