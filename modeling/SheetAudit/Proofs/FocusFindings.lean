import Mathlib.Data.List.Basic
import SheetAudit.Proofs.Firsts
import SheetAudit.Rules.Focus

/-!
# Findings about the focus

Both rules about the focus pick rules of the sheet by their bases: one the first rule of every base
that is interactive and has no style for the focus, the other the focus styles that take the outline
away where no focus style of the base shows the focus.

## Main definitions

* `Focus.styledBases`, `Focus.shownBases` — the bases with a style for the focus, and those with one
  that shows it.
* `Focus.exposed` — the rules that are reported for the outlines they take away.

## Main results

* `firsts_filter` — what is picked by its key may be picked before or after the first members are.
* `filterMap_ite_eq_iff` — two selections from a list, one from the other, are equal exactly if they
  select the same.
* `Focus.missing_eq`, `Focus.removed_eq` — the findings are selections from the rules of the sheet.
-/

namespace SheetAudit

/-! ### Selections from a list -/

namespace Repeats

variable {α κ : Type} [BEq κ] [LawfulBEq κ] {key : α → κ} {p : κ → Bool}

theorem firstsFrom_filter {seen seen' : List κ} (h : ∀ k, p k = true → (k ∈ seen ↔ k ∈ seen'))
    (xs : List α) :
    firstsFrom key seen (xs.filter fun x => p (key x)) =
      (firstsFrom key seen' xs).filter fun x => p (key x) := by
  induction xs generalizing seen seen' with
  | nil => rfl
  | cons x xs ih =>
    by_cases hx : p (key x) = true
    · have hseen : seen.contains (key x) = seen'.contains (key x) := by
        rw [Bool.eq_iff_iff, List.contains_iff_mem, List.contains_iff_mem, h _ hx]
      rw [List.filter_cons_of_pos (p := fun x => p (key x)) hx, firstsFrom, firstsFrom, hseen]
      split
      · exact ih h
      · rw [List.filter_cons_of_pos (p := fun x => p (key x)) hx]
        refine congrArg (x :: ·) (ih fun k hk => ?_)
        rw [List.mem_cons, List.mem_cons, h k hk]
    · rw [List.filter_cons_of_neg (p := fun x => p (key x)) hx, firstsFrom]
      split
      · exact ih h
      · rw [List.filter_cons_of_neg (p := fun x => p (key x)) hx]
        -- the key that is seen now is none of those that are picked
        refine ih fun k hk => ?_
        rw [h k hk, List.mem_cons, or_iff_right]
        rintro rfl
        exact hx hk

/-- What is picked by its key may be picked before or after the first members are. -/
theorem firsts_filter (key : α → κ) (p : κ → Bool) (xs : List α) :
    firsts key (xs.filter fun x => p (key x)) = (firsts key xs).filter fun x => p (key x) :=
  firstsFrom_filter (fun _ _ => Iff.rfl) xs

end Repeats

section

variable {α β : Type} {p q : α → Bool} {f : α → Option β}

/-- Two selections from a list, one from the other, are equal exactly if they select the same. -/
theorem filterMap_ite_eq_iff (hqp : ∀ x, q x = true → p x = true) (xs : List α) :
    (xs.filterMap fun x => if q x then f x else none) =
        (xs.filterMap fun x => if p x then f x else none) ↔
      ∀ x ∈ xs, p x = true → (f x).isSome = true → q x = true := by
  have hlength (ys : List α) : (ys.filterMap fun x => if q x then f x else none).length ≤
      (ys.filterMap fun x => if p x then f x else none).length := by
    induction ys with
    | nil => exact Nat.le_refl 0
    | cons y ys ih =>
      rw [List.filterMap_cons, List.filterMap_cons]
      cases hq : q y with
      | true =>
        rw [hqp y hq]
        cases f y with
        | none => exact ih
        | some b => exact Nat.succ_le_succ ih
      | false =>
        cases p y <;> cases f y <;> simp <;> omega
  induction xs with
  | nil => simp
  | cons x xs ih =>
    rw [List.forall_mem_cons, List.filterMap_cons, List.filterMap_cons]
    refine Iff.trans ?_ (and_congr_right fun _ => ih)
    cases hq : q x with
    | true =>
      rw [hqp x hq]
      cases f x <;> simp
    | false =>
      cases hp : p x with
      | false => simp
      | true =>
        cases hf : f x with
        | none => simp
        | some b =>
          -- one selection has a member more
          have hle := hlength xs
          refine iff_of_false (fun heq => ?_) (by simp)
          have hlong := congrArg List.length heq
          simp only [Bool.false_eq_true, ↓reduceIte, List.length_cons] at hlong
          omega

theorem and_not_contains_iff [BEq α] [LawfulBEq α] {b : Bool} {x : α} {xs : List α} :
    (b && !xs.contains x) = true ↔ b = true ∧ x ∉ xs := by
  rw [Bool.and_eq_true, Bool.not_eq_true', ← Bool.not_eq_true, List.contains_iff_mem]

end

namespace Focus

/-! ### The findings -/

/-- The bases with a style for the focus. -/
def styledBases (s : Sheet) : List (List Char) := (focusRules s).map fun r => base r.selector

/-- The bases with a focus style that shows the focus. -/
def shownBases (s : Sheet) : List (List Char) :=
  ((focusRules s).filter fun r => r.declarations.any showsFocus).map fun r => base r.selector

/-- What there is to say about a rule if it takes the outline away. -/
def removal? (s : Sheet) (r : Rule) : Option Issue :=
  (r.declarations.find? removesOutline).map (removedOutline s r)

/-- A focus style whose base has none that shows the focus. -/
def isUnshown (s : Sheet) (r : Rule) : Bool :=
  hasFocusPseudo r.selector && !(shownBases s).contains (base r.selector)

theorem isUnshown_iff {s : Sheet} {r : Rule} :
    isUnshown s r = true ↔ hasFocusPseudo r.selector = true ∧ base r.selector ∉ shownBases s :=
  and_not_contains_iff

/-- The rules that are reported for the outlines they take away. -/
def exposed (s : Sheet) : List Rule :=
  s.rules.filter fun r => isUnshown s r && r.declarations.any removesOutline

theorem missing_eq (s : Sheet) :
    missing s = (Repeats.firsts (fun r => base r.selector) s.rules).filterMap fun r =>
      if isInteractive (base r.selector) && !(styledBases s).contains (base r.selector) then
        some (missingStyle s r)
      else none := by
  have hfilter := Repeats.firsts_filter (fun r : Rule => base r.selector)
    (fun b => isInteractive b && !(styledBases s).contains b) s.rules
  have hmissing : missing s = (Repeats.firsts (fun r : Rule => base r.selector)
      (s.rules.filter fun r => isInteractive (base r.selector) &&
        !(styledBases s).contains (base r.selector))).map (missingStyle s) := rfl
  rw [hmissing, hfilter, ← List.filterMap_eq_map, List.filterMap_filter]
  rfl

theorem removed_eq (s : Sheet) :
    removed s = s.rules.filterMap fun r => if isUnshown s r then removal? s r else none := by
  rw [removed, focusRules, List.filterMap_filter]
  refine List.filterMap_congr fun r _ => ?_
  rw [isUnshown, removal?]
  cases hasFocusPseudo r.selector with
  | false => rfl
  | true =>
    cases r.declarations.find? removesOutline with
    | none => exact (ite_self none).symm
    | some outline =>
      show (if (shownBases s).contains (base r.selector) then none
          else some (removedOutline s r outline)) =
        if !(shownBases s).contains (base r.selector) then some (removedOutline s r outline)
        else none
      cases (shownBases s).contains (base r.selector) <;> rfl

theorem isSome_removal? (s : Sheet) (r : Rule) :
    (removal? s r).isSome = r.declarations.any removesOutline := by
  rw [removal?, Option.isSome_map, Bool.eq_iff_iff, List.find?_isSome, List.any_eq_true]

end Focus
end SheetAudit
