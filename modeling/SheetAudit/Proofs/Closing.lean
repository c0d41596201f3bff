import SheetAudit.Proofs.Flags

/-!
# Where references close

The arguments of a reference end at the parenthesis that closes it: the first one before which every
other parenthesis is closed.  Where there is none the reference goes on to the end of the value.

## Main definitions

* `Covers` — a text closes no more parentheses than are open before it and in it.

## Main results

* `Balanced.append` — balanced texts in a row are balanced.
* `takeArguments_closes` — what the arguments are, for a reference that is closed and one that is
  not.
* `Balanced.takeArguments_eq` — **balanced arguments are read whole.**
* `reference?_eq_some_iff` — a reference begins with its name in some letter case.
-/

namespace SheetAudit
namespace Value

open Text
open Offsets (dropAscii?_eq_some)

/-! ### Parentheses that are closed -/

/-- Read behind `depth` open parentheses, the text closes none that is not open. -/
def Covers (depth : Nat) (cs : List Char) : Prop :=
  ∀ front, front <+: cs → front.count ')' ≤ front.count '(' + depth

theorem covers_nil (depth : Nat) : Covers depth [] := by
  intro front hfront
  rw [List.prefix_nil.1 hfront]
  exact Nat.zero_le _

theorem covers_cons {depth d : Nat} {c : Char} {cs : List Char}
    (hc : [c].count ')' + d = [c].count '(' + depth) (h : Covers d cs) :
    Covers depth (c :: cs) := by
  intro front hfront
  rcases List.prefix_cons_iff.1 hfront with rfl | ⟨rest, rfl, hrest⟩
  · exact Nat.zero_le _
  · have := h rest hrest
    rw [List.count_cons, List.count_cons]
    rw [List.count_cons, List.count_cons, List.count_nil, List.count_nil] at hc
    omega

theorem Balanced.covers {held : List Char} (h : Balanced held) : Covers 0 held := h.closes_le

theorem balanced_of_forall {cs : List Char} (h : ∀ c ∈ cs, c ≠ '(' ∧ c ≠ ')') : Balanced cs := by
  have hcount (front : List Char) (hfront : front <+: cs) :
      front.count ')' = 0 ∧ front.count '(' = 0 :=
    ⟨List.count_eq_zero.2 fun hmem => (h _ (hfront.subset hmem)).2 rfl,
      List.count_eq_zero.2 fun hmem => (h _ (hfront.subset hmem)).1 rfl⟩
  obtain ⟨hclose, hopen⟩ := hcount cs (List.prefix_refl cs)
  exact ⟨fun front hfront => (hcount front hfront).1 ▸ Nat.zero_le _, hclose.trans hopen.symm⟩

theorem Blanks.balanced {cs : List Char} (h : Blanks cs) : Balanced cs :=
  balanced_of_forall fun c hc => ⟨h.ne (by decide) c hc, h.ne (by decide) c hc⟩

theorem Balanced.append {cs ds : List Char} (hcs : Balanced cs) (hds : Balanced ds) :
    Balanced (cs ++ ds) where
  closes_le := by
    rintro front ⟨tail, htail⟩
    rcases List.append_eq_append_iff.1 htail with ⟨mid, rfl, -⟩ | ⟨mid, rfl, rfl⟩
    · exact hcs.closes_le front (List.prefix_append front mid)
    · rw [List.count_append, List.count_append, hcs.closes_eq]
      exact Nat.add_le_add_left (hds.closes_le mid (List.prefix_append mid tail)) _
  closes_eq := by rw [List.count_append, List.count_append, hcs.closes_eq, hds.closes_eq]

theorem Balanced.enclose {held : List Char} (h : Balanced held) :
    Balanced ('(' :: (held ++ [')'])) where
  closes_le := by
    intro front hfront
    rcases List.prefix_cons_iff.1 hfront with rfl | ⟨rest, rfl, hrest⟩
    · exact Nat.le_refl 0
    · rw [List.count_cons_of_ne (by decide), List.count_cons_self]
      rcases List.prefix_concat_iff.1 hrest with rfl | hrest
      · simp [h.closes_eq]
      · exact Nat.le_succ_of_le (h.closes_le rest hrest)
  closes_eq := by simp [h.closes_eq]

/-- Nothing is covered behind the parenthesis that closes too much. -/
theorem not_covers_append {depth : Nat} {args : List Char}
    (h : args.count ')' = args.count '(' + depth) (rest : List Char) :
    ¬ Covers depth (args ++ ')' :: rest) := by
  intro hcovers
  have hle := hcovers (args ++ [')']) ⟨rest, by rw [List.append_assoc]; rfl⟩
  rw [List.count_append, List.count_append, List.count_singleton_self,
    List.count_singleton, if_neg (by decide)] at hle
  omega

/-! ### The arguments of a reference -/

/-- The arguments end at the first parenthesis that closes more than is open, or at the end. -/
theorem takeArguments_closes (depth : Nat) (cs : List Char) :
    (∃ args rest, cs = args ++ ')' :: rest ∧ takeArguments depth cs = (args, rest) ∧
      Covers depth args ∧ args.count ')' = args.count '(' + depth) ∨
    takeArguments depth cs = (cs, []) ∧ Covers depth cs := by
  induction cs generalizing depth with
  | nil => exact .inr ⟨rfl, covers_nil depth⟩
  | cons c cs ih =>
    -- a character that does not close the reference is one of its arguments
    have hstep (d : Nat) (hc : [c].count ')' + d = [c].count '(' + depth)
        (htake : takeArguments depth (c :: cs) =
          (c :: (takeArguments d cs).1, (takeArguments d cs).2)) :
        (∃ args rest, c :: cs = args ++ ')' :: rest ∧ takeArguments depth (c :: cs) = (args, rest) ∧
          Covers depth args ∧ args.count ')' = args.count '(' + depth) ∨
        takeArguments depth (c :: cs) = (c :: cs, []) ∧ Covers depth (c :: cs) := by
      rw [htake]
      rcases ih d with ⟨args, rest, rfl, ht, hcovers, hcount⟩ | ⟨ht, hcovers⟩
      · refine .inl ⟨c :: args, rest, rfl, by rw [ht], covers_cons hc hcovers, ?_⟩
        rw [List.count_cons, List.count_cons]
        rw [List.count_cons, List.count_cons, List.count_nil, List.count_nil] at hc
        omega
      · exact .inr ⟨by rw [ht], covers_cons hc hcovers⟩
    by_cases ho : c = '('
    · exact hstep (depth + 1) (by simp [ho, Nat.add_comm]) (by simp [takeArguments, ho])
    by_cases hc : c = ')'
    · cases depth with
      | zero =>
        refine .inl ⟨[], cs, by rw [hc]; rfl, ?_, covers_nil 0, rfl⟩
        simp [takeArguments, hc]
      | succ depth => exact hstep depth (by simp [hc, Nat.add_comm]) (by simp [takeArguments, hc])
    · exact hstep depth (by simp [ho, hc]) (by simp [takeArguments, ho, hc])

/-- **Balanced arguments are read whole.** -/
theorem Balanced.takeArguments_eq {held : List Char} (h : Balanced held) (rest : List Char) :
    Value.takeArguments 0 (held ++ ')' :: rest) = (held, rest) := by
  rcases takeArguments_closes 0 (held ++ ')' :: rest) with
    ⟨args, tail, heq, ht, hcovers, hcount⟩ | ⟨-, hcovers⟩
  · -- neither of the two texts goes on behind the parenthesis that closes the other
    rw [ht]
    rcases List.append_eq_append_iff.1 heq with ⟨mid, rfl, hmid⟩ | ⟨mid, rfl, hmid⟩
    · cases mid with
      | nil => simp_all
      | cons c mid =>
        obtain ⟨rfl, -⟩ := List.cons.inj hmid
        exact absurd hcovers (not_covers_append h.closes_eq mid)
    · cases mid with
      | nil => simp_all
      | cons c mid =>
        obtain ⟨rfl, -⟩ := List.cons.inj hmid
        exact absurd h.covers (not_covers_append hcount mid)
  · exact absurd hcovers (not_covers_append h.closes_eq rest)

/-- A reference begins with its name in some letter case. -/
theorem reference?_eq_some_iff {cs rest : List Char} :
    reference? cs = some rest ↔ ∃ word, cs = word ++ rest ∧ lowerAscii word = "var(".toList := by
  constructor
  · exact dropAscii?_eq_some
  · rintro ⟨word, rfl, hword⟩
    rw [reference?, ← hword]
    exact dropAscii?_lowerAscii word rest

theorem references_of_none {c : Char} {cs : List Char} (h : reference? (c :: cs) = none) :
    references (c :: cs) = references cs := by
  rw [references]
  split
  · next hsome =>
    rw [h] at hsome
    cases hsome
  · rfl

/-- A reference without a name does not count. -/
theorem references_of_some {cs rest : List Char} (h : reference? cs = some rest) :
    references cs =
      (if (referredName (takeArguments 0 rest).1).isEmpty then []
        else [referredName (takeArguments 0 rest).1]) ++ references (takeArguments 0 rest).2 := by
  cases cs with
  | nil => cases h
  | cons c cs =>
    rw [references]
    split
    · next hsome =>
      obtain rfl := Option.some.inj (h.symm.trans hsome)
      dsimp only
      split <;> rfl
    · next hnone =>
      rw [h] at hnone
      cases hnone

/-- The first reference of a value that begins with one. -/
theorem head?_references {value rest : List Char} (h : reference? value = some rest)
    (hname : referredName (takeArguments 0 rest).1 ≠ []) :
    (references value).head? = some (referredName (takeArguments 0 rest).1) := by
  rw [references_of_some h, if_neg (by simpa [List.isEmpty_iff] using hname)]
  rfl

end Value
end SheetAudit
