import Mathlib.Algebra.Ring.Parity
import Mathlib.Data.List.DropRight

/-!
# Backslashes in Markdown

In Markdown a backslash takes the meaning from the punctuation behind it.  A backslash is
punctuation itself: two of them are read as one, and what follows them keeps its meaning.  So
whether a character is read for itself depends on how many backslashes stand right before it.

## Main definitions

* `Sign`, `signs` — a text as it is read, where a backslash goes with the punctuation behind it.
* `slashes` — how many backslashes a text ends in.
* `Settled` — a text at whose end no backslash waits for what follows.
* `Guarded`, `Unguarded` — every special character stands behind an odd or an even number of them.

## Main results

* `settled_or_pending` — a backslash waits at the end of a text if they are odd in number there.
* `mem_signs_iff` — **a special character is literal behind an odd number of backslashes, and has
  its meaning behind an even number.**
-/

namespace SheetAudit
namespace Markdown

/-! ### The backslash rule -/

/-- The characters that begin and end emphasis, or end a table cell. -/
def special : List Char := ['|', '*', '_']

/-- ASCII punctuation, which a backslash before it makes literal. -/
def isPunctuation (c : Char) : Bool :=
  ('!' ≤ c && c ≤ '/') || (':' ≤ c && c ≤ '@') || ('[' ≤ c && c ≤ '\x60') || ('{' ≤ c && c ≤ '~')

/-- A character as it is read: with whatever meaning it has, or for itself. -/
inductive Sign where
  | plain (c : Char)
  /-- Stands behind a backslash, which is read with it. -/
  | literal (c : Char)
  deriving Repr, DecidableEq

def Sign.char : Sign → Char
  | plain c => c
  | literal c => c

/-- A text as it is read, from left to right. -/
def signs : List Char → List Sign
  | [] => []
  | [c] => [.plain c]
  | c :: d :: cs =>
    if c = '\\' ∧ isPunctuation d = true then .literal d :: signs cs
    else .plain c :: signs (d :: cs)

/-- How many backslashes a text ends in. -/
def slashes (front : List Char) : Nat := (front.rtakeWhile (· == '\\')).length

/-- Every special character of a text stands behind an odd number of backslashes, those counted
with it that stand `before` the text. -/
def Guarded (before text : List Char) : Prop :=
  ∀ front c back, text = front ++ c :: back → c ∈ special → Odd (slashes (before ++ front))

/-- Every special character of a text stands behind an even number of backslashes, or none. -/
def Unguarded (text : List Char) : Prop :=
  ∀ front c back, text = front ++ c :: back → c ∈ special → Even (slashes front)

theorem isPunctuation_of_mem {c : Char} (h : c ∈ special) : isPunctuation c = true := by
  obtain rfl | rfl | rfl : c = '|' ∨ c = '*' ∨ c = '_' := by simpa [special] using h
  all_goals rfl

theorem ne_backslash_of_mem {c : Char} (h : c ∈ special) : c ≠ '\\' := by
  rintro rfl
  exact absurd h (by decide)

theorem signs_literal {c : Char} (h : isPunctuation c = true) (cs : List Char) :
    signs ('\\' :: c :: cs) = .literal c :: signs cs := by
  rw [signs, if_pos ⟨rfl, h⟩]

theorem signs_plain {c : Char} (h : c ≠ '\\') (cs : List Char) :
    signs (c :: cs) = .plain c :: signs cs := by
  cases cs with
  | nil => rfl
  | cons d cs => rw [signs, if_neg fun hc => h hc.1]

theorem signs_backslash {c : Char} (h : isPunctuation c = false) (cs : List Char) :
    signs ('\\' :: c :: cs) = .plain '\\' :: signs (c :: cs) := by
  rw [signs, if_neg fun hc => Bool.false_ne_true (h.symm.trans hc.2)]

/-! ### Counting backslashes -/

theorem slashes_concat (front : List Char) (c : Char) :
    slashes (front ++ [c]) = if c = '\\' then slashes front + 1 else 0 := by
  rw [slashes, List.rtakeWhile_concat]
  split_ifs <;> simp_all [slashes]

/-- Backslashes are counted from the last character that is none. -/
theorem slashes_append {before : List Char} (h : slashes before = 0) (front : List Char) :
    slashes (before ++ front) = slashes front := by
  induction front using List.reverseRecOn with
  | nil => rw [List.append_nil, h]; rfl
  | append_singleton front c ih => rw [← List.append_assoc, slashes_concat, slashes_concat, ih]

/-- What follows a text is read as if it stood alone. -/
def Settled (front : List Char) : Prop := ∀ cs, signs (front ++ cs) = signs front ++ signs cs

theorem settled_nil : Settled [] := fun _ => rfl

theorem settled_singleton {c : Char} (h : c ≠ '\\') : Settled [c] := signs_plain h

/-- A backslash is read with the next character, or both are read alone. -/
theorem settled_pair (c : Char) : Settled ['\\', c] := by
  intro cs
  cases hc : isPunctuation c with
  | true =>
    rw [List.cons_append, List.singleton_append, signs_literal hc, signs_literal hc]
    rfl
  | false =>
    have hne : c ≠ '\\' := by
      rintro rfl
      exact absurd hc (by decide)
    rw [List.cons_append, List.singleton_append, signs_backslash hc, signs_backslash hc,
      signs_plain hne, signs_plain hne]
    rfl

theorem Settled.append {front mid : List Char} (hfront : Settled front) (hmid : Settled mid) :
    Settled (front ++ mid) := by
  intro cs
  rw [List.append_assoc, hfront, hmid, hfront, List.append_assoc]

/-- Behind an even number of backslashes a text is read anew; of an odd number the last one is
still to be read. -/
theorem settled_or_pending (front : List Char) :
    (Even (slashes front) ∧ Settled front) ∨
      (Odd (slashes front) ∧ ∃ init, front = init ++ ['\\'] ∧ Settled init) := by
  induction front using List.reverseRecOn with
  | nil => exact .inl ⟨Even.zero, settled_nil⟩
  | append_singleton front c ih =>
    rw [slashes_concat]
    by_cases hc : c = '\\'
    · subst hc
      rw [if_pos rfl]
      rcases ih with ⟨heven, hsettled⟩ | ⟨hodd, init, rfl, hsettled⟩
      · exact .inr ⟨heven.add_one, front, rfl, hsettled⟩
      · refine .inl ⟨hodd.add_one, ?_⟩
        rw [List.append_assoc]
        exact hsettled.append (settled_pair '\\')
    · rw [if_neg hc]
      refine .inl ⟨Even.zero, ?_⟩
      rcases ih with ⟨-, hsettled⟩ | ⟨-, init, rfl, hsettled⟩
      · exact hsettled.append (settled_singleton hc)
      · rw [List.append_assoc]
        exact hsettled.append (settled_pair c)

theorem settled_of_even {front : List Char} (h : Even (slashes front)) : Settled front := by
  rcases settled_or_pending front with ⟨-, hsettled⟩ | ⟨hodd, -⟩
  · exact hsettled
  · exact absurd h (Nat.not_even_iff_odd.2 hodd)

/-- No backslash is read with a character that is no punctuation. -/
theorem signs_append_cons {c : Char} (h : isPunctuation c = false) (front cs : List Char) :
    signs (front ++ c :: cs) = signs front ++ signs (c :: cs) := by
  rcases settled_or_pending front with ⟨-, hsettled⟩ | ⟨-, init, rfl, hsettled⟩
  · exact hsettled _
  · rw [List.append_assoc, List.singleton_append, hsettled, signs_backslash h, hsettled,
      List.append_assoc]
    rfl

/-! ### Special characters -/

/-- How punctuation is read behind a text. -/
def reading (front : List Char) (c : Char) : Sign :=
  if Odd (slashes front) then .literal c else .plain c

theorem reading_ne_plain_iff {front : List Char} {c : Char} :
    reading front c ≠ .plain c ↔ Odd (slashes front) := by
  unfold reading
  split_ifs with h <;> simp [h]

theorem reading_ne_literal_iff {front : List Char} {c : Char} :
    reading front c ≠ .literal c ↔ Even (slashes front) := by
  unfold reading
  split_ifs with h
  · simp [Nat.not_even_iff_odd.2 h]
  · simp [Nat.not_odd_iff_even.1 h]

/-- One more character adds no other special character than itself. -/
theorem mem_signs_concat_iff {s : Sign} (hs : s.char ∈ special) (text : List Char) (c : Char) :
    s ∈ signs (text ++ [c]) ↔ s ∈ signs text ∨ (s.char = c ∧ s = reading text c) := by
  rcases settled_or_pending text with ⟨heven, hsettled⟩ | ⟨hodd, init, rfl, hsettled⟩
  · rw [hsettled, List.mem_append, reading, if_neg (Nat.not_odd_iff_even.2 heven), signs,
      List.mem_singleton]
    refine or_congr_right ⟨?_, And.right⟩
    rintro rfl
    exact ⟨rfl, rfl⟩
  · -- the last backslash is read once more, now with `c` behind it
    have hslash : s ≠ .plain '\\' := by
      rintro rfl
      exact ne_backslash_of_mem hs rfl
    have hinit : s ∈ signs (init ++ ['\\']) ↔ s ∈ signs init := by
      rw [hsettled, List.mem_append, signs, List.mem_singleton]
      exact or_iff_left hslash
    rw [List.append_assoc, hsettled, List.mem_append, hinit, reading, if_pos hodd,
      List.singleton_append]
    refine or_congr_right ?_
    cases hc : isPunctuation c with
    | true =>
      rw [signs_literal hc, signs, List.mem_singleton]
      refine ⟨?_, And.right⟩
      rintro rfl
      exact ⟨rfl, rfl⟩
    | false =>
      -- a special character is punctuation, so neither side holds
      have hne : s.char ≠ c := by
        rintro rfl
        exact Bool.false_ne_true (hc.symm.trans (isPunctuation_of_mem hs))
      rw [signs_backslash hc, signs, List.mem_cons, List.mem_singleton]
      refine iff_of_false ?_ fun h => hne h.1
      rintro (h | rfl)
      · exact hslash h
      · exact hne rfl

/-- **A special character is literal behind an odd number of backslashes, and has its meaning behind
an even number.** -/
theorem mem_signs_iff {s : Sign} (hs : s.char ∈ special) {text : List Char} :
    s ∈ signs text ↔
      ∃ front back, text = front ++ s.char :: back ∧ s = reading front s.char := by
  induction text using List.reverseRecOn with
  | nil => simp [signs]
  | append_singleton text c ih =>
    rw [mem_signs_concat_iff hs, ih]
    constructor
    · rintro (⟨front, back, rfl, hread⟩ | ⟨rfl, hread⟩)
      · exact ⟨front, back ++ [c], by simp, hread⟩
      · exact ⟨text, [], rfl, hread⟩
    · rintro ⟨front, back, htext, hread⟩
      rcases List.eq_nil_or_concat back with rfl | ⟨back, d, rfl⟩
      · obtain ⟨rfl, hc⟩ := List.append_inj' htext rfl
        obtain rfl := List.singleton_inj.1 hc
        exact .inr ⟨rfl, hread⟩
      · rw [List.concat_eq_append, ← List.cons_append, ← List.append_assoc] at htext
        exact .inl ⟨front, back, (List.append_inj' htext rfl).1, hread⟩

/-- No special character has a sign of some kind exactly if none is read so behind what is before
it. -/
theorem forall_not_mem_signs_iff (sign : Char → Sign) (hsign : ∀ c, (sign c).char = c)
    {text : List Char} :
    (∀ c ∈ special, sign c ∉ signs text) ↔
      ∀ front c back, text = front ++ c :: back → c ∈ special → reading front c ≠ sign c := by
  have hmem {c : Char} (hc : c ∈ special) : sign c ∈ signs text ↔
      ∃ front back, text = front ++ c :: back ∧ sign c = reading front c := by
    have hiff : sign c ∈ signs text ↔ _ := mem_signs_iff (by rwa [hsign])
    rwa [hsign] at hiff
  constructor
  · intro hnone front c back htext hc hread
    exact hnone c hc ((hmem hc).2 ⟨front, back, htext, hread.symm⟩)
  · intro hread c hc hsigns
    obtain ⟨front, back, htext, heq⟩ := (hmem hc).1 hsigns
    exact hread front c back htext hc heq.symm

/-- In a guarded text no special character is read with its meaning. -/
theorem guarded_iff {before text : List Char} (h : slashes before = 0) :
    Guarded before text ↔ ∀ c ∈ special, .plain c ∉ signs text := by
  rw [forall_not_mem_signs_iff .plain fun _ => rfl]
  simp only [Guarded, slashes_append h, reading_ne_plain_iff]

/-- In an unguarded text no special character is literal. -/
theorem unguarded_iff {text : List Char} :
    Unguarded text ↔ ∀ c ∈ special, .literal c ∉ signs text := by
  rw [forall_not_mem_signs_iff .literal fun _ => rfl]
  simp only [Unguarded, reading_ne_literal_iff]

instance (text : List Char) : Decidable (Unguarded text) :=
  decidable_of_iff ((special.all fun c => .literal c ∉ signs text) = true) <| by
    simp only [unguarded_iff, List.all_eq_true, decide_eq_true_eq]

end Markdown
end SheetAudit
