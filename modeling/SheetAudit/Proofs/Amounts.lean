import Mathlib.Data.Nat.Digits.Defs
import SheetAudit.Proofs.Proposals

/-!
# What written numbers amount to

The numbers of a value are written with digits of any script, but only those in ASCII digits amount
to something: to the double that is nearest to their digits, the point moved to its place.

## Main definitions

* `digitsValue` — digits as a number.
* `amountOf`, `amount` — the double that a written number amounts to.

## Main results

* `valueOf_eq` — the digits are read one by one.
* `read?_eq_some_iff` — **a written number is read if its digits are in ASCII, as what it amounts
  to.**
-/

namespace SheetAudit
namespace Value

open Text

/-- Digits as a number, the last one counting ones. -/
def digitsValue (digits : List Char) : Nat :=
  Nat.ofDigits 10 (digits.reverse.map fun d => d.toNat - '0'.toNat)

/-- The double nearest to a number as it is written, below zero or not; digits behind the point are
parts of one. -/
def amountOf (negative : Bool) (number : List Char) : Float :=
  Decimal.scaled negative (digitsValue (number.filter Char.isDigit))
    (-((number.dropWhile (· != '.')).tail.length : Int))

/-- What a written number amounts to. -/
def amount (number : List Char) : Float := amountOf (number.head? == some '-') number

section

variable {cs whole part rest number : List Char} {negative : Bool} {c : Char} {x : Float}

/-- The digits are read one by one. -/
theorem valueOf_eq (digits : List Char) : Decimal.valueOf digits = digitsValue digits := by
  unfold Decimal.valueOf digitsValue
  rw [List.map_reverse, Nat.ofDigits_eq_foldr, List.foldr_reverse, List.foldl_map]
  congr 1
  funext n d
  exact Nat.add_comm _ _

/-! ### Readings behind the sign -/

theorem isAscii_of_isDigit (h : c.isDigit = true) : isAscii c = true := by
  have hrange := isDigit_iff.1 h
  unfold isAscii
  rw [decide_eq_true_eq]
  omega

/-- Of the digits that numbers are written with, those in ASCII are read. -/
theorem isDigit_eq_isAscii (h : isDecimalDigit c = true) : c.isDigit = isAscii c := by
  unfold isDecimalDigit at h
  split at h
  · next hascii => rw [h, hascii]
  · next hascii =>
    rw [Bool.not_eq_true] at hascii
    rw [hascii]
    refine Bool.eq_false_iff.2 ?_
    intro hdigit
    exact Bool.false_ne_true (hascii.symm.trans (isAscii_of_isDigit hdigit))

/-- Behind the digits of a number another digit is no exponent. -/
theorem exponent?_of_digit (h : isDecimalDigit c = true) (cs : List Char) :
    Decimal.exponent? (c :: cs) = none := by
  have hne {d : Char} (hd : isDecimalDigit d = false) : (c == d) = false := by
    refine beq_false_of_ne ?_
    rintro rfl
    rw [h] at hd
    cases hd
  rw [Decimal.exponent?, hne (d := 'e') (by decide), hne (d := 'E') (by decide)]
  rfl

/-- No word is read where no character is an `n`. -/
theorem not_word (h : ∀ c ∈ cs, c.toLower ≠ 'n') {word : String} (hword : 'n' ∈ word.toList) :
    (String.ofList (lowerAscii cs) == word) = false := by
  refine beq_false_of_ne ?_
  rintro rfl
  rw [String.toList_ofList] at hword
  obtain ⟨c, hc, hn⟩ := List.mem_map.1 hword
  exact h c hc hn

theorem read?_whole (hsign : Decimal.takeSign cs = (negative, whole ++ rest))
    (hn : ∀ c ∈ whole ++ rest, c.toLower ≠ 'n') (hwhole : ∀ c ∈ whole, c.isDigit = true)
    (hrest : ∀ c ∈ rest.head?, c.isDigit = false ∧ c ≠ '.') :
    Decimal.read? cs = if whole = [] then none
      else (Decimal.exponent? rest).map fun e => Decimal.scaled negative (digitsValue whole) e := by
  have hstop : ∀ c ∈ rest.head?, c.isDigit = false := fun c hc => (hrest c hc).1
  rw [Decimal.read?, hsign]
  dsimp only
  rw [not_word hn (by decide), not_word hn (by decide), not_word hn (by decide),
    takeWhile_append_eq hwhole hstop, dropWhile_append_eq hwhole hstop, ← valueOf_eq,
    Bool.or_self, if_neg Bool.false_ne_true, if_neg Bool.false_ne_true]
  cases rest with
  | nil => simp [List.isEmpty_iff]
  | cons c tail =>
    have hpoint : c ≠ '.' := (hrest c rfl).2
    simp [List.isEmpty_iff, hpoint]

theorem read?_point (hsign : Decimal.takeSign cs = (negative, whole ++ '.' :: (part ++ rest)))
    (hn : ∀ c ∈ whole ++ '.' :: (part ++ rest), c.toLower ≠ 'n')
    (hwhole : ∀ c ∈ whole, c.isDigit = true) (hpart : ∀ c ∈ part, c.isDigit = true)
    (hrest : ∀ c ∈ rest.head?, c.isDigit = false) :
    Decimal.read? cs = if whole = [] ∧ part = [] then none
      else (Decimal.exponent? rest).map fun e =>
        Decimal.scaled negative (digitsValue (whole ++ part)) (e - part.length) := by
  have hstop : ∀ c ∈ ('.' :: (part ++ rest)).head?, c.isDigit = false := by
    intro c hc
    obtain rfl : '.' = c := Option.some.inj hc
    decide
  rw [Decimal.read?, hsign]
  dsimp only
  rw [not_word hn (by decide), not_word hn (by decide), not_word hn (by decide),
    takeWhile_append_eq hwhole hstop, dropWhile_append_eq hwhole hstop, ← valueOf_eq,
    Bool.or_self, if_neg Bool.false_ne_true, if_neg Bool.false_ne_true]
  simp [takeWhile_append_eq hpart hrest, dropWhile_append_eq hpart hrest, List.isEmpty_iff]

/-! ### Readings of numbers -/

/-- All digits are in ASCII, or they are up to one that is not. -/
theorem ascii_or_broken (hdigits : ∀ d ∈ cs, isDecimalDigit d = true) :
    (∀ d ∈ cs, d.isDigit = true) ∨ ∃ front d behind, cs = front ++ d :: behind ∧
      (∀ d ∈ front, d.isDigit = true) ∧ isDecimalDigit d = true ∧ d.isDigit = false := by
  have hsplit := (List.takeWhile_append_dropWhile (p := Char.isDigit) (l := cs)).symm
  have hfront : ∀ d ∈ cs.takeWhile Char.isDigit, d.isDigit = true :=
    fun d hd => List.mem_takeWhile_imp hd
  cases hbehind : cs.dropWhile Char.isDigit with
  | nil =>
    rw [hbehind, List.append_nil] at hsplit
    rw [← hsplit] at hfront
    exact .inl hfront
  | cons d behind =>
    rw [hbehind] at hsplit
    refine .inr ⟨_, d, behind, hsplit, hfront, hdigits d (hsplit ▸ by simp), ?_⟩
    exact head?_dropWhile cs d (by rw [hbehind]; rfl)

theorem IsUnsigned.toLower_ne (h : IsUnsigned number) : ∀ c ∈ number, c.toLower ≠ 'n' := by
  intro c hc
  have hnot : ∀ c ∈ number, c.toLower ∉ ['n'] :=
    (IsNumber.plain h).toLower_head_not_mem (by decide)
  simpa using hnot c hc

/-- Nothing is read where a digit is not in ASCII. -/
theorem read?_broken {front behind : List Char} (hfront : ∀ d ∈ front, d.isDigit = true)
    (hc : isDecimalDigit c = true) (hnot : c.isDigit = false)
    (hsign : Decimal.takeSign cs = (negative, front ++ c :: behind))
    (hn : ∀ d ∈ front ++ c :: behind, d.toLower ≠ 'n') : Decimal.read? cs = none := by
  have hrest : ∀ d ∈ (c :: behind).head?, d.isDigit = false ∧ d ≠ '.' := by
    intro d hd
    obtain rfl : c = d := Option.some.inj hd
    refine ⟨hnot, ?_⟩
    rintro rfl
    exact absurd hc (by decide)
  rw [read?_whole hsign hn hfront hrest, exponent?_of_digit hc, Option.map_none, ite_self]

theorem not_ascii (hc : isDecimalDigit c = true) (hnot : c.isDigit = false) (hmem : c ∈ cs) :
    ¬ ∀ d ∈ cs, isAscii d = true := by
  intro h
  rw [isDigit_eq_isAscii hc, h c hmem] at hnot
  cases hnot

theorem dropWhile_ne_point (h : ∀ d ∈ cs, d.isDigit = true) (rest : List Char) :
    (cs ++ rest).dropWhile (· != '.') = rest.dropWhile (· != '.') := by
  refine List.dropWhile_append_of_pos ?_
  intro d hd
  have hne : d ≠ '.' := by
    rintro rfl
    exact absurd (h _ hd) (by decide)
  simpa using hne

theorem amountOf_whole (h : ∀ d ∈ whole, d.isDigit = true) :
    amountOf negative whole = Decimal.scaled negative (digitsValue whole) 0 := by
  have hdrop := dropWhile_ne_point h []
  rw [List.append_nil] at hdrop
  rw [amountOf, List.filter_eq_self.2 h, hdrop]
  rfl

theorem amountOf_point (h : ∀ d ∈ whole, d.isDigit = true) (h' : ∀ d ∈ part, d.isDigit = true) :
    amountOf negative (whole ++ '.' :: part) =
      Decimal.scaled negative (digitsValue (whole ++ part)) (0 - part.length) := by
  rw [amountOf, dropWhile_ne_point h, List.filter_append, List.filter_cons_of_neg (by decide),
    List.filter_eq_self.2 h, List.filter_eq_self.2 h', Int.zero_sub]
  rfl

/-- A number is read behind its sign if its digits are in ASCII. -/
theorem read?_unsigned (hsign : Decimal.takeSign cs = (negative, number)) (h : IsUnsigned number) :
    Decimal.read? cs =
      if ∀ d ∈ number, isAscii d = true then some (amountOf negative number) else none := by
  have hn := h.toLower_ne
  cases h with
  | whole ne_nil digit =>
    rcases ascii_or_broken digit with hascii | ⟨front, d, behind, rfl, hfront, hd, hnot⟩
    · rw [← List.append_nil number] at hsign hn
      rw [read?_whole hsign hn hascii nofun, if_neg ne_nil, amountOf_whole hascii,
        if_pos fun d hd => isAscii_of_isDigit (hascii d hd)]
      rfl
    · rw [read?_broken hfront hd hnot hsign hn, if_neg (not_ascii hd hnot (by simp))]
  | @point digits part ne_nil digit digit' =>
    rcases ascii_or_broken digit with hascii | ⟨front, d, behind, rfl, hfront, hd, hnot⟩
    · rcases ascii_or_broken digit' with hascii' | ⟨front, d, behind, rfl, hfront, hd, hnot⟩
      · have hall : ∀ d ∈ digits ++ '.' :: part, isAscii d = true := by
          intro d hd
          rcases List.mem_append.1 hd with hd | hd
          · exact isAscii_of_isDigit (hascii d hd)
          · rcases List.mem_cons.1 hd with rfl | hd
            · decide
            · exact isAscii_of_isDigit (hascii' d hd)
        rw [← not_and_or] at ne_nil
        rw [if_pos hall, amountOf_point hascii hascii']
        rw [← List.append_nil part] at hsign hn
        rw [read?_point hsign hn hascii hascii' nofun, if_neg ne_nil]
        rfl
      · -- what is read ends at the digit behind the point that is not in ASCII
        have hrest : ∀ c ∈ (d :: behind).head?, c.isDigit = false := by
          intro c hc
          rwa [← Option.some.inj hc]
        rw [read?_point hsign hn hascii hfront hrest, exponent?_of_digit hd, Option.map_none,
          ite_self, if_neg (not_ascii hd hnot (by simp))]
    · rw [List.append_assoc, List.cons_append] at hsign hn ⊢
      rw [read?_broken hfront hd hnot hsign hn, if_neg (not_ascii hd hnot (by simp))]

/-- **A written number is read if its digits are in ASCII, as what it amounts to.** -/
theorem read?_eq_some_iff (h : IsNumber number) : Decimal.read? number = some x ↔
    (∀ c ∈ number, isAscii c = true) ∧ amount number = x := by
  have hread : Decimal.read? number =
      if ∀ c ∈ number, isAscii c = true then some (amount number) else none := by
    cases h with
    | plain h =>
      have hsign : Decimal.takeSign number = (false, number) := by
        rw [Decimal.takeSign.eq_def]
        split
        · exact absurd rfl h.head?_ne.2
        · have hplus := (IsNumber.plain h).char '+' List.mem_cons_self
          exact absurd hplus (by decide)
        · rfl
      have hminus : (number.head? == some '-') = false := beq_false_of_ne h.head?_ne.2
      rw [read?_unsigned hsign h, amount, hminus]
    | @minus unsigned h =>
      have hsign : Decimal.takeSign ('-' :: unsigned) = (true, unsigned) := rfl
      have hall : (∀ c ∈ '-' :: unsigned, isAscii c = true) ↔ ∀ c ∈ unsigned, isAscii c = true := by
        rw [List.forall_mem_cons]
        exact and_iff_right (by decide)
      rw [read?_unsigned hsign h, if_congr hall rfl rfl]
      rfl
  rw [hread, Option.ite_none_right_eq_some, Option.some_inj]

end

end Value
end SheetAudit
