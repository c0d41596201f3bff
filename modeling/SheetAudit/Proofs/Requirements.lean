import SheetAudit.Proofs.ColorWords
import SheetAudit.Proofs.Quantities
import SheetAudit.Rules.Documentation

/-!
# References to requirements and their proper form

A reference is found by what stands at its place: the character before it is no part of a word, and
its digits go on as long as there are any.  So another reference with the same two ends can stand in
its place, and the references around it stay.

The proper form keeps the ASCII digits of a reference only.  It denotes the same number exactly if
the other digits are zeros at the beginning.

## Main definitions

* `digitValue`, `number` — the value of a decimal digit of any script, and of all of a reference.
* `significant` — the digits of a reference from the first one that is not zero.
* `wordAfter` — whether a text ends with a part of a word.
* `Takes` — what is known of a reference that begins a text, and of the text behind it.
* `StandsIn` — a reference stands at a place of a text, with other references behind it.

## Main results

* `references_replace` — the proper form of a reference is found in its place, and all others stay.
* `number_proper_iff` — when a reference and its proper form denote the same number.
* `suggestion_settles` — **a suggestion is proper and settles its finding; it keeps the number
  exactly if the significant digits are ASCII digits.**
-/

namespace SheetAudit
namespace Requirement

open Text
open Offsets (toLower_cases)
open Value (takeWhile_append_of_head dropWhile_append_of_head takeWhile_append_eq
  dropWhile_append_eq head?_dropWhile isWordChar_of_folds exists_folded_of_dropFolded?)

/-! ### Digits -/

theorem isDecimalDigit_of_isDigit {c : Char} (h : c.isDigit = true) : isDecimalDigit c = true := by
  have hascii : isAscii c = true := by
    rw [isDigit_iff] at h
    rw [isAscii, decide_eq_true_eq]
    omega
  rw [isDecimalDigit, if_pos hascii, h]

theorem isWordChar_of_isDecimalDigit {c : Char} (h : isDecimalDigit c = true) :
    isWordChar c = true := by
  have htable : ∀ r ∈ Table.decimalDigits, ∃ r' ∈ Table.wordExtra, r'.1 ≤ r.1 ∧ r.2 ≤ r'.2 := by
    decide +kernel
  rw [isDecimalDigit] at h
  rw [isWordChar]
  split at h
  · rw [if_pos ‹_›]
    simp [Char.isAlphanum, h]
  · rw [if_neg ‹_›]
    obtain ⟨r, hr, hc⟩ := List.any_eq_true.1 h
    obtain ⟨r', hr', hle⟩ := htable r hr
    rw [Bool.or_eq_true]
    refine .inr (List.any_eq_true.2 ⟨r', hr', ?_⟩)
    rw [Bool.and_eq_true, decide_eq_true_eq, decide_eq_true_eq] at hc ⊢
    exact ⟨hle.1.trans hc.1, hc.2.trans hle.2⟩

/-! ### Letters -/

/-- Only the two letters themselves are matched as an `r`. -/
theorem eq_of_folds_r {c : Char} (h : folds 'r' c = true) : c = 'r' ∨ c = 'R' := by
  have h : c.toLower = 'r' := by simpa [folds] using h
  rcases toLower_cases c with hsame | ⟨hcapital, hlower⟩
  · exact .inl (hsame ▸ h)
  · refine .inr (Char.toNat_inj.1 ?_)
    rw [h] at hlower
    have hr : 'r'.toNat = 114 := rfl
    have hR : 'R'.toNat = 82 := rfl
    omega

/-! ### Words -/

/-- The last character of the text is part of a word; without one `inWord` decides. -/
def wordAfter (inWord : Bool) (cs : List Char) : Bool := cs.foldl (fun _ c => isWordChar c) inWord

@[simp] theorem wordAfter_nil (inWord : Bool) : wordAfter inWord [] = inWord := rfl

@[simp] theorem wordAfter_cons (inWord : Bool) (c : Char) (cs : List Char) :
    wordAfter inWord (c :: cs) = wordAfter (isWordChar c) cs := rfl

theorem wordAfter_of_getLast? {inWord : Bool} {d : Char} {cs : List Char}
    (h : d ∈ cs.getLast?) : wordAfter inWord cs = isWordChar d := by
  obtain ⟨init, rfl⟩ := List.getLast?_eq_some_iff.1 h
  rw [wordAfter, List.foldl_append]
  rfl

/-- A word is found in a text without regard to what follows behind the end of a word. -/
theorem dropFolded?_append {word : List Char} (hword : ∀ w ∈ word, w.isAlphanum = true)
    {cs : List Char} (hcs : wordAfter true cs = false) (rest : List Char) :
    dropFolded? word (cs ++ rest) = (dropFolded? word cs).map (· ++ rest) := by
  induction word generalizing cs with
  | nil => rfl
  | cons w word ih =>
    obtain ⟨hw, hword⟩ := List.forall_mem_cons.1 hword
    cases cs with
    | nil => cases hcs
    | cons c cs =>
      rw [List.cons_append, dropFolded?, dropFolded?]
      by_cases hfolds : folds w c = true
      · rw [wordAfter_cons, isWordChar_of_folds hw hfolds] at hcs
        rw [if_pos hfolds, if_pos hfolds]
        exact ih hword hcs
      · rw [if_neg hfolds, if_neg hfolds]
        rfl

/-- What a word matches is as long as the word. -/
theorem exists_take_of_dropFolded? {word : String} {cs rest : List Char}
    (h : dropFolded? word.toList cs = some rest) :
    ∃ found, cs = found ++ rest ∧ word.length = found.length ∧
      List.Forall₂ (fun w c => folds w c = true) word.toList found := by
  obtain ⟨found, hcs, hfound⟩ := exists_folded_of_dropFolded? h
  exact ⟨found, hcs, word.length_toList ▸ hfound.length_eq, hfound⟩

/-! ### Taking a reference -/

/-- A reference at the start of a text begins with its letter, ends with a digit, and is followed by
no further one. -/
structure Takes (cs reference after : List Char) : Prop where
  split : cs = reference ++ after
  first : ∃ c ∈ reference.head?, c = 'r' ∨ c = 'R'
  last : ∃ d ∈ reference.getLast?, isDecimalDigit d = true
  stops : ∀ c ∈ after.head?, isDecimalDigit c = false

theorem takeNumber?_eq_some {cs number : List Char} (h : takeNumber? cs = some number) :
    ∃ after, cs = number ++ after ∧ (∃ d ∈ number.getLast?, isDecimalDigit d = true) ∧
      ∀ c ∈ after.head?, isDecimalDigit c = false := by
  rw [takeNumber?] at h
  split at h
  · cases h
  · next hne =>
    obtain rfl := Option.some.inj h
    refine ⟨(cs.dropWhile isSeparator).dropWhile isDecimalDigit, ?_, ?_, head?_dropWhile _⟩
    · rw [List.append_assoc, List.takeWhile_append_dropWhile, List.takeWhile_append_dropWhile]
    · have hne : (cs.dropWhile isSeparator).takeWhile isDecimalDigit ≠ [] := by simpa using hne
      refine ⟨_, List.getLast?_append_of_ne_nil _ hne ▸ List.getLast?_eq_some_getLast hne, ?_⟩
      exact List.mem_takeWhile_imp (List.getLast_mem hne)

theorem wordForms_eq : ∀ word ∈ wordForms,
    (∀ w ∈ word.toList, w.isAlphanum = true) ∧ ∃ tail, word.toList = 'r' :: tail := by
  simp [wordForms]

theorem takes_of_take? {cs reference : List Char} (h : take? cs = some reference) :
    ∃ after, Takes cs reference after := by
  obtain ⟨word, hword, h⟩ := List.exists_of_findSome?_eq_some h
  obtain ⟨rest, hrest, h⟩ := Option.bind_eq_some_iff.1 h
  obtain ⟨number, hnumber, rfl⟩ := Option.map_eq_some_iff.1 h
  obtain ⟨found, rfl, hlength, hfound⟩ := exists_take_of_dropFolded? hrest
  obtain ⟨after, rfl, ⟨d, hd, hdigit⟩, hstops⟩ := takeNumber?_eq_some hnumber
  obtain ⟨tail, htail⟩ := (wordForms_eq word hword).2
  rw [hlength, List.take_left]
  rw [htail] at hfound
  obtain ⟨c, found, hc, -, rfl⟩ := List.forall₂_cons_left_iff.1 hfound
  have hne : number ≠ [] := by rintro rfl; cases hd
  exact ⟨after, by simp, ⟨c, rfl, eq_of_folds_r hc⟩,
    ⟨d, by rwa [List.getLast?_append_of_ne_nil _ hne], hdigit⟩, hstops⟩

/-- A text that goes on with neither a separator nor a digit holds the same references. -/
def Detached (rest : List Char) : Prop :=
  ∀ c ∈ rest.head?, isSeparator c = false ∧ isDecimalDigit c = false

theorem takeNumber?_append (cs : List Char) {rest : List Char} (hrest : Detached rest) :
    takeNumber? (cs ++ rest) = takeNumber? cs := by
  have hseparator : ∀ c ∈ rest.head?, isSeparator c = false := fun c hc => (hrest c hc).1
  have hdigit : ∀ c ∈ rest.head?, isDecimalDigit c = false := fun c hc => (hrest c hc).2
  rw [takeNumber?, takeNumber?, dropWhile_append_of_head hseparator,
    takeWhile_append_of_head hdigit, takeWhile_append_of_head hseparator]

/-- What follows behind the end of a word does not matter to a reference before it. -/
theorem take?_append {cs rest : List Char} (hcs : wordAfter true cs = false)
    (hrest : Detached rest) : take? (cs ++ rest) = take? cs := by
  rw [take?, take?, ← List.head?_filterMap, ← List.head?_filterMap]
  refine congrArg List.head? (List.filterMap_congr fun word hword => ?_)
  rw [dropFolded?_append (wordForms_eq word hword).1 hcs]
  cases hleft : dropFolded? word.toList cs with
  | none => rfl
  | some left =>
    obtain ⟨found, rfl, hlength, -⟩ := exists_take_of_dropFolded? hleft
    rw [Option.map_some, Option.bind_some, Option.bind_some, takeNumber?_append left hrest,
      List.append_assoc, hlength, List.take_left, List.take_left]

/-! ### Places of references -/

section

variable {inWord : Bool} {skip : Nat} {c : Char} {cs reference : List Char}

theorem referencesFrom_succ :
    referencesFrom inWord (skip + 1) (c :: cs) = referencesFrom (isWordChar c) skip cs := rfl

theorem referencesFrom_word :
    referencesFrom true 0 (c :: cs) = referencesFrom (isWordChar c) 0 cs := rfl

theorem referencesFrom_none (h : take? (c :: cs) = none) :
    referencesFrom false 0 (c :: cs) = referencesFrom (isWordChar c) 0 cs := by
  rw [referencesFrom.eq_def]
  simp only [Bool.false_eq_true, if_false, h]

theorem referencesFrom_some (h : take? (c :: cs) = some reference) :
    referencesFrom false 0 (c :: cs) =
      reference :: referencesFrom (isWordChar c) (reference.length - 1) cs := by
  rw [referencesFrom.eq_def]
  simp only [Bool.false_eq_true, if_false, h]

end

theorem referencesFrom_skip {inWord : Bool} {skip : Nat} {xs : List Char} (h : xs.length = skip)
    (cs : List Char) :
    referencesFrom inWord skip (xs ++ cs) = referencesFrom (wordAfter inWord xs) 0 cs := by
  induction xs generalizing inWord skip with
  | nil =>
    subst h
    rfl
  | cons x xs ih =>
    subst h
    rw [List.length_cons, List.cons_append, referencesFrom_succ, ih rfl, wordAfter_cons]

/-- Behind a reference the search goes on as behind a part of a word. -/
theorem Takes.referencesFrom_eq {cs reference after : List Char} (h : Takes cs reference after)
    (htake : take? cs = some reference) :
    referencesFrom false 0 cs = reference :: referencesFrom true 0 after := by
  obtain ⟨c, hc, -⟩ := h.first
  obtain ⟨tail, rfl⟩ := List.head?_eq_some_iff.1 hc
  obtain ⟨d, hd, hdigit⟩ := h.last
  have hword : wordAfter (isWordChar c) tail = true := by
    rw [← wordAfter_cons false, wordAfter_of_getLast? hd]
    exact isWordChar_of_isDecimalDigit hdigit
  have hcs := h.split
  subst hcs
  rw [List.cons_append] at htake ⊢
  rw [referencesFrom_some htake, List.length_cons, Nat.add_sub_cancel, referencesFrom_skip rfl,
    hword]

/-- Behind the end of a word the search for references begins anew. -/
theorem referencesFrom_append {inWord : Bool} {skip : Nat} {before rest : List Char}
    (hbefore : wordAfter inWord before = false) (hskip : skip ≤ before.length)
    (hrest : Detached rest) : referencesFrom inWord skip (before ++ rest) =
      referencesFrom inWord skip before ++ referencesFrom false 0 rest := by
  induction before generalizing inWord skip with
  | nil =>
    obtain rfl : skip = 0 := Nat.le_zero.1 hskip
    obtain rfl : inWord = false := hbefore
    rfl
  | cons c before ih =>
    rw [wordAfter_cons] at hbefore
    rw [List.cons_append]
    cases skip with
    | succ skip =>
      rw [referencesFrom_succ, referencesFrom_succ, ih hbefore (Nat.le_of_succ_le_succ hskip)]
    | zero =>
      cases inWord with
      | true => rw [referencesFrom_word, referencesFrom_word, ih hbefore (Nat.zero_le _)]
      | false =>
        have hword : wordAfter true (c :: before) = false := hbefore
        have htake : take? (c :: (before ++ rest)) = take? (c :: before) :=
          take?_append hword hrest
        cases hreference : take? (c :: before) with
        | none =>
          rw [referencesFrom_none hreference, referencesFrom_none (htake.trans hreference),
            ih hbefore (Nat.zero_le _)]
        | some reference =>
          obtain ⟨after, htakes⟩ := takes_of_take? hreference
          have hlength : reference.length - 1 ≤ before.length := by
            have hlength := congrArg List.length htakes.split
            rw [List.length_cons, List.length_append] at hlength
            omega
          rw [referencesFrom_some hreference, referencesFrom_some (htake.trans hreference),
            ih hbefore hlength, List.cons_append]

/-- The reference stands in the text behind the end of a word, at least `skip` characters on; `rs`
are the references behind it. -/
def StandsIn (inWord : Bool) (skip : Nat) (text reference : List Char) (rs : List (List Char)) :
    Prop :=
  ∃ before cs after, text = before ++ cs ∧ wordAfter inWord before = false ∧
    skip ≤ before.length ∧ take? cs = some reference ∧ Takes cs reference after ∧
    rs = referencesFrom true 0 after

theorem StandsIn.cons {inWord : Bool} {skip skip' : Nat} {c : Char} {text reference : List Char}
    {rs : List (List Char)} (h : StandsIn (isWordChar c) skip' text reference rs)
    (hskip : skip ≤ skip' + 1) : StandsIn inWord skip (c :: text) reference rs := by
  obtain ⟨before, cs, after, rfl, hbefore, hle, hcs⟩ := h
  exact ⟨c :: before, cs, after, rfl, hbefore, by rw [List.length_cons]; omega, hcs⟩

/-- Every reference that is found stands in the text. -/
theorem standsIn_of_referencesFrom {inWord : Bool} {skip : Nat} {text reference : List Char}
    {rs rs' : List (List Char)} (h : referencesFrom inWord skip text = rs ++ reference :: rs') :
    StandsIn inWord skip text reference rs' := by
  induction text generalizing inWord skip rs with
  | nil => exact absurd h.symm (by simp [referencesFrom])
  | cons c text ih =>
    cases skip with
    | succ skip =>
      rw [referencesFrom_succ] at h
      exact (ih h).cons le_rfl
    | zero =>
      cases inWord with
      | true =>
        rw [referencesFrom_word] at h
        exact (ih h).cons (Nat.zero_le _)
      | false =>
        cases htake : take? (c :: text) with
        | none =>
          rw [referencesFrom_none htake] at h
          exact (ih h).cons (Nat.zero_le _)
        | some first =>
          cases rs with
          | cons q rs =>
            rw [referencesFrom_some htake] at h
            exact (ih (List.cons.inj h).2).cons (Nat.zero_le _)
          | nil =>
            -- this is the place itself
            obtain ⟨after, htakes⟩ := takes_of_take? htake
            rw [htakes.referencesFrom_eq htake] at h
            obtain ⟨rfl, rfl⟩ := List.cons.inj h
            exact ⟨[], c :: text, after, rfl, rfl, le_rfl, htake, htakes, rfl⟩

/-! ### Numbers -/

/-- The value of a decimal digit.  The digits of a script follow one another, and each range of the
table begins with a zero. -/
def digitValue (c : Char) : Nat :=
  if isAscii c then c.toNat - 0x30
  else
    match Table.decimalDigits.find? fun r => r.1 ≤ c.toNat && c.toNat ≤ r.2 with
    | some r => (c.toNat - r.1) % 10
    | none => 0

/-- The number that digits lead to from `n` on. -/
def valueFrom (n : Nat) (digits : List Char) : Nat :=
  digits.foldl (fun n d => 10 * n + digitValue d) n

/-- The number that a reference denotes. -/
def number (reference : List Char) : Nat := valueFrom 0 (reference.filter isDecimalDigit)

/-- The digits of a reference without the zeros it begins with. -/
def significant (reference : List Char) : List Char :=
  (reference.filter isDecimalDigit).dropWhile fun d => digitValue d == 0

@[simp] theorem valueFrom_nil (n : Nat) : valueFrom n [] = n := rfl

@[simp] theorem valueFrom_cons (n : Nat) (d : Char) (digits : List Char) :
    valueFrom n (d :: digits) = valueFrom (10 * n + digitValue d) digits := rfl

theorem valueFrom_zero {d : Char} (h : digitValue d = 0) (digits : List Char) :
    valueFrom 0 (d :: digits) = valueFrom 0 digits := by
  rw [valueFrom_cons, h]

/-- Zeros at the beginning do not count, whether they are kept or not. -/
theorem valueFrom_filter_dropWhile {zero : Char → Bool}
    (hzero : ∀ d, zero d = true → digitValue d = 0) (keep : Char → Bool) (digits : List Char) :
    valueFrom 0 ((digits.dropWhile zero).filter keep) = valueFrom 0 (digits.filter keep) := by
  induction digits with
  | nil => rfl
  | cons d digits ih =>
    cases hd : zero d with
    | false => rw [List.dropWhile_cons_of_neg (by simp [hd])]
    | true =>
      rw [List.dropWhile_cons_of_pos hd, ih, List.filter_cons]
      split
      · rw [valueFrom_zero (hzero d hd)]
      · rfl

theorem valueFrom_dropWhile {zero : Char → Bool} (hzero : ∀ d, zero d = true → digitValue d = 0)
    (digits : List Char) : valueFrom 0 (digits.dropWhile zero) = valueFrom 0 digits := by
  have hall (ds : List Char) : ds.filter (fun _ => true) = ds := List.filter_true ds
  rw [← hall (digits.dropWhile zero), valueFrom_filter_dropWhile hzero, hall]

theorem valueFrom_replicate (n : Nat) (digits : List Char) :
    valueFrom 0 (List.replicate n '0' ++ digits) = valueFrom 0 digits := by
  induction n with
  | zero => rfl
  | succ n ih => rw [List.replicate_succ, List.cons_append, valueFrom_zero (by decide), ih]

/-- Digits that are left out make the number smaller. -/
theorem valueFrom_filter_lt {m n : Nat} (h : m < n) (keep : Char → Bool) (digits : List Char) :
    valueFrom m (digits.filter keep) < valueFrom n digits := by
  induction digits generalizing m n with
  | nil => exact h
  | cons d digits ih =>
    rw [List.filter_cons, valueFrom_cons]
    split
    · rw [valueFrom_cons]
      exact ih (by omega)
    · exact ih (by omega)

theorem valueFrom_filter_eq_iff {n : Nat} (h : 0 < n) (keep : Char → Bool) (digits : List Char) :
    valueFrom n (digits.filter keep) = valueFrom n digits ↔ ∀ d ∈ digits, keep d = true := by
  induction digits generalizing n with
  | nil => simp
  | cons d digits ih =>
    cases hd : keep d with
    | true =>
      rw [List.filter_cons_of_pos hd, valueFrom_cons, valueFrom_cons, ih (by omega)]
      simp [hd]
    | false =>
      have hlt := valueFrom_filter_lt (show n < 10 * n + digitValue d by omega) keep digits
      rw [List.filter_cons_of_neg (by simp [hd]), valueFrom_cons]
      simp [hd, hlt.ne]

/-! ### The proper form -/

/-- The proper form consists of its word and three or more ASCII digits, which denote the number of
the ASCII digits that were there. -/
theorem proper_eq (reference : List Char) :
    ∃ digits, proper reference = "REQ-".toList ++ digits ∧ 3 ≤ digits.length ∧
      (∀ d ∈ digits, d.isDigit = true) ∧
      valueFrom 0 digits = valueFrom 0 (reference.filter Char.isDigit) := by
  have hzero (d : Char) (hd : (d == '0') = true) : digitValue d = 0 := by
    rw [eq_of_beq hd]
    decide
  refine ⟨_, List.append_assoc _ _ _, ?_, ?_, ?_⟩
  · rw [List.length_append, List.length_replicate]
    omega
  · intro d hd
    rcases List.mem_append.1 hd with hd | hd
    · rw [List.eq_of_mem_replicate hd]
      decide
    · exact (List.mem_filter.1 ((List.dropWhile_sublist _).subset hd)).2
  · rw [valueFrom_replicate, valueFrom_dropWhile hzero]

theorem isProper_proper (reference : List Char) : isProper (proper reference) = true := by
  obtain ⟨digits, hproper, hlength, hdigits, -⟩ := proper_eq reference
  have hprefix : "REQ-".toList.isPrefixOf? ("REQ-".toList ++ digits) = some digits := rfl
  rw [hproper, isProper, hprefix]
  simp only [Bool.and_eq_true, decide_eq_true_eq, List.all_eq_true]
  exact ⟨hlength, fun d hd => isDecimalDigit_of_isDigit (hdigits d hd)⟩

theorem isSeparator_of_isDigit {c : Char} (h : c.isDigit = true) : isSeparator c = false := by
  rw [isDigit_iff] at h
  have hblank : isBlank c = false := by
    simp only [isBlank, Bool.or_eq_false_iff, Bool.and_eq_false_iff, beq_eq_false_iff_ne,
      decide_eq_false_iff_not]
    omega
  have hmarks : "_#:.-".toList = ['_', '#', ':', '.', '-'] := rfl
  rw [isSeparator, hblank, Bool.false_or, List.contains_eq_mem, decide_eq_false_iff_not, hmarks]
  intro hmem
  simp only [List.mem_cons, List.not_mem_nil, or_false] at hmem
  rcases hmem with rfl | rfl | rfl | rfl | rfl <;> exact absurd h (by decide)

/-- Behind a hyphen a number is taken whole. -/
theorem takeNumber?_hyphen {digits after : List Char} (hne : digits ≠ [])
    (hdigits : ∀ d ∈ digits, d.isDigit = true)
    (hafter : ∀ c ∈ after.head?, isDecimalDigit c = false) :
    takeNumber? ('-' :: (digits ++ after)) = some ('-' :: digits) := by
  have hhyphen : ∀ c ∈ ['-'], isSeparator c = true := List.forall_mem_singleton.2 (by decide)
  have hfirst : ∀ c ∈ (digits ++ after).head?, isSeparator c = false := by
    obtain ⟨d, digits, rfl⟩ := List.exists_cons_of_ne_nil hne
    intro c hc
    obtain rfl := Option.some.inj hc
    exact isSeparator_of_isDigit (hdigits d List.mem_cons_self)
  have hdecimal : ∀ d ∈ digits, isDecimalDigit d = true :=
    fun d hd => isDecimalDigit_of_isDigit (hdigits d hd)
  have htake := takeWhile_append_eq hhyphen hfirst
  have hdrop := dropWhile_append_eq hhyphen hfirst
  rw [List.singleton_append] at htake hdrop
  rw [takeNumber?, htake, hdrop, takeWhile_append_eq hdecimal hafter,
    List.isEmpty_eq_false_iff.2 hne]
  rfl

/-- Of the words for a requirement only the shortest goes on with a hyphen. -/
theorem take?_hyphen {tail number : List Char} (h : takeNumber? ('-' :: tail) = some number) :
    take? ('R' :: 'E' :: 'Q' :: '-' :: tail) = some ('R' :: 'E' :: 'Q' :: number) := by
  have h₁ : dropFolded? "requirements".toList ('R' :: 'E' :: 'Q' :: '-' :: tail) = none := rfl
  have h₂ : dropFolded? "requirement".toList ('R' :: 'E' :: 'Q' :: '-' :: tail) = none := rfl
  have h₃ : dropFolded? "reqs".toList ('R' :: 'E' :: 'Q' :: '-' :: tail) = none := rfl
  have h₄ : dropFolded? "req".toList ('R' :: 'E' :: 'Q' :: '-' :: tail) = some ('-' :: tail) := rfl
  rw [take?, wordForms, List.findSome?_cons, h₁, Option.bind_none, List.findSome?_cons, h₂,
    Option.bind_none, List.findSome?_cons, h₃, Option.bind_none, List.findSome?_cons, h₄,
    Option.bind_some, h]
  rfl

/-- The proper form is taken where it stands, if no digit follows. -/
theorem take?_proper (reference : List Char) {after : List Char}
    (hafter : ∀ c ∈ after.head?, isDecimalDigit c = false) :
    take? (proper reference ++ after) = some (proper reference) := by
  obtain ⟨digits, hproper, hlength, hdigits, -⟩ := proper_eq reference
  have hne : digits ≠ [] := by
    rintro rfl
    exact absurd hlength (by decide)
  rw [hproper]
  exact take?_hyphen (takeNumber?_hyphen hne hdigits hafter)

theorem Takes.detached {cs reference after : List Char} (h : Takes cs reference after) :
    Detached cs := by
  obtain ⟨c, hc, hletter⟩ := h.first
  intro d hd
  rw [h.split, List.head?_append, Option.mem_def.1 hc] at hd
  obtain rfl : c = d := Option.some.inj hd
  rcases hletter with rfl | rfl <;> decide

/-- The proper form of a reference is found in its place, and all others stay. -/
theorem references_replace {text reference : List Char} {rs rs' : List (List Char)}
    (h : references text = rs ++ reference :: rs') :
    ∃ before after, text = before ++ (reference ++ after) ∧ references before = rs ∧
      references (before ++ (proper reference ++ after)) = rs ++ proper reference :: rs' := by
  obtain ⟨before, cs, after, rfl, hbefore, hskip, htake, htakes, hrest⟩ :=
    standsIn_of_referencesFrom h
  have htake' := take?_proper reference htakes.stops
  obtain ⟨after', htakes'⟩ := takes_of_take? htake'
  obtain rfl : after = after' := List.append_cancel_left htakes'.split
  have hrs : references before = rs := by
    rw [references, referencesFrom_append hbefore hskip htakes.detached,
      htakes.referencesFrom_eq htake, ← hrest] at h
    exact List.append_cancel_right h
  refine ⟨before, after, by rw [htakes.split], hrs, ?_⟩
  rw [references, referencesFrom_append hbefore hskip htakes'.detached,
    htakes'.referencesFrom_eq htake', ← hrest, ← references, hrs]

theorem filter_isDigit (cs : List Char) :
    cs.filter Char.isDigit = (cs.filter isDecimalDigit).filter Char.isDigit := by
  rw [List.filter_filter]
  refine List.filter_congr fun d _ => ?_
  cases hd : d.isDigit with
  | true => rw [isDecimalDigit_of_isDigit hd]; rfl
  | false => rfl

/-- The proper form denotes the number of the ASCII digits. -/
theorem number_proper (reference : List Char) :
    number (proper reference) =
      valueFrom 0 ((reference.filter isDecimalDigit).filter Char.isDigit) := by
  obtain ⟨digits, hproper, -, hdigits, hvalue⟩ := proper_eq reference
  have hword : "REQ-".toList.filter isDecimalDigit = [] := by decide
  have hkept : digits.filter isDecimalDigit = digits :=
    List.filter_eq_self.2 fun d hd => isDecimalDigit_of_isDigit (hdigits d hd)
  rw [number, hproper, List.filter_append, hword, List.nil_append, hkept, hvalue, filter_isDigit]

theorem digitValue_pos {reference ds : List Char} {d : Char}
    (h : significant reference = d :: ds) : 0 < digitValue d := by
  have hhead := List.head?_dropWhile_not (fun d => digitValue d == 0)
    (reference.filter isDecimalDigit)
  rw [← significant, h] at hhead
  exact Nat.pos_of_ne_zero (by simpa using hhead)

/-- The number stays exactly if the significant digits are ASCII digits. -/
theorem number_proper_iff (reference : List Char) :
    number (proper reference) = number reference ↔
      ∀ d ∈ significant reference, d.isDigit = true := by
  have hzero (d : Char) (hd : (digitValue d == 0) = true) : digitValue d = 0 := eq_of_beq hd
  have hwhole : number reference = valueFrom 0 (significant reference) :=
    (valueFrom_dropWhile hzero _).symm
  rw [number_proper, ← valueFrom_filter_dropWhile hzero, ← significant, hwhole]
  cases hdigits : significant reference with
  | nil => simp
  | cons d ds =>
    -- the first significant digit already makes the number positive
    have hpos := digitValue_pos hdigits
    cases hd : d.isDigit with
    | true =>
      rw [List.filter_cons_of_pos hd, valueFrom_cons, valueFrom_cons,
        valueFrom_filter_eq_iff (by omega)]
      simp [hd]
    | false =>
      have hlt := valueFrom_filter_lt hpos Char.isDigit ds
      rw [List.filter_cons_of_neg (by simp [hd]), valueFrom_cons]
      simp [hd, hlt.ne]

end Requirement

/-! ### Findings -/

namespace Documentation

open Source Text
open Requirement (isProper isProper_proper number number_proper_iff proper references_replace
  significant)

/-- For every reference that is found malformed in a comment, the finding suggests its proper form at
the line of the comment, and putting this in the place of the reference takes this one finding away.
It denotes the number of the reference exactly if the significant digits of the reference are ASCII
digits. -/
theorem suggestion_settles (s : Sheet) (c : Comment) {reference : List Char}
    {rs rs' : List (List Char)} (h : Requirement.references c.text = rs ++ reference :: rs')
    (hmalformed : isProper reference = false) :
    isProper (proper reference) = true ∧
      (number (proper reference) = number reference ↔
        ∀ d ∈ significant reference, d.isDigit = true) ∧
      ∃ before after front back, c.text = before ++ (reference ++ after) ∧
        Requirement.references before = rs ∧
        references s [c] = front ++
          { rule := "comments/malformed-requirement-ref"
            severity := .minor
            category := .bestPractice
            message :=
              s!"Requirement reference '{String.ofList reference}' is not in REQ-NNN form"
            location := ⟨s.path, ⟨c.line, 1⟩⟩
            suggestion := s!"Write it as '{String.ofList (proper reference)}'" } :: back ∧
        Requirement.references (before ++ (proper reference ++ after)) =
          rs ++ proper reference :: rs' ∧
        references s [{ c with text := before ++ (proper reference ++ after) }] =
          front ++ back := by
  obtain ⟨before, after, htext, hbefore, hreplaced⟩ := references_replace h
  refine ⟨isProper_proper reference, number_proper_iff reference, before, after,
    (rs.filter fun r => !isProper r).map (malformedReference s c.line),
    (rs'.filter fun r => !isProper r).map (malformedReference s c.line), htext, hbefore, ?_,
    hreplaced, ?_⟩
  · rw [references, List.flatMap_singleton, h, List.filter_append,
      List.filter_cons_of_pos (by simp [hmalformed]), List.map_append, List.map_cons]
    rfl
  · rw [references, List.flatMap_singleton, hreplaced, List.filter_append,
      List.filter_cons_of_neg (by simp [isProper_proper]), List.map_append]

/-- The second of two references in a comment is settled, and keeps its number. -/
theorem suggestion_settles_second :
    number (proper "req_08".toList) = number "req_08".toList ∧
      ∃ before after front back, "see req: 7, req_08.".toList =
          before ++ ("req_08".toList ++ after) ∧
        Requirement.references before = ["req: 7".toList] ∧
        references { path := "a.css" } [⟨"see req: 7, req_08.".toList, 1, true⟩] = front ++
          { rule := "comments/malformed-requirement-ref"
            severity := .minor
            category := .bestPractice
            message := "Requirement reference 'req_08' is not in REQ-NNN form"
            location := ⟨"a.css", ⟨1, 1⟩⟩
            suggestion := "Write it as 'REQ-008'" } :: back ∧
        Requirement.references (before ++ (proper "req_08".toList ++ after)) =
          ["req: 7".toList] ++ proper "req_08".toList :: [] ∧
        references { path := "a.css" } [⟨before ++ (proper "req_08".toList ++ after), 1, true⟩] =
          front ++ back := by
  have hfound : Requirement.references "see req: 7, req_08.".toList =
      ["req: 7".toList] ++ "req_08".toList :: [] := by decide +kernel
  have hmalformed : isProper "req_08".toList = false := by decide
  obtain ⟨-, hnumber, hplace⟩ := suggestion_settles { path := "a.css" }
    ⟨"see req: 7, req_08.".toList, 1, true⟩ hfound hmalformed
  have hsignificant : (significant "req_08".toList).all Char.isDigit = true := by decide +kernel
  exact ⟨hnumber.2 (List.all_eq_true.1 hsignificant), hplace⟩

/-- An Arabic five is found, but left out of the suggestion. -/
theorem suggestion_drops_digit :
    Requirement.references "req \u0665".toList = ["req \u0665".toList] ∧
      isProper "req \u0665".toList = false ∧ number "req \u0665".toList = 5 ∧
      proper "req \u0665".toList = "REQ-000".toList ∧ number "REQ-000".toList = 0 := by
  decide +kernel

end Documentation
end SheetAudit
