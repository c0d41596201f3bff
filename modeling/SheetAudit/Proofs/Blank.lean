import Mathlib.Data.List.TakeWhile
import SheetAudit.Text.Letter
import SheetAudit.Text.Blank

/-!
# Trimming and collapsing

Blanks at the ends of a text do not show in its trimmed or its collapsed form, and a text that is
written with single spaces is its own collapsed form.

## Main definitions

* `singleSpaced` — every blank of a text is a single space.

## Main results

* `trim_eq_self` — a text that neither begins nor ends blank is trimmed.
* `trim_trim` — what has been trimmed is trimmed.
* `trim_append` — a text between blanks is its trimmed form, if it neither begins nor ends blank.
* `collapse_append` — blanks at the ends of a text do not show when it is collapsed.
* `collapse_eq_self` — a trimmed text with single spaces is collapsed already.
* `spaced_collapse`, `trim_collapse` — what collapsing leaves is trimmed and has single spaces.
* `isBlank_of_isAlphanumeric` — letters and numbers of any script are no blanks.
-/

namespace SheetAudit
namespace Text

/-! ### Trimming -/

theorem trimLeft_append {left : List Char} (h : ∀ c ∈ left, isBlank c = true) (cs : List Char) :
    trimLeft (left ++ cs) = trimLeft cs :=
  List.dropWhile_append_of_pos h

theorem trimRight_append {right : List Char} (h : ∀ c ∈ right, isBlank c = true)
    (cs : List Char) : trimRight (cs ++ right) = trimRight cs := by
  rw [trimRight, trimRight, List.reverse_append, List.dropWhile_append_of_pos]
  intro c hc
  exact h c (List.mem_reverse.1 hc)

/-- A trimmed text does not begin with a blank. -/
theorem isBlank_head_of_trim {c : Char} {cs : List Char} (h : trim (c :: cs) = c :: cs) :
    isBlank c = false := by
  cases hc : isBlank c with
  | false => rfl
  | true =>
    -- the blank would have made the text shorter
    have hle : (trim (c :: cs)).length ≤ cs.length := by
      rw [trim, trimRight, trimLeft, List.dropWhile_cons_of_pos hc, List.length_reverse]
      refine Nat.le_trans (List.dropWhile_sublist _).length_le ?_
      rw [List.length_reverse]
      exact (List.dropWhile_sublist _).length_le
    rw [h, List.length_cons] at hle
    omega

/-- A trimmed text does not end with a blank. -/
theorem isBlank_last_of_trim {c : Char} {cs : List Char} (h : trim (cs ++ [c]) = cs ++ [c]) :
    isBlank c = false := by
  cases hc : isBlank c with
  | false => rfl
  | true =>
    have hle : (trim (cs ++ [c])).length ≤ cs.length := by
      rw [trim, trimLeft, List.dropWhile_append]
      split
      · rw [List.dropWhile_cons_of_pos hc]
        exact Nat.zero_le _
      · rw [trimRight_append (by simpa using hc), trimRight, List.length_reverse]
        refine Nat.le_trans (List.dropWhile_sublist _).length_le ?_
        rw [List.length_reverse]
        exact (List.dropWhile_sublist _).length_le
    rw [h, List.length_append, List.length_singleton] at hle
    omega

/-- A text between blanks is its trimmed form. -/
theorem trim_append {left cs right : List Char} (hl : ∀ c ∈ left, isBlank c = true)
    (hr : ∀ c ∈ right, isBlank c = true) (h : trim cs = cs) :
    trim (left ++ (cs ++ right)) = cs := by
  rw [trim, trimLeft_append hl]
  cases cs with
  | nil =>
    rw [List.nil_append, trimLeft, List.dropWhile_eq_nil_iff.2 hr]
    rfl
  | cons c cs =>
    have hc := isBlank_head_of_trim h
    rw [trim, trimLeft, List.dropWhile_cons_of_neg (by simp [hc])] at h
    rw [List.cons_append, trimLeft, List.dropWhile_cons_of_neg (by simp [hc]), ← List.cons_append,
      trimRight_append hr, h]

/-- A text that neither begins nor ends with a blank is trimmed. -/
theorem trim_eq_self {cs : List Char} (hc : ∀ c ∈ cs.head?, isBlank c = false)
    (hl : ∀ c ∈ cs.getLast?, isBlank c = false) : trim cs = cs := by
  have hleft : trimLeft cs = cs := by
    cases cs with
    | nil => rfl
    | cons c cs => exact List.dropWhile_cons_of_neg (by simp [hc c rfl])
  rw [trim, hleft, trimRight]
  rw [← List.head?_reverse] at hl
  cases hcs : cs.reverse with
  | nil => exact (List.reverse_eq_nil_iff.1 hcs).symm
  | cons c ds =>
    rw [List.dropWhile_cons_of_neg (by simp [hl c (by rw [hcs]; rfl)]), ← hcs, List.reverse_reverse]

theorem trim_trim (cs : List Char) : trim (trim cs) = trim cs := by
  have hhead (ds : List Char) : ∀ c ∈ (ds.dropWhile isBlank).head?, isBlank c = false := by
    intro c hc
    have hnot := List.head?_dropWhile_not isBlank ds
    rw [Option.mem_def.1 hc] at hnot
    exact hnot
  refine trim_eq_self (fun c hc => hhead cs c ?_) fun c hc => hhead (trimLeft cs).reverse c ?_
  · -- what is trimmed at the right as well begins like what is trimmed at the left
    obtain ⟨tail, htail⟩ : trim cs <+: trimLeft cs := by
      rw [trim, trimRight, ← List.reverse_suffix, List.reverse_reverse]
      exact List.dropWhile_suffix isBlank
    change c ∈ (trimLeft cs).head?
    rw [← htail, List.head?_append, Option.mem_def.1 hc]
    rfl
  · rwa [trim, trimRight, List.getLast?_reverse] at hc

/-! ### Words -/

theorem words_blank {c : Char} (hc : isBlank c = true) (cs : List Char) :
    words (c :: cs) = words cs := by
  rw [words, fields.eq_def]
  simp only [hc, if_true]
  rw [words]

theorem words_blank_append {left : List Char} (h : ∀ c ∈ left, isBlank c = true)
    (cs : List Char) : words (left ++ cs) = words cs := by
  induction left with
  | nil => rfl
  | cons c left ih =>
    rw [List.cons_append, words_blank (h c List.mem_cons_self)]
    exact ih fun d hd => h d (List.mem_cons_of_mem _ hd)

theorem words_of_blank {cs : List Char} (h : ∀ c ∈ cs, isBlank c = true) : words cs = [] := by
  have hw := words_blank_append h []
  rwa [List.append_nil] at hw

theorem words_singleton {c : Char} (hc : isBlank c = false) : words [c] = [[c]] := by
  rw [words, fields, if_neg (by simp [hc])]

/-- A blank after a character ends its word. -/
theorem words_cons_of_blank {c d : Char} (hc : isBlank c = false) (hd : isBlank d = true)
    (cs : List Char) : words (c :: d :: cs) = [c] :: words cs := by
  rw [words, fields.eq_def]
  simp only [hc, hd, Bool.false_eq_true, if_false, if_true]
  rw [← words, words_blank hd]

/-- A character before a word becomes part of it. -/
theorem words_cons_of_not_blank {c d : Char} (hc : isBlank c = false) (hd : isBlank d = false)
    (cs : List Char) :
    ∃ w ws, words (d :: cs) = w :: ws ∧ words (c :: d :: cs) = (c :: w) :: ws := by
  have hne : words (d :: cs) ≠ [] := by
    rw [words, fields.eq_def]
    simp only [hd, Bool.false_eq_true, if_false]
    cases cs with
    | nil => simp
    | cons e cs =>
      dsimp only
      split
      · simp
      · split <;> simp
  obtain ⟨w, ws, hw⟩ := List.exists_cons_of_ne_nil hne
  refine ⟨w, ws, hw, ?_⟩
  rw [words, fields.eq_def]
  simp only [hc, hd, Bool.false_eq_true, if_false]
  rw [← words, hw]

theorem words_append_blank {right : List Char} (h : ∀ c ∈ right, isBlank c = true) :
    ∀ cs : List Char, words (cs ++ right) = words cs
  | [] => words_of_blank h
  | [c] => by
    cases hc : isBlank c with
    | true => rw [List.singleton_append, words_blank hc, words_blank hc, words_of_blank h]; rfl
    | false =>
      cases right with
      | nil => rw [List.append_nil]
      | cons d right =>
        rw [List.singleton_append, words_cons_of_blank hc (h d List.mem_cons_self),
          words_of_blank fun e he => h e (List.mem_cons_of_mem _ he), words_singleton hc]
  | c :: d :: cs => by
    have ih := words_append_blank h (d :: cs)
    cases hc : isBlank c with
    | true => rw [List.cons_append, words_blank hc, words_blank hc, ih]
    | false =>
      cases hd : isBlank d with
      | true =>
        -- the word of `c` ends at once
        rw [List.cons_append, List.cons_append, words_cons_of_blank hc hd,
          words_cons_of_blank hc hd, words_append_blank h cs]
      | false =>
        -- `c` is put in front of the same word on both sides
        obtain ⟨w, ws, hw, hcw⟩ := words_cons_of_not_blank hc hd cs
        obtain ⟨v, vs, hv, hcv⟩ := words_cons_of_not_blank hc hd (cs ++ right)
        rw [List.cons_append] at ih
        obtain ⟨rfl, rfl⟩ : v = w ∧ vs = ws := by simpa [hw, hv] using ih
        rw [List.cons_append, List.cons_append, hcw, hcv]

/-- Blanks at the ends of a text do not show when it is collapsed. -/
theorem collapse_append {left right : List Char} (hl : ∀ c ∈ left, isBlank c = true)
    (hr : ∀ c ∈ right, isBlank c = true) (cs : List Char) :
    collapse (left ++ (cs ++ right)) = collapse cs := by
  rw [collapse, words_blank_append hl, words_append_blank hr, collapse]

theorem collapse_append_blank {right : List Char} (h : ∀ c ∈ right, isBlank c = true)
    (cs : List Char) : collapse (cs ++ right) = collapse cs := by
  rw [collapse, words_append_blank h, collapse]

/-! ### Single spaces -/

/-- Every blank is a single space. -/
def singleSpaced : List Char → Bool
  | [] => true
  | [c] => !isBlank c || c == ' '
  | c :: d :: cs =>
    (!isBlank c || (c == ' ' && !isBlank d)) && singleSpaced (d :: cs)

theorem singleSpaced_tail {c : Char} {cs : List Char} (h : singleSpaced (c :: cs) = true) :
    singleSpaced cs = true := by
  cases cs with
  | nil => rfl
  | cons d cs =>
    rw [singleSpaced, Bool.and_eq_true] at h
    exact h.2

/-- A text with single spaces that neither begins nor ends with one is collapsed already. -/
theorem collapse_eq_self_of_ends : ∀ cs : List Char, singleSpaced cs = true →
    (∀ c ∈ cs.head?, isBlank c = false) → (∀ c ∈ cs.getLast?, isBlank c = false) →
    collapse cs = cs
  | [], _, _, _ => rfl
  | [c], _, hc, _ => by
    rw [collapse, words_singleton (hc c rfl)]
    rfl
  | c :: d :: cs, hs, hc, hl => by
    replace hc : isBlank c = false := hc c rfl
    cases hd : isBlank d with
    | false =>
      have ih := collapse_eq_self_of_ends (d :: cs) (singleSpaced_tail hs) (by simpa using hd)
        (by simpa using hl)
      obtain ⟨w, ws, hw, hcw⟩ := words_cons_of_not_blank hc hd cs
      rw [collapse, hw] at ih
      rw [collapse, hcw]
      cases ws with
      | nil => simpa using ih
      | cons v vs => simpa [List.intercalate_cons_cons] using ih
    | true =>
      -- a space between two words
      cases cs with
      | nil => simp [hd] at hl
      | cons e cs =>
        obtain ⟨⟨rfl, he⟩, htail⟩ :
            (d = ' ' ∧ isBlank e = false) ∧ singleSpaced (e :: cs) = true := by
          simpa [singleSpaced, hc, hd] using hs
        have ih := collapse_eq_self_of_ends (e :: cs) htail (by simpa using he) (by simpa using hl)
        rw [collapse, words_cons_of_blank hc hd]
        rw [collapse] at ih
        cases hw : words (e :: cs) with
        | nil => rw [hw] at ih; simp at ih
        | cons w ws =>
          rw [hw] at ih
          rw [List.intercalate_cons_cons, ih]
          rfl

/-- A trimmed text with single spaces is collapsed already. -/
theorem collapse_eq_self {cs : List Char} (ht : trim cs = cs) (hs : singleSpaced cs = true) :
    collapse cs = cs := by
  refine collapse_eq_self_of_ends cs hs ?_ ?_
  · intro c hc
    obtain ⟨tail, rfl⟩ := List.head?_eq_some_iff.1 hc
    exact isBlank_head_of_trim ht
  · intro c hc
    obtain ⟨init, rfl⟩ := List.getLast?_eq_some_iff.1 hc
    exact isBlank_last_of_trim ht

/-! ### What collapsing leaves -/

/-- A character that is no blank is a word of its own or belongs to the first word behind it. -/
theorem words_cons_or {c : Char} (hc : isBlank c = false) (cs : List Char) :
    words (c :: cs) = [c] :: words cs ∨
      ∃ w ws, words cs = w :: ws ∧ words (c :: cs) = (c :: w) :: ws := by
  cases cs with
  | nil => exact .inl (words_singleton hc)
  | cons d cs =>
    cases hd : isBlank d with
    | true => exact .inl (by rw [words_cons_of_blank hc hd, words_blank hd])
    | false => exact .inr (words_cons_of_not_blank hc hd cs)

theorem words_ne_nil {c : Char} (hc : isBlank c = false) (cs : List Char) :
    words (c :: cs) ≠ [] := by
  rcases words_cons_or hc cs with hw | ⟨w, ws, -, hw⟩ <;> rw [hw] <;> exact List.cons_ne_nil _ _

theorem ne_nil_of_mem_words {cs w : List Char} (h : w ∈ words cs) : w ≠ [] := by
  induction cs generalizing w with
  | nil => cases h
  | cons c cs ih =>
    cases hc : isBlank c with
    | true => exact ih (words_blank hc cs ▸ h)
    | false =>
      rcases words_cons_or hc cs with hw | ⟨v, vs, hv, hw⟩ <;> rw [hw] at h <;>
        rcases List.mem_cons.1 h with rfl | h
      · exact List.cons_ne_nil _ _
      · exact ih h
      · exact List.cons_ne_nil _ _
      · exact ih (hv ▸ List.mem_cons_of_mem v h)

theorem collapse_eq_nil_iff {cs : List Char} : collapse cs = [] ↔ words cs = [] := by
  rw [collapse]
  cases hws : words cs with
  | nil => simp
  | cons w ws =>
    have hne : w ≠ [] := ne_nil_of_mem_words (hws ▸ List.mem_cons_self)
    cases ws <;> simp [List.intercalate_cons_cons, hne]

theorem collapse_ne_nil {c : Char} (hc : isBlank c = false) (cs : List Char) :
    collapse (c :: cs) ≠ [] := fun h => words_ne_nil hc cs (collapse_eq_nil_iff.1 h)

theorem collapse_blank {c : Char} (hc : isBlank c = true) (cs : List Char) :
    collapse (c :: cs) = collapse cs := by
  rw [collapse, words_blank hc, collapse]

/-- Behind a character that is no blank stands what is left of the rest, with or without a space. -/
theorem collapse_cons {c : Char} (hc : isBlank c = false) (cs : List Char) :
    collapse (c :: cs) = c :: collapse cs ∨
      collapse cs ≠ [] ∧ collapse (c :: cs) = c :: ' ' :: collapse cs := by
  rcases words_cons_or hc cs with hw | ⟨w, ws, hv, hw⟩
  · cases hws : words cs with
    | nil => exact .inl (by rw [collapse, collapse, hw, hws]; rfl)
    | cons w ws =>
      refine .inr ⟨by simp [collapse_eq_nil_iff, hws], ?_⟩
      rw [collapse, collapse, hw, hws, List.intercalate_cons_cons]
      rfl
  · refine .inl ?_
    rw [collapse, collapse, hw, hv]
    cases ws with
    | nil => simp
    | cons v vs => simp [List.intercalate_cons_cons]

/-- What is left of a text is spaced by single spaces and does not begin or end with one. -/
theorem spaced_collapse (cs : List Char) :
    singleSpaced (collapse cs) = true ∧ (∀ c ∈ (collapse cs).head?, isBlank c = false) ∧
      ∀ c ∈ (collapse cs).getLast?, isBlank c = false := by
  induction cs with
  | nil => exact ⟨rfl, nofun, nofun⟩
  | cons c cs ih =>
    cases hc : isBlank c with
    | true => rwa [collapse_blank hc]
    | false =>
      obtain ⟨hspaced, hhead, hlast⟩ := ih
      rcases collapse_cons hc cs with h | ⟨hne, h⟩ <;> rw [h]
      · cases hcs : collapse cs with
        | nil => simp [singleSpaced, hc]
        | cons d ds =>
          rw [hcs] at hspaced hlast
          exact ⟨by rw [singleSpaced, hc, hspaced]; rfl, by simpa using hc, by simpa using hlast⟩
      · obtain ⟨d, ds, hcs⟩ := List.exists_cons_of_ne_nil hne
        rw [hcs] at hspaced hhead hlast ⊢
        have hd := hhead d rfl
        refine ⟨?_, by simpa using hc, by simpa using hlast⟩
        rw [singleSpaced, singleSpaced, hc, hd, hspaced]
        rfl

theorem trim_collapse (cs : List Char) : trim (collapse cs) = collapse cs :=
  trim_eq_self (spaced_collapse cs).2.1 (spaced_collapse cs).2.2

theorem collapse_collapse (cs : List Char) : collapse (collapse cs) = collapse cs :=
  collapse_eq_self (trim_collapse cs) (spaced_collapse cs).1

/-! ### Letters -/

/-- The code points of the blanks. -/
def blankPoints : List Nat :=
  List.range' 0x9 5 ++ ([0x20, 0x85, 0xA0, 0x1680] ++ (List.range' 0x2000 11 ++
    [0x2028, 0x2029, 0x202F, 0x205F, 0x3000]))

theorem mem_blankPoints {c : Char} (h : isBlank c = true) : c.toNat ∈ blankPoints := by
  simp only [isBlank, Bool.or_eq_true, Bool.and_eq_true, beq_iff_eq, decide_eq_true_eq] at h
  simp only [blankPoints, List.mem_append, List.mem_range'_1, List.mem_cons, List.not_mem_nil]
  omega

/-- Letters and numbers of any script are no blanks. -/
theorem isBlank_of_isAlphanumeric {c : Char} (h : isAlphanumeric c = true) :
    isBlank c = false := by
  -- the blanks are few, so each of them can be looked up
  have hall : ∀ n ∈ blankPoints, isAlphanumeric (Char.ofNat n) = false := by decide +kernel
  cases hc : isBlank c with
  | false => rfl
  | true =>
    have hb := hall _ (mem_blankPoints hc)
    rw [Char.ofNat_toNat, h] at hb
    cases hb

/-! ### ASCII letters and digits -/

theorem between_iff {c : Char} (lo hi : UInt32) :
    (decide (c.val ≥ lo) && decide (c.val ≤ hi)) = true ↔
      lo.toNat ≤ c.toNat ∧ c.toNat ≤ hi.toNat := by
  rw [Bool.and_eq_true, decide_eq_true_eq, decide_eq_true_eq]
  exact Iff.rfl

theorem isDigit_iff {c : Char} : c.isDigit = true ↔ 48 ≤ c.toNat ∧ c.toNat ≤ 57 :=
  between_iff 48 57

theorem isLower_iff {c : Char} : c.isLower = true ↔ 97 ≤ c.toNat ∧ c.toNat ≤ 122 :=
  between_iff 97 122

theorem isHexDigit_iff {c : Char} : isHexDigit c = true ↔
    (48 ≤ c.toNat ∧ c.toNat ≤ 57 ∨ 97 ≤ c.toNat ∧ c.toNat ≤ 102) ∨ 65 ≤ c.toNat ∧ c.toNat ≤ 70 := by
  rw [← isDigit_iff]
  simp only [isHexDigit, Bool.or_eq_true, Bool.and_eq_true, decide_eq_true_eq,
    Char.le_def, UInt32.le_iff_toNat_le]
  exact Iff.rfl

theorem isAlphanum_iff {c : Char} : c.isAlphanum = true ↔
    (65 ≤ c.toNat ∧ c.toNat ≤ 90 ∨ 97 ≤ c.toNat ∧ c.toNat ≤ 122) ∨
      48 ≤ c.toNat ∧ c.toNat ≤ 57 := by
  have hupper : c.isUpper = true ↔ 65 ≤ c.toNat ∧ c.toNat ≤ 90 := decide_eq_true_iff
  rw [← hupper, ← isLower_iff, ← isDigit_iff]
  exact Bool.or_eq_true_iff.trans (or_congr Bool.or_eq_true_iff Iff.rfl)

theorem isWordChar_of_isAlphanum {c : Char} (h : c.isAlphanum = true) : isWordChar c = true := by
  have hascii : isAscii c = true := by
    rw [isAlphanum_iff] at h
    rw [isAscii, decide_eq_true_eq]
    omega
  rw [isWordChar, if_pos hascii, h, Bool.true_or]

theorem isWordChar_of_isHexDigit {c : Char} (h : isHexDigit c = true) : isWordChar c = true := by
  rw [isHexDigit_iff] at h
  exact isWordChar_of_isAlphanum (isAlphanum_iff.2 (by omega))

end Text
end SheetAudit
