import SheetAudit.Proofs.References

/-!
# The flag behind a value

A value is read up to its first flag `!important`, in whatever letter case it is written, and
without the white space at its ends.

## Main definitions

* `Blanks`, `IsFlag` — white space, and the flag.
* `Cut` — a text is what is left of a value, and what stands around it.

## Main results

* `splitAscii?_flag` — the first flag is found.
* `cut_trim_dropImportant` — **what is left of a value stands in it without a flag, between white
  space and the flag.**
-/

namespace SheetAudit
namespace Value

open Text
open Offsets (toLower_cases splitBy?_eq_some dropAscii?_eq_some)

/-! ### White space and the flag -/

/-- White space, or nothing. -/
def Blanks (cs : List Char) : Prop := ∀ c ∈ cs, isBlank c = true

instance (cs : List Char) : Decidable (Blanks cs) :=
  decidable_of_iff (cs.all isBlank = true) List.all_eq_true

theorem Blanks.ne {cs : List Char} (h : Blanks cs) {d : Char} (hd : isBlank d = false) :
    ∀ c ∈ cs, c ≠ d :=
  fun c hc heq => Bool.false_ne_true (hd.symm.trans (heq ▸ h c hc))

theorem Blanks.count_eq_zero {cs : List Char} (h : Blanks cs) {d : Char} (hd : isBlank d = false) :
    cs.count d = 0 :=
  List.count_eq_zero.2 fun hmem => h.ne hd d hmem rfl

theorem Blanks.append {cs ds : List Char} (hcs : Blanks cs) (hds : Blanks ds) : Blanks (cs ++ ds) :=
  fun c hc => (List.mem_append.1 hc).elim (hcs c) (hds c)

/-- The flag, in some letter case. -/
def IsFlag (word : List Char) : Prop := lowerAscii word = "!important".toList

instance (word : List Char) : Decidable (IsFlag word) :=
  inferInstanceAs (Decidable (lowerAscii word = "!important".toList))

theorem isBlank_toLower (c : Char) : isBlank c.toLower = isBlank c := by
  rcases toLower_cases c with hsame | ⟨hcapital, hlower⟩
  · rw [hsame]
  · have hnot {d : Char} (hd : 65 ≤ d.toNat ∧ d.toNat ≤ 122) : isBlank d = false := by
      simp only [isBlank, Bool.or_eq_false_iff, Bool.and_eq_false_iff, decide_eq_false_iff_not,
        beq_eq_false_iff_ne]
      omega
    rw [hnot (by omega), hnot (by omega)]

theorem dropWhile_isBlank_lowerAscii (cs : List Char) :
    (lowerAscii cs).dropWhile isBlank = lowerAscii (cs.dropWhile isBlank) := by
  have hcomp : isBlank ∘ Char.toLower = isBlank := funext isBlank_toLower
  rw [lowerAscii, List.dropWhile_map, hcomp]
  rfl

theorem trimRight_lowerAscii (cs : List Char) :
    trimRight (lowerAscii cs) = lowerAscii (trimRight cs) := by
  have hreverse (ds : List Char) : (lowerAscii ds).reverse = lowerAscii ds.reverse :=
    List.map_reverse.symm
  rw [trimRight, hreverse, dropWhile_isBlank_lowerAscii, hreverse, trimRight]

theorem trim_lowerAscii (cs : List Char) : trim (lowerAscii cs) = lowerAscii (trim cs) := by
  rw [trim, trimLeft, dropWhile_isBlank_lowerAscii, trimRight_lowerAscii, trim, trimLeft]

theorem trim_eq_self_of_lowerAscii {cs : List Char} (h : trim (lowerAscii cs) = lowerAscii cs) :
    trim cs = cs := by
  obtain ⟨left, right, hcs, -, -⟩ := exists_append_trim cs
  rw [trim_lowerAscii] at h
  have hlength : (trim cs).length = cs.length := by
    simpa [lowerAscii] using congrArg List.length h
  have hsum := congrArg List.length hcs
  rw [List.length_append, List.length_append, hlength] at hsum
  obtain rfl : left = [] := List.eq_nil_of_length_eq_zero (by omega)
  obtain rfl : right = [] := List.eq_nil_of_length_eq_zero (by omega)
  rw [List.append_nil] at hcs
  exact hcs.symm

theorem IsFlag.trimmed {word : List Char} (h : IsFlag word) : trim word = word :=
  trim_eq_self_of_lowerAscii (by rw [show lowerAscii word = _ from h]; decide)

/-- Only the first character of the flag is an exclamation mark. -/
theorem IsFlag.not_mem_tail {c : Char} {cs : List Char} (h : IsFlag (c :: cs)) : '!' ∉ cs := by
  have htail : lowerAscii cs = "important".toList := (List.cons.inj h).2
  intro hmem
  have hmem : '!' ∈ lowerAscii cs := List.mem_map.2 ⟨'!', hmem, rfl⟩
  rw [htail] at hmem
  exact absurd hmem (by decide)

/-- Only letters have a small form of their own. -/
theorem eq_of_toLower {c d : Char} (h : c.toLower = d) (hd : d.toNat < 97) : c = d := by
  rcases toLower_cases c with hsame | ⟨hcapital, hlower⟩
  · rw [← hsame, h]
  · rw [h] at hlower
    omega

/-- Hex digits are digits in either letter case. -/
theorem isHexDigit_toLower (d : Char) : isHexDigit d.toLower = isHexDigit d := by
  rcases toLower_cases d with hsame | ⟨hcapital, hsmall⟩
  · rw [hsame]
  · rw [Bool.eq_iff_iff, isHexDigit_iff, isHexDigit_iff]
    omega

theorem isAlpha_of_toLower {c : Char} (h : c.toLower.isAlpha = true) : c.isAlpha = true := by
  rcases toLower_cases c with hsame | ⟨hcapital, -⟩
  · rwa [hsame] at h
  · have hupper : c.isUpper = true := decide_eq_true hcapital
    rw [Char.isAlpha, hupper]
    rfl

theorem lowerAscii_lowerAscii (cs : List Char) : lowerAscii (lowerAscii cs) = lowerAscii cs := by
  rw [lowerAscii, lowerAscii, List.map_map]
  refine List.map_congr_left fun c _ => ?_
  rcases toLower_cases c with hsame | ⟨hcapital, hlower⟩
  · rw [Function.comp_apply, hsame, hsame]
  · rcases toLower_cases c.toLower with hsame | ⟨hcapital', -⟩
    · exact hsame
    · omega

theorem IsFlag.exists_cons {word : List Char} (h : IsFlag word) : ∃ cs, word = '!' :: cs := by
  cases word with
  | nil => cases h
  | cons c cs =>
    obtain rfl : c = '!' := eq_of_toLower (List.cons.inj h).1 (by decide)
    exact ⟨cs, rfl⟩

/-! ### Texts without the flag -/

section

variable {cs ds : List Char}

theorem SaysImportant.mono (h : SaysImportant cs) (hsub : cs <:+: ds) : SaysImportant ds := by
  obtain ⟨word, hword, hflag⟩ := h
  exact ⟨word, hword.trans hsub, hflag⟩

theorem not_saysImportant_of_not_mem (h : '!' ∉ cs) : ¬ SaysImportant cs := by
  rintro ⟨word, hword, hflag⟩
  obtain ⟨tail, rfl⟩ := IsFlag.exists_cons hflag
  exact h (hword.subset List.mem_cons_self)

theorem Blanks.not_saysImportant (h : Blanks cs) : ¬ SaysImportant cs :=
  not_saysImportant_of_not_mem fun hmem => Blanks.ne h (by decide) _ hmem rfl

/-- A character that is none of the flag parts the text. -/
theorem saysImportant_append_cons {c : Char} (hc : c.toLower ∉ "!important".toList) :
    SaysImportant (cs ++ c :: ds) ↔ SaysImportant cs ∨ SaysImportant ds := by
  rw [saysImportant_iff, saysImportant_iff, saysImportant_iff,
    splitAscii?_append_cons (by decide) hc]
  cases splitAscii? "!important".toList cs <;> simp

theorem Blanks.saysImportant_append (h : Blanks cs) :
    SaysImportant (cs ++ ds) ↔ SaysImportant ds := by
  induction cs with
  | nil => rfl
  | cons c cs ih =>
    have hc : c.toLower ∉ "!important".toList :=
      toLower_not_mem_of_isBlank (by decide) (h c List.mem_cons_self)
    rw [List.cons_append, ← List.nil_append (c :: (cs ++ ds)), saysImportant_append_cons hc,
      ih fun d hd => h d (List.mem_cons_of_mem c hd)]
    exact or_iff_right (not_saysImportant_of_not_mem (by decide))

theorem Blanks.append_saysImportant (h : Blanks ds) :
    SaysImportant (cs ++ ds) ↔ SaysImportant cs := by
  cases ds with
  | nil => rw [List.append_nil]
  | cons d ds =>
    have hd : d.toLower ∉ "!important".toList :=
      toLower_not_mem_of_isBlank (by decide) (h d List.mem_cons_self)
    rw [saysImportant_append_cons hd]
    exact or_iff_left
      (Blanks.not_saysImportant fun c hc => h c (List.mem_cons_of_mem d hc))

end

/-! ### The first flag -/

/-- What stands before the first occurrence of a word holds none. -/
theorem splitAscii?_before {word : List Char} (hne : word ≠ []) :
    ∀ {cs before after : List Char}, splitAscii? word cs = some (before, after) →
      splitAscii? word before = none := by
  have hnil : dropAscii? word [] = none := by
    obtain ⟨w, ws, rfl⟩ := List.exists_cons_of_ne_nil hne
    rfl
  have hempty : splitAscii? word [] = none := by rw [splitAscii?, splitBy?, hnil, Option.map_none]
  intro cs
  induction cs with
  | nil =>
    intro before after h
    rw [hempty] at h
    cases h
  | cons c cs ih =>
    intro before after h
    rw [splitAscii?, splitBy?] at h
    cases hdrop : dropAscii? word (c :: cs) with
    | some rest =>
      rw [hdrop] at h
      obtain ⟨rfl, -⟩ := Prod.mk.inj (Option.some.inj h)
      exact hempty
    | none =>
      rw [hdrop] at h
      obtain ⟨⟨front, back⟩, hsplit, heq⟩ := Option.map_eq_some_iff.1 h
      obtain ⟨rfl, rfl⟩ := Prod.mk.inj heq
      -- an occurrence at the start of the text before would be one at the start of the whole
      have hfront : dropAscii? word (c :: front) = none := by
        refine Option.eq_none_iff_forall_ne_some.2 fun rest hrest => ?_
        obtain ⟨found, hfound, rfl⟩ := dropAscii?_eq_some hrest
        obtain ⟨tail, rfl, -⟩ := splitBy?_eq_some hsplit
        rw [← List.cons_append, hfound, List.append_assoc, dropAscii?_lowerAscii] at hdrop
        cases hdrop
      rw [splitAscii?, splitBy?, hfront]
      dsimp only
      rw [show splitBy? (dropAscii? word) front = none from ih hsplit, Option.map_none]

/-- The first flag is found. -/
theorem splitAscii?_flag {front flag : List Char} (hfront : ¬ SaysImportant front)
    (hflag : IsFlag flag) (after : List Char) :
    splitAscii? "!important".toList (front ++ (flag ++ after)) = some (front, after) := by
  induction front with
  | nil =>
    obtain ⟨tail, rfl⟩ := hflag.exists_cons
    have hdrop := dropAscii?_lowerAscii ('!' :: tail) after
    rw [show lowerAscii ('!' :: tail) = _ from hflag] at hdrop
    rw [List.nil_append, List.cons_append, splitAscii?, splitBy?, ← List.cons_append, hdrop]
  | cons c front ih =>
    have hdrop : dropAscii? "!important".toList (c :: (front ++ (flag ++ after))) = none := by
      refine Option.eq_none_iff_forall_ne_some.2 fun rest hrest => ?_
      obtain ⟨word, hword, hlower⟩ := dropAscii?_eq_some hrest
      rw [← List.cons_append] at hword
      rcases List.append_eq_append_iff.1 hword with ⟨mid, rfl, hmid⟩ | ⟨mid, hmid, -⟩
      · -- a flag across the border would hold the mark of the flag behind
        cases mid with
        | nil =>
          rw [List.append_nil] at hlower
          exact hfront ⟨c :: front, List.infix_rfl, hlower⟩
        | cons d mid =>
          obtain ⟨tail, rfl⟩ := hflag.exists_cons
          obtain rfl : '!' = d := (List.cons.inj hmid).1
          exact IsFlag.not_mem_tail hlower (by simp)
      · exact hfront ⟨word, ⟨[], mid, hmid.symm⟩, hlower⟩
    have hrest := ih fun h => hfront (h.mono ⟨[c], [], by simp⟩)
    rw [splitAscii?] at hrest
    rw [List.cons_append, splitAscii?, splitBy?, hdrop]
    dsimp only
    rw [hrest, Option.map_some]

/-! ### What is left of a value -/

/-- The text stands in the value without a flag, white space around it, and nothing or a flag
behind. -/
def Cut (value text : List Char) : Prop :=
  ∃ left right more, value = left ++ (text ++ (right ++ more)) ∧ Blanks left ∧ Blanks right ∧
    ¬ SaysImportant text ∧ (more = [] ∨ ∃ flag after, more = flag ++ after ∧ IsFlag flag)

theorem Cut.not_saysImportant {value text : List Char} (h : Cut value text) :
    ¬ SaysImportant text := by
  obtain ⟨-, -, -, -, -, -, hunflagged, -⟩ := h
  exact hunflagged

theorem exists_append_trimRight (cs : List Char) :
    ∃ blank, Blanks blank ∧ cs = trimRight cs ++ blank := by
  refine ⟨(cs.reverse.takeWhile isBlank).reverse, fun c hc => ?_, ?_⟩
  · exact List.all_eq_true.1 List.all_takeWhile c (List.mem_reverse.1 hc)
  · rw [trimRight, ← List.reverse_append, List.takeWhile_append_dropWhile, List.reverse_reverse]

/-- **What is left of a value stands in it.** -/
theorem cut_trim_dropImportant (value : List Char) : Cut value (trim (dropImportant value)) := by
  rw [dropImportant]
  cases hsplit : splitAscii? "!important".toList value with
  | none =>
    have hunflagged : ¬ SaysImportant value := by rw [saysImportant_iff, hsplit]; simp
    obtain ⟨left, right, heq, hleft, hright⟩ := exists_append_trim value
    refine ⟨left, right, [], by rw [List.append_nil]; exact heq, hleft, hright,
      fun h => hunflagged (h.mono ⟨left, right, ?_⟩), .inl rfl⟩
    rw [List.append_assoc]
    exact heq.symm
  | some r =>
    obtain ⟨before, after⟩ := r
    dsimp only
    have hunflagged : ¬ SaysImportant before := by
      rw [saysImportant_iff, splitAscii?_before (by decide) hsplit]
      simp
    obtain ⟨rest, hvalue, hrest⟩ := splitBy?_eq_some hsplit
    obtain ⟨flag, rfl, hflag⟩ := dropAscii?_eq_some hrest
    obtain ⟨blank, hblank, hbefore⟩ := exists_append_trimRight before
    obtain ⟨left, right, heq, hleft, hright⟩ := exists_append_trim (trimRight before)
    refine ⟨left, right ++ blank, flag ++ after, ?_, hleft, Blanks.append hright hblank,
      fun h => hunflagged (h.mono ⟨left, right ++ blank, ?_⟩), .inr ⟨flag, after, rfl, hflag⟩⟩
    · rw [hvalue]
      conv_lhs => rw [hbefore, heq]
      simp only [List.append_assoc]
    · conv_rhs => rw [hbefore, heq]
      simp only [List.append_assoc]

/-- What is left of a trimmed value is left of the value. -/
theorem Cut.of_trim {value text : List Char} (h : Cut (trim value) text) : Cut value text := by
  obtain ⟨left, right, more, heq, hleft, hright, hunflagged, hmore⟩ := h
  obtain ⟨left', right', hvalue, hleft', hright'⟩ := exists_append_trim value
  rw [heq] at hvalue
  rcases hmore with rfl | ⟨flag, after, rfl, hflag⟩
  · refine ⟨left' ++ left, right ++ right', [], ?_, Blanks.append hleft' hleft,
      Blanks.append hright hright', hunflagged, .inl rfl⟩
    simpa only [List.append_assoc, List.append_nil] using hvalue
  · refine ⟨left' ++ left, right, flag ++ (after ++ right'), ?_, Blanks.append hleft' hleft, hright,
      hunflagged, .inr ⟨flag, after ++ right', rfl, hflag⟩⟩
    simpa only [List.append_assoc] using hvalue

theorem Cut.trans {value mid text : List Char} (h : Cut value mid) (h' : Cut mid text) :
    Cut value text := by
  obtain ⟨left, right, more, rfl, hleft, hright, hunflagged, hmore⟩ := h
  obtain ⟨left', right', more', rfl, hleft', hright', hunflagged', hmore'⟩ := h'
  -- the text in the middle holds no flag, so nothing was cut from it
  obtain rfl | ⟨flag, after, rfl, hflag⟩ := hmore'
  · refine ⟨left ++ left', right' ++ right, more, ?_, Blanks.append hleft hleft',
      Blanks.append hright' hright, hunflagged', hmore⟩
    simp only [List.append_assoc, List.append_nil]
  · exact absurd ⟨flag, ⟨left' ++ text ++ right', after, by simp only [List.append_assoc]⟩, hflag⟩
      hunflagged

end Value
end SheetAudit
