import SheetAudit.Proofs.Resolution
import SheetAudit.Rules.Theming

/-!
# Contrast between single colors

Contrast is meant to be judged between single colors: a value that holds more than one color or one
reference is none.  A value is resolved by what it begins with, though, so some values resolve that
have something left over.

## Main definitions

* `IsColorText`, `IsWhole` — a color as it is written, and a value that is one color or one
  reference.
* `Leftover` — a value of which something is left over once a color has been read from it.
* `Reached` — the values that the references of a value lead to.
* `Theming.lowContrastOf`, `Theming.Judged` — the finding about a class, and the values it rests on.

## Main results

* `Leftover.not_isWhole`, `isWhole_or_leftover` — the two are opposites for what resolves.
* `Theming.judged_isWhole_iff` — **contrast is judged between single colors exactly where nothing is
  left over.**
-/

namespace SheetAudit
namespace Color

open Text Value
open Offsets (eq_openParen_of_toLower)

/-! ### Values that are one color -/

/-- A color as it is written: three, four, six or eight hex digits behind a hash, a color function
with arguments that hold no parentheses and no flag, or a name. -/
inductive IsColorText : List Char → Prop where
  | hex {digits : List Char} (count : digits.length ∈ [3, 4, 6, 8])
      (digit : ∀ d ∈ digits, isHexDigit d = true) : IsColorText ('#' :: digits)
  | function {word inner : List Char}
      (name : String.ofList (lowerAscii word) ∈ ["rgb", "rgba", "hsl", "hsla"])
      (plain : ∀ c ∈ inner, c ≠ '(' ∧ c ≠ ')') (unflagged : ¬ SaysImportant inner) :
      IsColorText (word ++ '(' :: (inner ++ [')']))
  | named {word : List Char} (name : (named? word).isSome = true) : IsColorText word

/-- One color or one reference. -/
inductive IsSingle : List Char → Prop where
  | color {text : List Char} (h : IsColorText text) : IsSingle text
  | reference {word held : List Char} (opens : lowerAscii word = "var(".toList)
      (balanced : Balanced held) : IsSingle (word ++ (held ++ [')']))

/-- Nothing or a flag, with white space around it. -/
def IsTail (cs : List Char) : Prop :=
  ∃ left flag right, cs = left ++ (flag ++ right) ∧ Blanks left ∧ (flag = [] ∨ IsFlag flag) ∧
    Blanks right

/-- Apart from white space and a flag, the value is one color or one reference. -/
def IsWhole (value : List Char) : Prop :=
  ∃ left text tail, value = left ++ (text ++ tail) ∧ Blanks left ∧ IsSingle text ∧ IsTail tail

/-- Something is left over of the value once a color has been read from it. -/
inductive Leftover : List Char → Prop where
  /-- It stands behind the reference that the value begins with. -/
  | behind {left word held after : List Char} (blank : Blanks left)
      (opens : lowerAscii word = "var(".toList) (balanced : Balanced held) (more : ¬ IsTail after) :
      Leftover (left ++ (word ++ (held ++ ')' :: after)))
  /-- The reference that the value begins with is never closed. -/
  | unclosed {left word rest : List Char} (blank : Blanks left)
      (opens : lowerAscii word = "var(".toList)
      (unclosed : ∀ held after, rest = held ++ ')' :: after → ¬ Balanced held) :
      Leftover (left ++ (word ++ rest))
  /-- It stands behind the flag of a literal. -/
  | flagged {value text flag after : List Char} (literal : reference? (trimLeft value) = none)
      (split : value = text ++ (flag ++ after)) (first : ¬ SaysImportant text)
      (flagged : IsFlag flag) (more : ¬ Blanks after) : Leftover value
  /-- Hex digits follow more than one hash. -/
  | hashes {left rest : List Char} (blank : Blanks left) : Leftover (left ++ '#' :: '#' :: rest)
  /-- A literal opens a parenthesis among the arguments of its function. -/
  | nested {value : List Char} (literal : reference? (trimLeft value) = none)
      (opens : 2 ≤ value.count '(') : Leftover value

theorem isTail_iff {cs : List Char} : IsTail cs ↔ trim cs = [] ∨ IsFlag (trim cs) := by
  constructor
  · rintro ⟨left, flag, right, rfl, hleft, rfl | hflag, hright⟩
    · exact .inl (trim_append hleft hright rfl)
    · exact .inr (by rwa [trim_append hleft hright hflag.trimmed])
  · intro h
    obtain ⟨left, right, heq, hleft, hright⟩ := exists_append_trim cs
    exact ⟨left, trim cs, right, heq, hleft, h, hright⟩

instance (cs : List Char) : Decidable (IsTail cs) :=
  decidable_of_iff (trim cs = [] ∨ IsFlag (trim cs)) isTail_iff.symm

/-! ### How a value begins -/

section

variable {left text word cs ds : List Char}

theorem isBlank_of_opens (h : lowerAscii word = "var(".toList) : ∀ c ∈ word, isBlank c = false := by
  obtain ⟨v, a, r, rfl, hv, ha, hr⟩ := exists_of_lowerAscii h
  intro c hc
  rw [← isBlank_toLower]
  simp only [List.mem_cons, List.not_mem_nil, or_false] at hc
  rcases hc with rfl | rfl | rfl | rfl
  · rw [hv]; decide
  · rw [ha]; decide
  · rw [hr]; decide
  · decide

theorem trimLeft_blanks_append (hleft : Blanks left) (hne : cs ≠ [])
    (hcs : ∀ c ∈ cs.head?, isBlank c = false) : trimLeft (left ++ (cs ++ ds)) = cs ++ ds := by
  obtain ⟨c, cs, rfl⟩ := List.exists_cons_of_ne_nil hne
  rw [trimLeft_append hleft, trimLeft, List.cons_append,
    List.dropWhile_cons_of_neg (by simp [hcs c rfl])]

theorem trimLeft_of_opens (hleft : Blanks left) (h : lowerAscii word = "var(".toList) :
    trimLeft (left ++ (word ++ cs)) = word ++ cs :=
  trimLeft_blanks_append hleft (by rintro rfl; cases h)
    fun c hc => isBlank_of_opens h c (List.mem_of_mem_head? hc)

theorem reference?_opens (h : lowerAscii word = "var(".toList) :
    reference? (word ++ cs) = some cs :=
  reference?_eq_some_iff.2 ⟨word, rfl, h⟩

end

/-! ### The spelling of colors -/

/-- The name of a color or of a color function, in some letter case. -/
structure IsWord (word : List Char) : Prop where
  length : 2 ≤ word.length
  noReference : (lowerAscii word).take 2 ≠ ['v', 'a']
  plain : ∀ c ∈ lowerAscii word, isBlank c = false ∧ c ≠ '#' ∧ c ≠ '!' ∧ c ≠ '('

section

variable {word text tail : List Char}

theorem isWord_of_all {words : List (List Char)} (h : words.all (fun w =>
      decide (2 ≤ w.length) && w.take 2 != ['v', 'a'] &&
        w.all fun c => !isBlank c && c != '#' && c != '!' && c != '(') = true)
    (hword : lowerAscii word ∈ words) : IsWord word := by
  have hcheck := List.all_eq_true.1 h _ hword
  simp only [Bool.and_eq_true, decide_eq_true_eq, List.all_eq_true, bne_iff_ne,
    Bool.not_eq_true'] at hcheck
  obtain ⟨⟨hlength, htake⟩, hall⟩ := hcheck
  refine ⟨by simpa [lowerAscii] using hlength, htake, fun c hc => ?_⟩
  obtain ⟨⟨⟨hblank, hhash⟩, hmark⟩, hparen⟩ := hall c hc
  exact ⟨hblank, hhash, hmark, hparen⟩

theorem named?_isSome_iff :
    (named? word).isSome = true ↔ lowerAscii word ∈ names.map fun e => e.1.toList := by
  have hlower : ∀ e ∈ names, lowerAscii e.1.toList = e.1.toList := by decide +kernel
  rw [named?, Option.isSome_map, List.find?_isSome, List.mem_map]
  refine exists_congr fun e => and_congr_right fun he => ?_
  rw [sameAscii, hlower e he, beq_iff_eq]

theorem isWord_of_named (h : (named? word).isSome = true) : IsWord word :=
  isWord_of_all (by decide +kernel) (named?_isSome_iff.1 h)

theorem isWord_of_function
    (h : String.ofList (lowerAscii word) ∈ ["rgb", "rgba", "hsl", "hsla"]) : IsWord word := by
  have hmem : lowerAscii word ∈ ["rgb", "rgba", "hsl", "hsla"].map String.toList :=
    List.mem_map.2 ⟨_, h, String.toList_ofList⟩
  exact isWord_of_all (by decide) hmem

theorem IsWord.not_mem (h : IsWord word) {c : Char} (hc : c ∈ ['#', '!', '(']) : c ∉ word := by
  intro hmem
  obtain ⟨-, hhash, hmark, hparen⟩ := h.plain c.toLower (List.mem_map_of_mem hmem)
  simp only [List.mem_cons, List.not_mem_nil, or_false] at hc
  rcases hc with rfl | rfl | rfl
  · exact hhash rfl
  · exact hmark rfl
  · exact hparen rfl

theorem IsWord.isBlank_eq_false (h : IsWord word) : ∀ c ∈ word, isBlank c = false := by
  intro c hc
  rw [← isBlank_toLower]
  exact (h.plain c.toLower (List.mem_map_of_mem hc)).1

theorem IsWord.reference?_eq_none (h : IsWord word) : reference? (word ++ tail) = none := by
  refine Option.eq_none_iff_forall_ne_some.2 fun rest hrest => ?_
  obtain ⟨opens, heq, hopens⟩ := reference?_eq_some_iff.1 hrest
  have hlower : lowerAscii word ++ lowerAscii tail = "var(".toList ++ lowerAscii rest := by
    rw [← hopens]
    simpa [lowerAscii] using congrArg lowerAscii heq
  have htake := congrArg (List.take 2) hlower
  have hlength : 2 ≤ (lowerAscii word).length := by simpa [lowerAscii] using h.length
  rw [List.take_append_of_le_length hlength] at htake
  exact h.noReference htake

/-- Hex digits behind a hash, or a text that begins with the name of a color or of a color
function. -/
def BeginsColor (text : List Char) : Prop :=
  (∃ digits, text = '#' :: digits ∧ digits ≠ [] ∧ ∀ d ∈ digits, isHexDigit d = true) ∨
    ∃ word rest, text = word ++ rest ∧ IsWord word

theorem BeginsColor.reference?_eq_none (h : BeginsColor text) :
    reference? (text ++ tail) = none := by
  obtain ⟨digits, rfl, -, -⟩ | ⟨word, rest, rfl, hword⟩ := h
  · rfl
  · rw [List.append_assoc]
    exact hword.reference?_eq_none

theorem BeginsColor.exists_cons (h : BeginsColor text) :
    ∃ c cs, text = c :: cs ∧ isBlank c = false := by
  obtain ⟨digits, rfl, -, -⟩ | ⟨word, rest, rfl, hword⟩ := h
  · exact ⟨'#', digits, rfl, by decide⟩
  · have hlength := hword.length
    cases word with
    | nil => exact absurd hlength (by decide)
    | cons c word => exact ⟨c, word ++ rest, rfl, hword.isBlank_eq_false c List.mem_cons_self⟩

theorem IsColorText.begins (h : IsColorText text) : BeginsColor text := by
  cases h with
  | hex count digit => exact .inl ⟨_, rfl, by rintro rfl; revert count; decide, digit⟩
  | @function word inner name _ _ => exact .inr ⟨word, _, rfl, isWord_of_function name⟩
  | named name => exact .inr ⟨text, [], (List.append_nil text).symm, isWord_of_named name⟩

theorem not_isHexDigit {c : Char} (hc : c ∈ ['#', '!', '(']) : isHexDigit c = false := by
  simp only [List.mem_cons, List.not_mem_nil, or_false] at hc
  rcases hc with rfl | rfl | rfl <;> decide

theorem not_mem_of_isHexDigit {digits : List Char} (h : ∀ d ∈ digits, isHexDigit d = true)
    {c : Char} (hc : c ∈ ['#', '!', '(']) : c ∉ digits := fun hmem =>
  Bool.false_ne_true ((not_isHexDigit hc).symm.trans (h c hmem))

theorem IsColorText.count_le (h : IsColorText text) : text.count '(' ≤ 1 := by
  cases h with
  | hex _ digit =>
    rw [List.count_cons_of_ne (by decide),
      List.count_eq_zero.2 (not_mem_of_isHexDigit digit (by simp))]
    exact Nat.zero_le 1
  | function name plain _ =>
    have hword := (isWord_of_function name).not_mem (c := '(') (by simp)
    have hinner := fun hmem => (plain '(' hmem).1 rfl
    simp [List.count_eq_zero.2 hword, List.count_eq_zero.2 hinner]
  | named name =>
    rw [List.count_eq_zero.2 ((isWord_of_named name).not_mem (by simp))]
    exact Nat.zero_le 1

theorem IsColorText.not_saysImportant (h : IsColorText text) : ¬ SaysImportant text := by
  cases h with
  | hex _ digit =>
    refine not_saysImportant_of_not_mem fun hmem => ?_
    rcases List.mem_cons.1 hmem with heq | hmem
    · exact absurd heq (by decide)
    · exact not_mem_of_isHexDigit digit (by simp) hmem
  | function name _ unflagged =>
    have hword := not_saysImportant_of_not_mem ((isWord_of_function name).not_mem (by simp))
    have hnil : ¬ SaysImportant [] := by decide
    rw [saysImportant_append_cons (by decide), saysImportant_append_cons (by decide)]
    rintro (h | h | h)
    · exact hword h
    · exact unflagged h
    · exact hnil h
  | named name => exact not_saysImportant_of_not_mem ((isWord_of_named name).not_mem (by simp))

end

/-! ### What is left over -/

section

variable {value text left word rest : List Char}

theorem IsSingle.exists_cons (h : IsSingle text) : ∃ c cs, text = c :: cs ∧ isBlank c = false := by
  cases h with
  | color h => exact h.begins.exists_cons
  | reference opens _ =>
    obtain ⟨v, a, r, rfl, -⟩ := exists_of_lowerAscii opens
    exact ⟨v, _, rfl, isBlank_of_opens opens v List.mem_cons_self⟩

/-- One hash begins a color, and digits follow. -/
theorem IsSingle.ne_hashes {tail : List Char} (h : IsSingle text) :
    text ++ tail ≠ '#' :: '#' :: rest := by
  intro heq
  cases h with
  | color h =>
    obtain ⟨digits, rfl, hne, hdigits⟩ | ⟨word, rest', rfl, hword⟩ := h.begins
    · obtain ⟨d, digits, rfl⟩ := List.exists_cons_of_ne_nil hne
      obtain rfl : d = '#' := (List.cons.inj (List.cons.inj heq).2).1
      exact absurd (hdigits '#' List.mem_cons_self) (by decide)
    · have hlength := hword.length
      cases word with
      | nil => exact absurd hlength (by decide)
      | cons c word =>
        obtain rfl : c = '#' := (List.cons.inj heq).1
        exact hword.not_mem (by simp) List.mem_cons_self
  | reference opens _ =>
    have hnone : reference? ('#' :: '#' :: rest) = none := rfl
    rw [← heq, List.append_assoc, reference?_opens opens] at hnone
    cases hnone

theorem IsWhole.trimLeft_eq (h : IsWhole value) :
    ∃ text tail, trimLeft value = text ++ tail ∧ IsSingle text ∧ IsTail tail := by
  obtain ⟨left, text, tail, rfl, hleft, hsingle, htail⟩ := h
  obtain ⟨c, cs, rfl, hc⟩ := hsingle.exists_cons
  refine ⟨c :: cs, tail, trimLeft_blanks_append hleft (List.cons_ne_nil c cs) ?_, hsingle, htail⟩
  intro d hd
  obtain rfl : c = d := Option.some.inj hd
  exact hc

/-- A value that begins with a reference is whole if the reference is all of it. -/
theorem isWhole_opens_iff (hleft : Blanks left) (hopens : lowerAscii word = "var(".toList) :
    IsWhole (left ++ (word ++ rest)) ↔
      ∃ held after, rest = held ++ ')' :: after ∧ Balanced held ∧ IsTail after := by
  constructor
  · intro h
    obtain ⟨text, tail, heq, hsingle, htail⟩ := h.trimLeft_eq
    rw [trimLeft_of_opens hleft hopens] at heq
    have href : reference? (text ++ tail) = some rest := by rw [← heq, reference?_opens hopens]
    cases hsingle with
    | color h =>
      rw [h.begins.reference?_eq_none] at href
      cases href
    | @reference word' held hopens' hheld =>
      rw [List.append_assoc, reference?_opens hopens'] at href
      refine ⟨held, tail, ?_, hheld, htail⟩
      rw [← Option.some.inj href, List.append_assoc, List.singleton_append]
  · rintro ⟨held, after, rfl, hheld, htail⟩
    refine ⟨left, word ++ (held ++ [')']), after, ?_, hleft, .reference hopens hheld, htail⟩
    simp only [List.append_assoc, List.singleton_append]

theorem IsTail.count_eq (h : IsTail rest) : rest.count '(' = 0 := by
  obtain ⟨left, flag, right, rfl, hleft, hflag, hright⟩ := h
  have hmem : '(' ∉ flag := by
    rcases hflag with rfl | hflag
    · exact List.not_mem_nil
    · intro hmem
      have hlower : '(' ∈ lowerAscii flag := List.mem_map.2 ⟨'(', hmem, rfl⟩
      rw [show lowerAscii flag = _ from hflag] at hlower
      exact absurd hlower (by decide)
  rw [List.count_append, List.count_append, hleft.count_eq_zero (by decide),
    hright.count_eq_zero (by decide), List.count_eq_zero.2 hmem]

/-- A whole value that begins with no reference is one color. -/
theorem IsWhole.exists_color (h : IsWhole value) (hliteral : reference? (trimLeft value) = none) :
    ∃ left text tail, value = left ++ (text ++ tail) ∧ Blanks left ∧ IsColorText text ∧
      IsTail tail := by
  obtain ⟨left, text, tail, rfl, hleft, hsingle, htail⟩ := h
  cases hsingle with
  | color h => exact ⟨left, text, tail, rfl, hleft, h, htail⟩
  | reference opens _ =>
    rw [List.append_assoc, trimLeft_of_opens hleft opens, reference?_opens opens] at hliteral
    cases hliteral

/-- Behind the flag of one color there is only white space. -/
theorem blanks_of_isColorText {tail front flag after : List Char} (hleft : Blanks left)
    (htext : IsColorText text) (htail : IsTail tail) (hfront : ¬ SaysImportant front)
    (hflag : IsFlag flag) (heq : left ++ (text ++ tail) = front ++ (flag ++ after)) :
    Blanks after := by
  obtain ⟨blank, flag', after', rfl, hblank, hflag', hafter'⟩ := htail
  have hunflagged : ¬ SaysImportant (left ++ (text ++ blank)) := by
    rw [hleft.saysImportant_append, hblank.append_saysImportant]
    exact htext.not_saysImportant
  have hsplit := splitAscii?_flag hfront hflag after
  rw [← heq] at hsplit
  rcases hflag' with rfl | hflag'
  · have hnot : ¬ SaysImportant (left ++ (text ++ (blank ++ after'))) := by
      rw [← List.append_assoc text, ← List.append_assoc left, hafter'.append_saysImportant]
      exact hunflagged
    rw [saysImportant_iff] at hnot
    rw [List.nil_append] at hsplit
    exact absurd (by rw [hsplit]; rfl) hnot
  · have hsplit' := splitAscii?_flag hunflagged hflag' after'
    simp only [List.append_assoc] at hsplit'
    rw [hsplit] at hsplit'
    obtain ⟨-, rfl⟩ := Prod.mk.inj (Option.some.inj hsplit')
    exact hafter'

/-- A value with something left over is not whole. -/
theorem Leftover.not_isWhole (h : Leftover value) : ¬ IsWhole value := by
  intro hwhole
  cases h with
  | behind blank opens balanced more =>
    obtain ⟨held, after, heq, hheld, htail⟩ := (isWhole_opens_iff blank opens).1 hwhole
    have htake := hheld.takeArguments_eq after
    rw [← heq, balanced.takeArguments_eq] at htake
    obtain ⟨-, rfl⟩ := Prod.mk.inj htake
    exact more htail
  | unclosed blank opens unclosed =>
    obtain ⟨held, after, heq, hheld, -⟩ := (isWhole_opens_iff blank opens).1 hwhole
    exact unclosed held after heq hheld
  | flagged literal split first flagged more =>
    obtain ⟨left, text, tail, rfl, hleft, htext, htail⟩ := hwhole.exists_color literal
    exact more (blanks_of_isColorText hleft htext htail first flagged split)
  | @hashes left rest blank =>
    obtain ⟨text, tail, heq, hsingle, -⟩ := hwhole.trimLeft_eq
    rw [trimLeft_append blank, trimLeft, List.dropWhile_cons_of_neg (by decide)] at heq
    exact hsingle.ne_hashes heq.symm
  | nested literal opens =>
    obtain ⟨left, text, tail, rfl, hleft, htext, htail⟩ := hwhole.exists_color literal
    rw [List.count_append, List.count_append, hleft.count_eq_zero (by decide),
      htail.count_eq] at opens
    have := htext.count_le
    omega

/-- Behind one hash there is another one, or what `hex?` reads is written as a color. -/
theorem isColorText_of_hex? (htrim : trim text = text) (hhead : text.head? = some '#')
    (h : (hex? (lowerAscii text)).isSome = true) :
    IsColorText text ∨ ∃ rest, text = '#' :: '#' :: rest := by
  obtain ⟨digits, rfl⟩ : ∃ digits, text = '#' :: digits := by
    cases text with
    | nil => cases hhead
    | cons c digits => exact ⟨digits, by rw [Option.some.inj hhead]⟩
  by_cases hashes : ∃ rest, digits = '#' :: rest
  · obtain ⟨rest, rfl⟩ := hashes
    exact .inr ⟨rest, rfl⟩
  have hdrop : ('#' :: lowerAscii digits).dropWhile (· == '#') = lowerAscii digits := by
    rw [List.dropWhile_cons_of_pos (by decide)]
    cases digits with
    | nil => rfl
    | cons d digits =>
      refine List.dropWhile_cons_of_neg fun hd => hashes ⟨digits, ?_⟩
      rw [eq_of_toLower (eq_of_beq hd) (by decide)]
  have hlower : lowerAscii ('#' :: digits) = '#' :: lowerAscii digits := rfl
  rw [hex?, trim_lowerAscii, htrim, hlower, hdrop] at h
  split at h
  · cases h
  · next hall =>
    refine .inl (.hex ?_ fun d hd => ?_)
    · rw [← List.length_map Char.toLower]
      change (lowerAscii digits).length ∈ [3, 4, 6, 8]
      split at h <;> simp_all
    · have hdigit : isHexDigit d.toLower = true := by
        rw [Bool.not_eq_true, Bool.not_eq_false'] at hall
        exact List.all_eq_true.1 hall _ (List.mem_map_of_mem hd)
      rwa [isHexDigit_toLower] at hdigit

theorem dropFolded?_append {word : List Char} (h : lowerAscii word = word) (cs : List Char) :
    dropFolded? word (word ++ cs) = some cs := by
  induction word with
  | nil => cases cs <;> rfl
  | cons w word ih =>
    obtain ⟨hw, hword⟩ := List.cons.inj h
    rw [List.cons_append, dropFolded?, if_pos (by simp [folds, hw]), ih hword]

/-- Behind the name of a color function there may be an `a`, in either letter case. -/
theorem exists_transparency (cs : List Char) :
    ∃ a, cs = a ++ (dropFolded? ['a'] cs).getD cs ∧ (a = [] ∨ lowerAscii a = ['a']) := by
  cases hdrop : dropFolded? ['a'] cs with
  | none => exact ⟨[], rfl, .inl rfl⟩
  | some after =>
    cases cs with
    | nil => cases hdrop
    | cons c cs =>
      rw [dropFolded?] at hdrop
      split at hdrop
      · next hfolds =>
        have hc : c.toLower = 'a' := by simpa [folds] using hfolds
        refine ⟨[c], ?_, .inr (by rw [lowerAscii, List.map_singleton, hc])⟩
        cases cs <;> exact congrArg (c :: ·) (Option.some.inj hdrop)
      · cases hdrop

theorem exists_functionName {word : List Char}
    (hword : String.ofList (lowerAscii word) ∈ ["rgb", "hsl"]) (tail : List Char) :
    ∃ name, word ++ tail = name ++ (dropFolded? ['a'] tail).getD tail ∧
      String.ofList (lowerAscii name) ∈ ["rgb", "rgba", "hsl", "hsla"] := by
  obtain ⟨a, htail, ha⟩ := exists_transparency tail
  refine ⟨word ++ a, by rw [List.append_assoc, ← htail], ?_⟩
  rw [lowerAscii, List.map_append, String.ofList_append]
  change String.ofList (lowerAscii word) ++ String.ofList (lowerAscii a) ∈ _
  simp only [List.mem_cons, List.not_mem_nil, or_false] at hword
  rcases hword with hword | hword <;> rcases ha with rfl | ha
  · rw [hword]; decide
  · rw [hword, ha]; decide
  · rw [hword]; decide
  · rw [hword, ha]; decide

/-- The name of a color function, and what follows it. -/
theorem functionName?_eq_some {cs : List Char} {rgb : Bool}
    (hbegins : "rgb".toList <+: cs ∨ "hsl".toList <+: cs)
    (h : functionName? cs = some (rgb, rest)) :
    ∃ name, cs = name ++ rest ∧
      String.ofList (lowerAscii name) ∈ ["rgb", "rgba", "hsl", "hsla"] := by
  rcases hbegins with ⟨tail, rfl⟩ | ⟨tail, rfl⟩
  · rw [functionName?, @dropFolded?_append "rgb".toList rfl] at h
    obtain ⟨-, rfl⟩ := Prod.mk.inj (Option.some.inj h)
    exact exists_functionName (by decide) tail
  · have hrgb : dropFolded? "rgb".toList ("hsl".toList ++ tail) = none := rfl
    rw [functionName?, hrgb, @dropFolded?_append "hsl".toList rfl] at h
    obtain ⟨-, rfl⟩ := Prod.mk.inj (Option.some.inj h)
    exact exists_functionName (by decide) tail

theorem inParens?_eq_some {cs inner : List Char} (h : inParens? cs = some inner) :
    cs = '(' :: (inner ++ [')']) ∧ ')' ∉ inner := by
  unfold inParens? at h
  split at h
  · split at h
    · next back heq =>
      split at h
      · cases h
      · next hnot =>
        obtain rfl := Option.some.inj h
        refine ⟨?_, by simpa using hnot⟩
        rw [← List.reverse_cons, ← heq, List.reverse_reverse]
    · cases h
  · cases h

/-- What `function?` reads is written as a color, or has a parenthesis among its arguments. -/
theorem isColorText_of_function? (htrim : trim text = text) (hunflagged : ¬ SaysImportant text)
    (hbegins : "rgb".toList <+: lowerAscii text ∨ "hsl".toList <+: lowerAscii text)
    (h : (function? (lowerAscii text)).isSome = true) : IsColorText text ∨ 2 ≤ text.count '(' := by
  obtain ⟨c, h⟩ := Option.isSome_iff_exists.1 h
  rw [function?, trim_lowerAscii, htrim] at h
  obtain ⟨⟨rgb, rest⟩, hname, h⟩ := Option.bind_eq_some_iff.1 h
  obtain ⟨inner, hinner, -⟩ := Option.bind_eq_some_iff.1 h
  obtain ⟨name, htext, hmem⟩ := functionName?_eq_some hbegins hname
  obtain ⟨rfl, hclose⟩ := inParens?_eq_some hinner
  -- the text is written in the same way, in its own letter case
  obtain ⟨word, behind, rfl, hword, hbehind⟩ := List.map_eq_append_iff.1 htext
  obtain ⟨p, behind, rfl, hp, hbehind⟩ := List.map_eq_cons_iff.1 hbehind
  obtain ⟨held, last, rfl, hheld, hlast⟩ := List.map_eq_append_iff.1 hbehind
  obtain ⟨q, end', rfl, hq, hnil⟩ := List.map_eq_cons_iff.1 hlast
  obtain rfl := List.map_eq_nil_iff.1 hnil
  obtain rfl : p = '(' := eq_of_toLower hp (by decide)
  obtain rfl : q = ')' := eq_of_toLower hq (by decide)
  by_cases hopen : '(' ∈ held
  · refine .inr ?_
    have := List.count_pos_iff.2 hopen
    simp only [List.count_append, List.count_cons_self]
    omega
  · refine .inl (.function ?_ (fun c hc => ⟨?_, ?_⟩) fun h => hunflagged (h.mono ?_))
    · change lowerAscii word = name at hword
      rwa [← hword, lowerAscii_lowerAscii] at hmem
    · rintro rfl
      exact hopen hc
    · rintro rfl
      exact hclose (hheld ▸ List.mem_map.2 ⟨')', hc, rfl⟩)
    · exact ⟨word ++ ['('], [')'], by simp⟩

/-- What `parse?` reads is written as a color, or has more hashes or parentheses than one. -/
theorem isColorText_of_parse? {c : Rgb} (h : parse? value = some c) :
    IsColorText (trim (dropImportant value)) ∨
      (∃ rest, trim (dropImportant value) = '#' :: '#' :: rest) ∨
      2 ≤ (trim (dropImportant value)).count '(' := by
  have htrim := trim_trim (dropImportant value)
  have hunflagged := (cut_trim_dropImportant value).not_saysImportant
  rw [parse?] at h
  generalize trim (dropImportant value) = text at h htrim hunflagged ⊢
  split at h
  · next hhead =>
    have hhash : text.head? = some '#' := by
      cases text with
      | nil => cases hhead
      | cons d text => exact congrArg some (eq_of_toLower (eq_of_beq hhead) (by decide))
    rcases isColorText_of_hex? htrim hhash (by rw [h]; rfl) with htext | hhashes
    · exact .inl htext
    · exact .inr (.inl hhashes)
  split at h
  · next hbegins =>
    rw [Bool.or_eq_true, List.isPrefixOf_iff_prefix, List.isPrefixOf_iff_prefix] at hbegins
    rcases isColorText_of_function? htrim hunflagged hbegins (by rw [h]; rfl) with htext | hcount
    · exact .inl htext
    · exact .inr (.inr hcount)
  · refine .inl (.named ?_)
    rw [named?_isSome_iff, ← lowerAscii_lowerAscii, ← named?_isSome_iff, h]
    rfl

/-- A value from which a color is read is whole, or something is left over of it. -/
theorem isWhole_or_leftover (hliteral : reference? (trimLeft value) = none) (hcut : Cut value text)
    (htext : IsColorText text ∨ (∃ rest, text = '#' :: '#' :: rest) ∨ 2 ≤ text.count '(') :
    IsWhole value ∨ Leftover value := by
  obtain ⟨left, right, more, rfl, hleft, hright, hunflagged, hmore⟩ := hcut
  obtain htext | ⟨rest, rfl⟩ | hcount := htext
  · obtain rfl | ⟨flag, after, rfl, hflag⟩ := hmore
    · exact .inl ⟨left, text, right ++ [], rfl, hleft, .color htext, right, [], [], rfl, hright,
        .inl rfl, nofun⟩
    · by_cases hafter : Blanks after
      · exact .inl ⟨left, text, right ++ (flag ++ after), rfl, hleft, .color htext, right, flag,
          after, rfl, hright, .inr hflag, hafter⟩
      · have hfront : ¬ SaysImportant (left ++ (text ++ right)) := by
          rw [hleft.saysImportant_append, hright.append_saysImportant]
          exact hunflagged
        exact .inr (.flagged hliteral (by simp only [List.append_assoc]) hfront hflag hafter)
  · exact .inr (.hashes hleft)
  · refine .inr (.nested hliteral ?_)
    rw [List.count_append, List.count_append]
    omega

/-- A value that begins with a reference is whole, or something is left over of it. -/
theorem isWhole_or_leftover_of_reference (h : (reference? (trimLeft value)).isSome = true) :
    IsWhole value ∨ Leftover value := by
  obtain ⟨rest, hrest⟩ := Option.isSome_iff_exists.1 h
  obtain ⟨word, heq, hopens⟩ := reference?_eq_some_iff.1 hrest
  have hleft : Blanks (value.takeWhile isBlank) := List.all_eq_true.1 List.all_takeWhile
  have hvalue : value = value.takeWhile isBlank ++ (word ++ rest) := by
    rw [← heq]
    exact List.takeWhile_append_dropWhile.symm
  rw [hvalue, isWhole_opens_iff hleft hopens]
  by_cases hclosed : ∃ held after, rest = held ++ ')' :: after ∧ Balanced held
  · obtain ⟨held, after, rfl, hheld⟩ := hclosed
    by_cases htail : IsTail after
    · exact .inl ⟨held, after, rfl, hheld, htail⟩
    · exact .inr (.behind hleft hopens hheld htail)
  · refine .inr (.unclosed hleft hopens fun held after heq hheld => ?_)
    exact hclosed ⟨held, after, heq, hheld⟩

end

/-! ### Values that are reached -/

/-- The resolution goes on from a reference to another value. -/
def Follows (declared : List Variable) (value image : List Char) : Prop :=
  (reference? value).isSome = true ∧ next? declared value = some image

/-- The value itself, or a declared value that its references lead to. -/
inductive Reached (declared : List Variable) (value : List Char) : List Char → Prop where
  | self : Reached declared value value
  | declared {reference name : List Char} {v : Variable}
      (path : Relation.ReflTransGen (Follows declared) (trim (dropImportant value)) reference)
      (refers : (reference? reference).isSome = true)
      (names : (references reference).head? = some name) (chosen : Chosen declared name v) :
      Reached declared value v.value.toList

section

variable {declared : List Variable} {value image looked : List Char} {c : Rgb} {n : Nat}

theorem exists_resolveIn_of_follows (hfollows : Follows declared value image)
    (h : resolveIn declared n value = some c) : ∃ m, resolveIn declared m image = some c := by
  obtain ⟨href, hnext⟩ := hfollows
  cases n with
  | zero =>
    rw [resolveIn_zero href] at h
    cases h
  | succ n =>
    rw [resolveIn_succ href, hnext] at h
    exact ⟨n, h⟩

theorem exists_resolveIn_of_path
    (hpath : Relation.ReflTransGen (Follows declared) value image)
    (h : resolveIn declared n value = some c) : ∃ m, resolveIn declared m image = some c := by
  induction hpath with
  | refl => exact ⟨n, h⟩
  | tail _ hfollows ih =>
    obtain ⟨m, hm⟩ := ih
    exact exists_resolveIn_of_follows hfollows hm

/-- A value that resolves is whole exactly if nothing is left over of it. -/
theorem isWhole_iff_not_leftover
    (hlooked : looked = trim value ∨ looked = trim (dropImportant value))
    (h : resolveIn declared n looked = some c) : IsWhole value ↔ ¬ Leftover value := by
  refine ⟨fun hwhole hleftover => hleftover.not_isWhole hwhole, fun hnot => ?_⟩
  refine Or.resolve_right ?_ hnot
  cases href : reference? (trimLeft value) with
  | some rest => exact isWhole_or_leftover_of_reference (by rw [href]; rfl)
  | none =>
    obtain ⟨left, more, hvalue, hleft⟩ :
        ∃ left more, value = left ++ (looked ++ more) ∧ Blanks left := by
      obtain rfl | rfl := hlooked
      · obtain ⟨left, right, heq, hleft, -⟩ := exists_append_trim value
        exact ⟨left, right, heq, hleft⟩
      · obtain ⟨left, right, more, heq, hleft, -⟩ := cut_trim_dropImportant value
        exact ⟨left, right ++ more, heq, hleft⟩
    have hnone : reference? looked = none := by
      refine Option.eq_none_iff_forall_ne_some.2 fun rest hrest => ?_
      obtain ⟨word, rfl, hopens⟩ := reference?_eq_some_iff.1 hrest
      rw [hvalue, List.append_assoc, trimLeft_of_opens hleft hopens,
        reference?_opens hopens] at href
      cases href
    rw [resolveIn_of_none hnone] at h
    have hcut : Cut value (trim (dropImportant looked)) := by
      obtain rfl | rfl := hlooked
      · exact (cut_trim_dropImportant _).of_trim
      · exact (cut_trim_dropImportant value).trans (cut_trim_dropImportant _)
    exact isWhole_or_leftover href hcut (isColorText_of_parse? h)

theorem Reached.isWhole_iff (h : resolve declared value = some c)
    (hreached : Reached declared value image) :
    IsWhole image ↔ ¬ Leftover image := by
  cases hreached with
  | self => exact isWhole_iff_not_leftover (.inr rfl) h
  | @declared reference name v path refers names chosen =>
    obtain ⟨m, hm⟩ := exists_resolveIn_of_path path h
    have hnext : Follows declared reference (trim v.value.toList) := by
      refine ⟨refers, ?_⟩
      rw [next?, names, Option.bind_some, chosen?_eq_some_iff.2 ⟨v, chosen, rfl⟩]
    obtain ⟨k, hk⟩ := exists_resolveIn_of_follows hnext hm
    exact isWhole_iff_not_leftover (.inl rfl) hk

end

end Color

namespace Theming

open Text Color

/-! ### Classes that are judged -/

/-- The findings about the contrast of one class. -/
def lowContrastOf (settings : ColorSettings) (s : Sheet) (c : StyledClass) : List Issue :=
  lowContrast settings { s with classes := [c] }

/-- The finding about a class rests on its last text color, its last background, and the declared
values that their references lead to. -/
inductive Judged (s : Sheet) (c : StyledClass) : List Char → Prop where
  | text {d : Declaration} {value : List Char}
      (last : IsLast (fun d => sameAscii d.name.toList "color".toList = true) c.declarations d)
      (reached : Reached s.customProperties d.value.toList value) : Judged s c value
  | background {d : Declaration} {value : List Char}
      (last : IsLast (fun d => d.name = "background-color" ∨ d.name = "background")
        c.declarations d)
      (reached : Reached s.customProperties d.value.toList value) : Judged s c value

section

variable {settings : ColorSettings} {s : Sheet} {c : StyledClass}

theorem lowContrast_eq_flatMap (settings : ColorSettings) (s : Sheet) :
    lowContrast settings s = s.classes.flatMap (lowContrastOf settings s) := by
  rw [lowContrast, List.filterMap_eq_flatMap_toList]
  refine List.flatMap_congr fun c _ => ?_
  rw [lowContrastOf, lowContrast, List.filterMap_eq_flatMap_toList, List.flatMap_singleton]
  rfl

/-- Both colors of a class are known where the class is reported. -/
theorem exists_resolve_of_lowContrastOf (h : lowContrastOf settings s c ≠ []) :
    ∃ text background x y,
      IsLast (fun d => sameAscii d.name.toList "color".toList = true) c.declarations text ∧
      resolve s.customProperties text.value.toList = some x ∧
      IsLast (fun d => d.name = "background-color" ∨ d.name = "background") c.declarations
        background ∧
      resolve s.customProperties background.value.toList = some y := by
  have hsome : contrast? s.customProperties c ≠ none := by
    intro hnone
    refine h ?_
    rw [lowContrastOf, lowContrast, List.filterMap_cons, hnone]
    rfl
  obtain ⟨ratio, hratio⟩ := Option.ne_none_iff_exists'.1 hsome
  obtain ⟨text, htext, hratio⟩ := Option.bind_eq_some_iff.1 hratio
  obtain ⟨x, hx, hratio⟩ := Option.bind_eq_some_iff.1 hratio
  obtain ⟨background, hbackground, hratio⟩ := Option.bind_eq_some_iff.1 hratio
  obtain ⟨y, hy, -⟩ := Option.bind_eq_some_iff.1 hratio
  refine ⟨text, background, x, y, find?_reverse_eq_some_iff.1 htext, hx, ?_, hy⟩
  simpa using find?_reverse_eq_some_iff.1 hbackground

theorem Judged.isWhole_iff (h : lowContrastOf settings s c ≠ []) {value : List Char}
    (hjudged : Judged s c value) : IsWhole value ↔ ¬ Leftover value := by
  obtain ⟨text, background, x, y, htext, hx, hbackground, hy⟩ := exists_resolve_of_lowContrastOf h
  cases hjudged with
  | text last reached =>
    obtain rfl := IsLast.unique htext last
    exact reached.isWhole_iff hx
  | background last reached =>
    obtain rfl := IsLast.unique hbackground last
    exact reached.isWhole_iff hy

/-- **Contrast is judged between single colors exactly where nothing is left over.** -/
theorem judged_isWhole_iff (settings : ColorSettings) (s : Sheet) :
    lowContrast settings s = s.classes.flatMap (lowContrastOf settings s) ∧
    ((∀ c ∈ s.classes, lowContrastOf settings s c ≠ [] →
        ∀ value, Judged s c value → IsWhole value) ↔
      ∀ c ∈ s.classes, lowContrastOf settings s c ≠ [] →
        ∀ value, Judged s c value → ¬ Leftover value) := by
  refine ⟨lowContrast_eq_flatMap settings s, ?_⟩
  refine forall₂_congr fun c _ => forall_congr' fun hreported => ?_
  refine forall₂_congr fun value hvalue => ?_
  exact hvalue.isWhole_iff hreported

/-- A background with an image behind its color is judged by the color alone. -/
theorem judged_image :
    ∃ s : Sheet, ∃ c ∈ s.classes, ∃ background : Declaration,
      s.customProperties.map (fun v => (v.name, v.value)) = [("--bg", "#000")] ∧
      c.declarations.map (fun d => (d.name, d.value)) =
        [("color", "#000"), ("background", "var(--bg) url(x.png)")] ∧
      c.declarations.getLast? = some background ∧
      lowContrastOf {} s c ≠ [] ∧ Judged s c background.value.toList ∧
      ¬ IsWhole background.value.toList := by
  let bg : Variable := ⟨"--bg", "#000", .color, ":root", .start⟩
  let text : Declaration := ⟨"color", "#000", .start⟩
  let background : Declaration := ⟨"background", "var(--bg) url(x.png)", .start⟩
  let c : StyledClass := ⟨"a", .utility, ".a", [text, background], none, .start⟩
  let s : Sheet := { path := "a.css", customProperties := [bg], classes := [c] }
  refine ⟨s, c, List.mem_singleton_self c, background, rfl, rfl, rfl, ?_, ?_, ?_⟩
  · have hcount : (lowContrastOf {} s c).length = 1 := by decide +kernel
    exact List.ne_nil_of_length_eq_add_one hcount
  · exact .background ⟨[text], [], rfl, by decide, nofun⟩ .self
  · have hvalue : background.value.toList =
        [] ++ ("var(".toList ++ ("--bg".toList ++ ')' :: " url(x.png)".toList)) := by decide
    rw [hvalue]
    exact Leftover.not_isWhole (.behind (by decide) (by decide) (by decide) (by decide))

end

end Theming
end SheetAudit
