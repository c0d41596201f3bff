import SheetAudit.Proofs.Recognition

/-!
# Values that are colors

Whether a value is a color is said here of the texts themselves: which part of it is left when its
flag goes, and which texts are colors in full.

## Main definitions

* `Unflagged` — a value and its text up to the flag.
* `IsColorValue`, `IsColor` — a text that is a color, and a value that is nothing else.

## Main results

* `unflagged_iff` — a value has one text up to its flag.
* `isColorValue_iff` — the readers of colors, in small letters, accept what is a color in full.
* `isColor_iff` — **the test for colors finds the values that are colors.**
-/

namespace SheetAudit
namespace Value

open Text
open Color (BeginsColor IsWord isWord_of_all isWord_of_named)
open Offsets (dropAscii?_eq_some splitBy?_eq_some)

/-! ### Values up to their flags -/

/-- The text of a value up to its first flag, if it has one, and to the blanks in front of it. -/
inductive Unflagged : List Char → List Char → Prop where
  | plain {value : List Char} (unflagged : ¬ SaysImportant value) : Unflagged value value
  | flagged {text blank flag after : List Char} (first : ¬ SaysImportant text)
      (ends : ∀ c ∈ text.getLast?, isBlank c = false) (blanks : Blanks blank)
      (flagged : IsFlag flag) : Unflagged (text ++ (blank ++ (flag ++ after))) text

section

variable {value text cs : List Char}

theorem trimRight_eq_self (h : ∀ c ∈ cs.getLast?, isBlank c = false) : trimRight cs = cs := by
  rcases List.eq_nil_or_concat cs with rfl | ⟨front, c, rfl⟩
  · rfl
  · have hc : isBlank c = false := h c (by simp)
    simp [trimRight, hc]

theorem isBlank_last_trimRight (cs : List Char) :
    ∀ c ∈ (trimRight cs).getLast?, isBlank c = false := by
  intro c hc
  rw [trimRight, List.getLast?_reverse] at hc
  exact head?_dropWhile _ c hc

theorem Unflagged.dropImportant_eq (h : Unflagged value text) : dropImportant value = text := by
  cases h with
  | plain unflagged =>
    have hsplit : splitAscii? "!important".toList value = none := by
      rw [← Option.not_isSome_iff_eq_none, ← saysImportant_iff]
      exact unflagged
    rw [dropImportant, hsplit]
  | @flagged text blank flag after first ends blanks flagged =>
    have hfront : ¬ SaysImportant (text ++ blank) := mt blanks.append_saysImportant.1 first
    rw [← List.append_assoc, dropImportant, splitAscii?_flag hfront flagged]
    dsimp only
    rw [trimRight_append blanks, trimRight_eq_self ends]

theorem unflagged_dropImportant (value : List Char) : Unflagged value (dropImportant value) := by
  rw [dropImportant]
  cases hsplit : splitAscii? "!important".toList value with
  | none =>
    refine .plain ?_
    rw [saysImportant_iff, hsplit]
    simp
  | some r =>
    obtain ⟨before, after⟩ := r
    dsimp only
    have hunflagged : ¬ SaysImportant before := by
      rw [saysImportant_iff, splitAscii?_before (by decide) hsplit]
      simp
    obtain ⟨rest, hvalue, hrest⟩ := splitBy?_eq_some hsplit
    obtain ⟨flag, rfl, hflag⟩ := dropAscii?_eq_some hrest
    -- the blanks in front of the flag go with it
    obtain ⟨blank, hblank, hbefore⟩ := exists_append_trimRight before
    have hfirst : ¬ SaysImportant (trimRight before) := by
      intro h
      exact hunflagged (h.mono ⟨[], blank, hbefore.symm⟩)
    have hall : value = trimRight before ++ (blank ++ (flag ++ after)) := by
      rw [hvalue]
      conv_lhs => rw [hbefore, List.append_assoc]
    rw [hall]
    exact .flagged hfirst (isBlank_last_trimRight before) hblank hflag

/-- A value has one text up to its flag. -/
theorem unflagged_iff : Unflagged value text ↔ dropImportant value = text :=
  ⟨Unflagged.dropImportant_eq, fun h => h ▸ unflagged_dropImportant value⟩

end

/-! ### Values that are colors -/

/-- A color in full: three to eight hex digits behind a hash, a color function with whatever its
parentheses hold, or a name. -/
inductive IsColorValue : List Char → Prop where
  | hex {digits : List Char} (digit : ∀ d ∈ digits, isHexDigit d = true)
      (least : 3 ≤ digits.length) (most : digits.length ≤ 8) : IsColorValue ('#' :: digits)
  | function {name blank inner : List Char}
      (called : lowerAscii name ∈ functionNames.map String.toList) (blanks : Blanks blank) :
      IsColorValue (name ++ (blank ++ '(' :: (inner ++ [')'])))
  | named {word : List Char} (known : lowerAscii word ∈ Color.names.map fun e => e.1.toList) :
      IsColorValue word

/-- Apart from blanks at its ends and what its flag cuts off, a value is a color. -/
def IsColor (value : List Char) : Prop :=
  ∃ left text right, Unflagged value (left ++ (text ++ right)) ∧ Blanks left ∧
    IsColorValue text ∧ Blanks right

section

variable {value text : List Char}

theorem getLast?_lowerAscii_eq_paren (cs : List Char) :
    (lowerAscii cs).getLast? = some ')' ↔ cs.getLast? = some ')' := by
  rw [lowerAscii, List.getLast?_map, Option.map_eq_some_iff]
  constructor
  · rintro ⟨c, hc, hparen⟩
    rw [hc, eq_of_toLower hparen (by decide)]
  · exact fun h => ⟨')', h, rfl⟩

theorem takeHex?_lowerAscii_iff : ((takeHex? (lowerAscii text)).any (·.2.isEmpty)) = true ↔
    ∃ digits, text = '#' :: digits ∧ (∀ d ∈ digits, isHexDigit d = true) ∧ 3 ≤ digits.length ∧
      digits.length ≤ 8 := by
  rw [Option.any_eq_true]
  constructor
  · rintro ⟨⟨hex, rest⟩, htake, hrest⟩
    obtain ⟨digits, htext, -, hdigits, hleast, hmost, -⟩ := takeHex?_eq_some_iff.1 htake
    obtain rfl : rest = [] := List.isEmpty_iff.1 hrest
    rw [List.append_nil] at htext
    obtain ⟨hash, written, rfl, heq, rfl⟩ := List.map_eq_cons_iff.1 htext
    obtain rfl : hash = '#' := eq_of_toLower heq (by decide)
    rw [List.length_map] at hleast hmost
    refine ⟨written, rfl, fun d hd => ?_, hleast, hmost⟩
    rw [← isHexDigit_toLower]
    exact hdigits _ (List.mem_map_of_mem hd)
  · rintro ⟨digits, rfl, hdigits, hleast, hmost⟩
    refine ⟨('#' :: lowerAscii digits, []), takeHex?_eq_some_iff.2 ⟨lowerAscii digits, ?_, rfl, ?_,
      by simpa [lowerAscii] using hleast, by simpa [lowerAscii] using hmost, rfl⟩, rfl⟩
    · rw [List.append_nil]
      rfl
    · intro d hd
      obtain ⟨c, hc, rfl⟩ := List.mem_map.1 hd
      rw [isHexDigit_toLower]
      exact hdigits c hc

theorem isSome_called?_iff {word cs : List Char} : (called? word cs).isSome = true ↔
    ∃ rest, dropFolded? word cs = some rest ∧
      ((afterName rest).dropWhile isBlank).head? = some '(' := by
  rw [Option.isSome_iff_exists]
  constructor
  · rintro ⟨l, hl⟩
    obtain ⟨rest, hdrop, hopens, -⟩ := called?_eq_some_iff.1 hl
    exact ⟨rest, hdrop, hopens⟩
  · rintro ⟨rest, hdrop, hopens⟩
    exact ⟨_, called?_eq_some_iff.2 ⟨rest, hdrop, hopens, rfl⟩⟩

/-- A color function is found where it is called by one of its names, in small letters. -/
theorem colorFunction?_of_mem {word blank rest : List Char}
    (hword : word ∈ functionNames.map String.toList) (hblank : Blanks blank) :
    (colorFunction? (word ++ (blank ++ '(' :: rest))).isSome = true := by
  have hopens : ((blank ++ '(' :: rest).dropWhile isBlank).head? = some '(' := by
    rw [List.dropWhile_append_of_pos hblank]
    rfl
  -- neither a blank nor a parenthesis goes on with the name
  have hnone : dropFolded? ['a'] (blank ++ '(' :: rest) = none := by
    cases blank with
    | nil => rfl
    | cons c blank =>
      have hc : c.toLower ∉ ['a'] :=
        toLower_not_mem_of_isBlank (by decide) (hblank c List.mem_cons_self)
      rw [List.cons_append, dropFolded?, if_neg]
      simpa [folds] using hc
  have hplain : afterName (blank ++ '(' :: rest) = blank ++ '(' :: rest := by
    rw [afterName, hnone, Option.getD_none]
  generalize blank ++ '(' :: rest = tail at *
  have hrgb {behind : List Char} (hdrop : dropFolded? "rgb".toList (word ++ tail) = some behind)
      (hbehind : afterName behind = tail) : (called? "rgb".toList (word ++ tail)).isSome = true :=
    isSome_called?_iff.2 ⟨behind, hdrop, by rwa [hbehind]⟩
  have hhsl {behind : List Char} (hdrop : dropFolded? "hsl".toList (word ++ tail) = some behind)
      (hbehind : afterName behind = tail) : (called? "hsl".toList (word ++ tail)).isSome = true :=
    isSome_called?_iff.2 ⟨behind, hdrop, by rwa [hbehind]⟩
  have htransparent : afterName ('a' :: tail) = tail := rfl
  rw [colorFunction?_eq, Option.orElse_eq_or, Option.isSome_or, Bool.or_eq_true]
  simp only [functionNames, List.map_cons, List.map_nil, List.mem_cons, List.not_mem_nil,
    or_false] at hword
  rcases hword with rfl | rfl | rfl | rfl | rfl | rfl
  · exact .inl (hrgb rfl hplain)
  · exact .inl (hrgb rfl htransparent)
  · exact .inr (hhsl rfl hplain)
  · exact .inr (hhsl rfl htransparent)
  · exact .inr (hhsl rfl hplain)
  · exact .inr (hhsl rfl htransparent)

theorem isColorFunction_iff : ((colorFunction? (lowerAscii text)).isSome &&
    (lowerAscii text).getLast? == some ')') = true ↔
    ∃ name blank inner, text = name ++ (blank ++ '(' :: (inner ++ [')'])) ∧
      lowerAscii name ∈ functionNames.map String.toList ∧ Blanks blank := by
  rw [Bool.and_eq_true, beq_iff_eq, getLast?_lowerAscii_eq_paren, colorFunction?_lowerAscii]
  constructor
  · rintro ⟨hfunction, hlast⟩
    obtain ⟨l, hl⟩ := Option.isSome_iff_exists.1 hfunction
    have hmem := mem_functionNames_of_colorFunction? hl
    obtain ⟨name, blank, rest, rfl, hblank, rfl⟩ := exists_append_of_colorFunction? hl
    rw [← List.append_assoc] at hlast
    rcases List.eq_nil_or_concat rest with rfl | ⟨inner, d, rfl⟩
    · -- the parenthesis that opens is not the one that closes
      rw [List.getLast?_concat] at hlast
      exact absurd hlast (by decide)
    · rw [List.concat_eq_append, ← List.cons_append, ← List.append_assoc,
        List.getLast?_concat] at hlast
      obtain rfl : d = ')' := Option.some.inj hlast
      refine ⟨name, blank, inner, by rw [List.concat_eq_append], ?_, hblank⟩
      exact List.mem_map.2 ⟨_, hmem, String.toList_ofList⟩
  · rintro ⟨name, blank, inner, rfl, hname, hblank⟩
    constructor
    · rw [← colorFunction?_lowerAscii, lowerAscii, List.map_append, List.map_append]
      refine colorFunction?_of_mem hname fun c hc => ?_
      obtain ⟨d, hd, rfl⟩ := List.mem_map.1 hc
      rw [isBlank_toLower]
      exact hblank d hd
    · rw [← List.append_assoc, ← List.cons_append, ← List.append_assoc, List.getLast?_concat]

theorem isWord_of_called {name : List Char}
    (h : lowerAscii name ∈ functionNames.map String.toList) : IsWord name :=
  isWord_of_all (by decide) h

theorem isWord_of_known {word : List Char}
    (h : lowerAscii word ∈ Color.names.map fun e => e.1.toList) : IsWord word :=
  isWord_of_named (Color.named?_isSome_iff.2 h)

theorem IsColorValue.begins (h : IsColorValue text) : BeginsColor text := by
  cases h with
  | hex digit least _ =>
    refine .inl ⟨_, rfl, ?_, digit⟩
    rintro rfl
    exact absurd least (by decide)
  | function called _ => exact .inr ⟨_, _, rfl, isWord_of_called called⟩
  | named known => exact .inr ⟨text, [], (List.append_nil text).symm, isWord_of_known known⟩

theorem IsColorValue.isBlank_last (h : IsColorValue text) :
    ∀ c ∈ text.getLast?, isBlank c = false := by
  intro c hc
  cases h with
  | hex digit least most =>
    rcases List.mem_cons.1 (List.mem_of_getLast? hc) with rfl | hmem
    · decide
    · refine Bool.eq_false_iff.2 fun hblank => ?_
      exact Bool.false_ne_true ((isHexDigit_of_isBlank hblank).symm.trans (digit c hmem))
  | function called blanks =>
    rw [← List.append_assoc, ← List.cons_append, ← List.append_assoc, List.getLast?_concat] at hc
    obtain rfl : ')' = c := Option.some.inj hc
    decide
  | named known => exact (isWord_of_known known).isBlank_eq_false c (List.mem_of_getLast? hc)

/-- A color neither begins nor ends with a blank. -/
theorem IsColorValue.trim_eq (h : IsColorValue text) : trim text = text := by
  obtain ⟨d, ds, heq, hd⟩ := h.begins.exists_cons
  refine trim_eq_self (fun c hc => ?_) h.isBlank_last
  rw [heq] at hc
  rwa [← Option.some.inj hc]

theorem reference?_lowerAscii (cs : List Char) :
    (reference? (lowerAscii cs)).isSome = (reference? cs).isSome := by
  rw [Bool.eq_iff_iff, Option.isSome_iff_exists, Option.isSome_iff_exists]
  constructor
  · rintro ⟨rest, hrest⟩
    obtain ⟨word, heq, hword⟩ := reference?_eq_some_iff.1 hrest
    obtain ⟨front, behind, rfl, rfl, -⟩ := List.map_eq_append_iff.1 heq
    change lowerAscii (lowerAscii front) = _ at hword
    rw [lowerAscii_lowerAscii] at hword
    exact ⟨behind, reference?_eq_some_iff.2 ⟨front, rfl, hword⟩⟩
  · rintro ⟨rest, hrest⟩
    obtain ⟨word, rfl, hword⟩ := reference?_eq_some_iff.1 hrest
    refine ⟨lowerAscii rest, reference?_eq_some_iff.2 ⟨lowerAscii word, List.map_append, ?_⟩⟩
    rw [lowerAscii_lowerAscii, hword]

/-- Read in small letters, a text is a color if it is one as it is written. -/
theorem isColorValue_iff : IsColorValue text ↔
    ((takeHex? (lowerAscii text)).any (·.2.isEmpty) ||
      ((colorFunction? (lowerAscii text)).isSome && (lowerAscii text).getLast? == some ')') ||
        (Color.named? (lowerAscii text)).isSome) = true := by
  rw [Bool.or_eq_true, Bool.or_eq_true, takeHex?_lowerAscii_iff, isColorFunction_iff,
    Color.named?_isSome_iff, lowerAscii_lowerAscii]
  constructor
  · intro h
    cases h with
    | hex digit least most => exact .inl (.inl ⟨_, rfl, digit, least, most⟩)
    | function called blanks => exact .inl (.inr ⟨_, _, _, rfl, called, blanks⟩)
    | named known => exact .inr known
  · rintro ((⟨digits, rfl, digit, least, most⟩ | ⟨name, blank, inner, rfl, called, blanks⟩) | known)
    · exact .hex digit least most
    · exact .function called blanks
    · exact .named known

instance (text : List Char) : Decidable (IsColorValue text) :=
  decidable_of_iff _ isColorValue_iff.symm

theorem isColor_iff_trim : isColor value = true ↔ IsColorValue (trim (dropImportant value)) := by
  rw [isColor]
  generalize trim (dropImportant value) = text
  rw [reference?_lowerAscii, isColorValue_iff]
  split
  · -- no color is empty, and none begins a reference
    next hcond =>
    refine iff_of_false Bool.false_ne_true ?_
    intro h
    have hcolor := isColorValue_iff.2 h
    have hnone : reference? (text ++ []) = none := hcolor.begins.reference?_eq_none
    rw [List.append_nil] at hnone
    rw [hnone, Option.isSome_none, Bool.or_false, List.isEmpty_iff] at hcond
    obtain ⟨c, cs, rfl, -⟩ := hcolor.begins.exists_cons
    cases hcond
  · exact Iff.rfl

theorem isColor_iff_color : IsColor value ↔ IsColorValue (trim (dropImportant value)) := by
  constructor
  · rintro ⟨left, text, right, hunflagged, hleft, htext, hright⟩
    rwa [hunflagged.dropImportant_eq, trim_append hleft hright htext.trim_eq]
  · intro h
    obtain ⟨left, right, heq, hleft, hright⟩ := exists_append_trim (dropImportant value)
    exact ⟨left, _, right, heq ▸ unflagged_dropImportant value, hleft, h, hright⟩

/-- The test for colors finds the values that are colors. -/
theorem isColor_iff : isColor value = true ↔ IsColor value :=
  isColor_iff_trim.trans isColor_iff_color.symm

instance (value : List Char) : Decidable (IsColor value) :=
  decidable_of_iff _ isColor_iff_color.symm

end

end Value
end SheetAudit
