import SheetAudit.Offsets.Comment
import SheetAudit.Selector.List
import SheetAudit.Sheet.Purpose

/-!
# Values by offsets

A value is cut before its first `!important`, and around its references, at offsets that were found
in its form in small letters.

## Main definitions

* `dropImportant` — the value without a trailing `!important`.
* `blankReferences` — the value with one space in place of every reference.
* `purpose` — the purpose of a custom property.
-/

namespace SheetAudit
namespace Offsets

open Text Value

/-- The small form of a character is itself, or stands behind a capital of the alphabet. -/
theorem toLower_cases (c : Char) :
    c.toLower = c ∨ (65 ≤ c.toNat ∧ c.toNat ≤ 90) ∧ c.toLower.toNat = c.toNat + 32 := by
  by_cases h : c.val ≥ 'A'.val ∧ c.val ≤ 'Z'.val
  · have hlower : c.toLower.val = c.val + ('a'.val - 'A'.val) := congrArg Char.val (dif_pos h)
    simp only [ge_iff_le, UInt32.le_iff_toNat_le, Char.reduceVal, UInt32.reduceToNat] at h
    have hle : c.toNat ≤ 90 := h.2
    refine .inr ⟨h, ?_⟩
    rw [Char.toNat, hlower, UInt32.toNat_add]
    simp only [Char.reduceVal, UInt32.reduceSub, UInt32.reduceToNat]
    exact Nat.mod_eq_of_lt (show c.toNat + 32 < 2 ^ 32 by omega)
  · exact .inl (dif_neg h)

/-- Letter case does not change the number of bytes. -/
theorem utf8Size_toLower (c : Char) : c.toLower.utf8Size = c.utf8Size := by
  rcases toLower_cases c with hsame | ⟨hcapital, hlower⟩
  · rw [hsame]
  · have hc : c.toNat ≤ 127 := by omega
    have hl : c.toLower.toNat ≤ 127 := by omega
    rw [Char.utf8Size_eq_one_iff.2 (UInt32.le_iff_toNat_le.2 hc),
      Char.utf8Size_eq_one_iff.2 (UInt32.le_iff_toNat_le.2 hl)]

theorem size_lowerAscii (cs : List Char) : size (lowerAscii cs) = size cs := by
  induction cs with
  | nil => rfl
  | cons c cs ih =>
    rw [lowerAscii, List.map_cons, size_cons, size_cons, utf8Size_toLower, ← ih, lowerAscii]

/-- The offset at which a word stands in a text for the first time. -/
def findText? (word text : List Char) : Option Nat := find? (encode text) 0 (encode word)

theorem size_pos_of_findText? {word text : List Char} {n : Nat}
    (h : findText? word text = some n) : 0 < size text := by
  cases text with
  | nil => cases h
  | cons c cs =>
    have := c.utf8Size_pos
    rw [size_cons]
    omega

/-- The value up to its first `!important`, in any letter case. -/
def dropImportant (value : List Char) : Except Fault (List Char) :=
  match findText? "!important".toList (lowerAscii value) with
  | some stop => return trimRight (← slice value 0 stop)
  | none => .ok value

/-! ### References -/

/-- `depth` counts the parentheses that are open. -/
def closingParenFrom (depth : Nat) : List (Nat × Char) → Option Nat
  | [] => none
  | (i, c) :: cs =>
    if c == '(' then closingParenFrom (depth + 1) cs
    else if c == ')' then
      if depth - 1 == 0 then some i else closingParenFrom (depth - 1) cs
    else closingParenFrom depth cs

/-- The offset of the parenthesis that closes the one at `start`. -/
def closingParen? (value : List Char) (start : Nat) : Option Nat :=
  closingParenFrom 0 ((Selector.withOffsets 0 value).dropWhile fun p => p.1 < start)

theorem le_of_mem_withOffsets {offset : Nat} {cs : List Char} {p : Nat × Char}
    (h : p ∈ Selector.withOffsets offset cs) : offset ≤ p.1 := by
  induction cs generalizing offset with
  | nil => exact absurd h List.not_mem_nil
  | cons c cs ih =>
    rcases List.mem_cons.1 h with rfl | h
    · exact Nat.le_refl offset
    · exact Nat.le_of_add_right_le (ih h)

theorem mem_of_closingParenFrom {depth n : Nat} {cs : List (Nat × Char)}
    (h : closingParenFrom depth cs = some n) : ∃ c, (n, c) ∈ cs := by
  fun_induction closingParenFrom depth cs with
  | case1 => cases h
  | case3 depth i c cs _ _ _ =>
    obtain rfl := Option.some.inj h
    exact ⟨c, List.mem_cons_self⟩
  | case2 _ _ _ _ _ ih | case4 _ _ _ _ _ _ _ ih | case5 _ _ _ _ _ _ ih =>
    obtain ⟨d, hd⟩ := ih h
    exact ⟨d, List.mem_cons_of_mem _ hd⟩

theorem le_of_closingParen? {value : List Char} {start n : Nat}
    (h : closingParen? value start = some n) : start ≤ n := by
  -- what is left after the offsets before `start` begins at `start` or later
  have hle : ∀ (cs : List Char) (offset : Nat),
      ∀ p ∈ (Selector.withOffsets offset cs).dropWhile (fun p => decide (p.1 < start)),
        start ≤ p.1 := by
    intro cs
    induction cs with
    | nil => intro offset p hp; exact absurd hp List.not_mem_nil
    | cons c cs ih =>
      intro offset p hp
      rw [Selector.withOffsets, List.dropWhile_cons] at hp
      split at hp
      · exact ih _ p hp
      · next hn =>
        have hn : start ≤ offset := by simpa using hn
        rcases List.mem_cons.1 hp with rfl | hp
        · exact hn
        · exact Nat.le_trans hn (Nat.le_of_add_right_le (le_of_mem_withOffsets hp))
  obtain ⟨c, hc⟩ := mem_of_closingParenFrom h
  exact hle value 0 _ hc

/-- The offset behind a reference whose parenthesis opens at `start`; one that is never closed
reaches to the end. -/
def afterReference (value : List Char) (start : Nat) : Nat :=
  match closingParen? value start with
  | some stop => stop + 1
  | none => size value

/-- A reference brings the reading closer to the end. -/
theorem size_sub_afterReference_lt {value : List Char} {pos start : Nat} (hpos : pos < size value)
    (hle : pos ≤ start) : size value - afterReference value start < size value - pos := by
  rw [afterReference]
  split
  · next stop hstop =>
    have := le_of_closingParen? hstop
    omega
  · omega

/-- The value from an offset on with one space in place of every reference. -/
def blankReferencesFrom (value : List Char) (pos : Nat) : Except Fault (List Char) :=
  match _ht : slice (lowerAscii value) pos (size (lowerAscii value)) with
  | .error f => .error f
  | .ok tail =>
    match _hf : findText? "var(".toList tail with
    | none => slice value (min pos (size value)) (size value)
    | some found => do
      let start := pos + found
      let before ← slice value pos start
      return before ++ ' ' :: (← blankReferencesFrom value (afterReference value (start + 3)))
termination_by size value - pos
decreasing_by
  have hsize := size_of_slice _ht
  rw [size_lowerAscii] at hsize
  have := size_pos_of_findText? _hf
  exact size_sub_afterReference_lt (by omega) (by omega)

/-- The value with one space in place of every reference. -/
def blankReferences (value : List Char) : Except Fault (List Char) := blankReferencesFrom value 0

/-! ### Purposes -/

/-- The value is one literal color. -/
def isColor (value : List Char) : Except Fault Bool := do
  let text := lowerAscii (trim (← dropImportant value))
  return if text.isEmpty || (reference? text).isSome then false
    else
      (takeHex? text).any (·.2.isEmpty) ||
        ((colorFunction? text).isSome && text.getLast? == some ')') ||
          (Color.named? text).isSome

/-- The times of a value other than zero. -/
def times (value : List Char) : Except Fault (List String) := do
  let literal ← blankReferences (← dropImportant value)
  return ((quantitiesFrom true (blankHex literal)).filter fun q => q.isTime && !q.isZero).map
    (·.text)

/-- The purpose of a custom property; the value is searched for times only where the name has told
nothing so far. -/
def purpose (name value : List Char) : Except Fault Purpose := do
  let lower := lowerAscii name
  let mentions (words : List String) : Bool := words.any fun w => contains w.toList lower
  if ← isColor value then return .color
  if mentions ["radius", "rounded"] then return .radius
  if "--ease".toList.isPrefixOf lower ||
    mentions ["duration", "transition", "easing", "delay", "speed"] then return .duration
  if !(← times value).isEmpty then return .duration
  if mentions ["font", "line-height", "leading", "text-size", "letter-spacing", "tracking"] then
    return .font
  if mentions ["space", "spacing", "gap", "gutter", "margin", "padding"] then return .spacing
  return if mentions ["color", "colour"] then .color else .other

end Offsets
end SheetAudit
