import SheetAudit.Proofs.Amounts
import SheetAudit.Proofs.ColorValues

/-!
# What custom properties are for

A custom property is for colors if its value is a color.  Otherwise its name tells what it is for by
the words that it mentions, or a time in its value does.  Such a time is said here to stand at a
place of the value: what its references hide is told apart, and so is where a number may begin.

## Main definitions

* `Value.Cleared` — a text and what is left of it when its references go.
* `Value.MayBegin`, `Value.TimeStands` — a number may begin at a place, and a time stands there.
* `Value.IsTimed` — a value holds a time other than zero.
* `Purpose.Mentions`, `Purpose.Eases` — what a name tells.
* `Purpose.told` — the purpose that the first sign tells.

## Main results

* `Value.cleared_iff` — what is left of a text when its references go.
* `Value.ready_iff` — where the scan may read a number.
* `Value.times_ne_nil_iff` — the search for times finds one where there is one.
* `Purpose.infer_eq` — **the purpose of a custom property is the one that the first sign tells.**
-/

namespace SheetAudit
namespace Value

open Text
open Offsets (blankReferences_cons_of_none blankReferences_cons_of_some)

/-! ### Values without their references -/

/-- A reference begins the text. -/
def Refers (text : List Char) : Prop := ∃ word, word <+: text ∧ lowerAscii word = "var(".toList

/-- A text with a space for every reference, which reaches to the parenthesis that closes it, or to
the end if it is never closed. -/
inductive Cleared : List Char → List Char → Prop where
  | nil : Cleared [] []
  | char {c : Char} {cs seen : List Char} (plain : ¬ Refers (c :: cs)) (rest : Cleared cs seen) :
      Cleared (c :: cs) (c :: seen)
  | closed {word held cs seen : List Char} (opens : lowerAscii word = "var(".toList)
      (balanced : Balanced held) (rest : Cleared cs seen) :
      Cleared (word ++ (held ++ ')' :: cs)) (' ' :: seen)
  | unclosed {word rest : List Char} (opens : lowerAscii word = "var(".toList)
      (unclosed : ∀ held after, rest = held ++ ')' :: after → ¬ Balanced held) :
      Cleared (word ++ rest) [' ']

section

variable {text seen word rest : List Char}

theorem refers_iff : Refers text ↔ (reference? text).isSome = true := by
  rw [Option.isSome_iff_exists]
  constructor
  · rintro ⟨word, ⟨rest, rfl⟩, hword⟩
    exact ⟨rest, reference?_eq_some_iff.2 ⟨word, rfl, hword⟩⟩
  · rintro ⟨rest, hrest⟩
    obtain ⟨word, rfl, hword⟩ := reference?_eq_some_iff.1 hrest
    exact ⟨word, List.prefix_append word rest, hword⟩

theorem not_refers_iff : ¬ Refers text ↔ reference? text = none := by
  rw [refers_iff, Bool.not_eq_true, Option.isSome_eq_false_iff, Option.isNone_iff_eq_none]

/-- A reference that is never closed reaches to the end. -/
theorem takeArguments_unclosed
    (h : ∀ held after, rest = held ++ ')' :: after → ¬ Balanced held) :
    takeArguments 0 rest = (rest, []) := by
  rcases takeArguments_closes 0 rest with ⟨held, after, heq, -, hcovers, hcount⟩ | ⟨htake, -⟩
  · exact absurd ⟨hcovers, hcount⟩ (h held after heq)
  · exact htake

theorem blankReferences_unclosed (hword : lowerAscii word = "var(".toList)
    (h : ∀ held after, rest = held ++ ')' :: after → ¬ Balanced held) :
    blankReferences (word ++ rest) = [' '] := by
  have href : reference? (word ++ rest) = some rest :=
    reference?_eq_some_iff.2 ⟨word, rfl, hword⟩
  obtain ⟨v, a, r, rfl, -⟩ := exists_of_lowerAscii hword
  rw [List.cons_append] at href ⊢
  rw [blankReferences_cons_of_some href, takeArguments_unclosed h, blankReferences]

theorem Cleared.blankReferences_eq (h : Cleared text seen) : blankReferences text = seen := by
  induction h with
  | nil => rw [blankReferences]
  | char plain _ ih => rw [blankReferences_cons_of_none (not_refers_iff.1 plain), ih]
  | closed opens balanced _ ih => rw [blankReferences_opens opens balanced, ih]
  | unclosed opens unclosed => exact blankReferences_unclosed opens unclosed

theorem cleared_blankReferences (text : List Char) : Cleared text (blankReferences text) := by
  -- a reference that is closed leaves a shorter text behind it
  induction hn : text.length using Nat.strongRecOn generalizing text with
  | _ n ih =>
    cases text with
    | nil =>
      rw [blankReferences]
      exact .nil
    | cons c cs =>
      cases href : reference? (c :: cs) with
      | none =>
        rw [blankReferences_cons_of_none href]
        have hlength : cs.length < n := by rw [← hn]; exact Nat.lt_succ_self _
        exact .char (not_refers_iff.2 href) (ih cs.length hlength cs rfl)
      | some rest =>
        obtain ⟨word, heq, hword⟩ := reference?_eq_some_iff.1 href
        rw [heq]
        by_cases hclosed : ∃ held after, rest = held ++ ')' :: after ∧ Balanced held
        · obtain ⟨held, after, rfl, hheld⟩ := hclosed
          have hlength : after.length < n := by
            rw [← hn, heq, List.length_append, List.length_append, List.length_cons]
            omega
          rw [blankReferences_opens hword hheld]
          exact .closed hword hheld (ih after.length hlength after rfl)
        · have hunclosed : ∀ held after, rest = held ++ ')' :: after → ¬ Balanced held :=
            fun held after heq hheld => hclosed ⟨held, after, heq, hheld⟩
          rw [blankReferences_unclosed hword hunclosed]
          exact .unclosed hword hunclosed

/-- What is left of a value when its references go. -/
theorem cleared_iff : Cleared text seen ↔ blankReferences text = seen :=
  ⟨Cleared.blankReferences_eq, fun h => h ▸ cleared_blankReferences text⟩

end

/-! ### Values that hold times -/

/-- A number may begin between the two texts: at the start, behind a blank or one of five signs, and
behind a hex color that ends there. -/
inductive MayBegin : List Char → List Char → Prop where
  | start {after : List Char} : MayBegin [] after
  | behind {before after : List Char} {c : Char}
      (sign : isBlank c = true ∨ c ∈ [',', '(', '/', '*', '+']) : MayBegin (before ++ [c]) after
  | hex {before digits after : List Char} (digit : ∀ d ∈ digits, isHexDigit d = true)
      (least : 3 ≤ digits.length) (most : digits.length ≤ 8) (ends : endsWord after = true) :
      MayBegin (before ++ '#' :: digits) after

/-- A number of seconds or milliseconds other than zero stands in the text, its digits in ASCII, and
no letter and no percent sign right behind it. -/
structure TimeStands (before number unit after : List Char) : Prop where
  begins : MayBegin before (number ++ (unit ++ after))
  isNumber : IsNumber number
  stops : Stops number (unit ++ after)
  isTime : lowerAscii unit ∈ timeUnits.map String.toList
  ends : ∀ c ∈ after.head?, isUnitChar c = false
  isAscii : ∀ c ∈ number, isAscii c = true
  isNotZero : (amount number == 0) = false

/-- Outside its references and before its flag, the value holds a time other than zero. -/
def IsTimed (value : List Char) : Prop :=
  ∃ text seen, Unflagged value text ∧ Cleared text seen ∧
    ∃ before number unit after, seen = before ++ (number ++ (unit ++ after)) ∧
      TimeStands before number unit after

section

variable {value text before after number unit : List Char} {c : Char} {q : Quantity}

theorem precedesNumber_iff :
    precedesNumber c = true ↔ isBlank c = true ∨ c ∈ [',', '(', '/', '*', '+'] := by
  simp [precedesNumber, or_assoc]

theorem endsHex_iff : endsHex before.reverse = true ↔
    ∃ front digits, before = front ++ '#' :: digits ∧ (∀ d ∈ digits, isHexDigit d = true) ∧
      3 ≤ digits.length ∧ digits.length ≤ 8 := by
  constructor
  · intro h
    obtain ⟨rest, hrest⟩ := List.head?_eq_some_iff.1 (head?_of_endsHex h)
    have hback := List.takeWhile_append_dropWhile (p := isHexDigit) (l := before.reverse)
    have hdigits : ∀ d ∈ before.reverse.takeWhile isHexDigit, isHexDigit d = true :=
      fun d hd => List.mem_takeWhile_imp hd
    rw [hrest] at hback
    generalize before.reverse.takeWhile isHexDigit = back at hback hdigits
    have hbefore : before = rest.reverse ++ '#' :: back.reverse := by
      rw [← List.reverse_reverse before, ← hback]
      simp
    have hreverse : ∀ d ∈ back.reverse, isHexDigit d = true :=
      fun d hd => hdigits d (List.mem_reverse.1 hd)
    rw [← hback, ← List.reverse_reverse back, endsHex_append_iff hreverse] at h
    exact ⟨rest.reverse, back.reverse, hbefore, hreverse, h⟩
  · rintro ⟨front, digits, rfl, hdigits, hcount⟩
    rw [List.reverse_append, List.reverse_cons, List.append_assoc]
    exact (endsHex_append_iff hdigits).2 hcount

/-- Where the scan may read a number. -/
theorem ready_iff : ready before.reverse after = true ↔ MayBegin before after := by
  rw [ready, Bool.or_eq_true, Bool.and_eq_true, endsHex_iff]
  constructor
  · rintro (hhead | ⟨⟨front, digits, rfl, hdigits, hleast, hmost⟩, hends⟩)
    · rcases List.eq_nil_or_concat before with rfl | ⟨front, c, rfl⟩
      · exact .start
      · rw [List.concat_eq_append] at hhead ⊢
        rw [List.reverse_append] at hhead
        exact .behind (precedesNumber_iff.1 hhead)
    · exact .hex hdigits hleast hmost hends
  · intro h
    cases h with
    | start => exact .inl rfl
    | behind sign =>
      refine .inl ?_
      rw [List.reverse_append]
      exact precedesNumber_iff.2 sign
    | hex digit least most ends => exact .inr ⟨⟨_, _, rfl, digit, least, most⟩, ends⟩

/-- What is read is read at some place. -/
theorem mem_readings_iff {back cs : List Char} : q ∈ readings back cs [] ↔
    ∃ p r, cs = p ++ r ∧ ready (p.reverse ++ back) r = true ∧ readAt? r = some q := by
  induction cs generalizing back with
  | nil =>
    refine iff_of_false List.not_mem_nil ?_
    rintro ⟨p, r, heq, -, hread⟩
    rw [(List.append_eq_nil_iff.1 heq.symm).2] at hread
    cases hread
  | cons c cs ih =>
    rw [readings, List.append_nil, List.mem_append, Option.mem_toList, ih,
      Option.ite_none_right_eq_some]
    constructor
    · rintro (⟨hready, hread⟩ | ⟨p, r, rfl, hready, hread⟩)
      · exact ⟨[], c :: cs, rfl, hready, hread⟩
      · refine ⟨c :: p, r, rfl, ?_, hread⟩
        rwa [List.reverse_cons, List.append_assoc]
    · rintro ⟨p, r, heq, hready, hread⟩
      cases p with
      | nil =>
        obtain rfl : c :: cs = r := heq
        exact .inl ⟨hready, hread⟩
      | cons d p =>
        obtain ⟨rfl, rfl⟩ := List.cons.inj heq
        refine .inr ⟨p, r, rfl, ?_, hread⟩
        rwa [List.reverse_cons, List.append_assoc] at hready

/-- Units of time are made of letters. -/
theorem isUnitChar_of_time (h : lowerAscii unit ∈ timeUnits.map String.toList) :
    ∀ c ∈ unit, isUnitChar c = true := by
  intro c hc
  have hletter : c.toLower = 'm' ∨ c.toLower = 's' := by
    have hmem : c.toLower ∈ lowerAscii unit := List.mem_map_of_mem hc
    rcases List.mem_pair.1 h with heq | heq <;> rw [heq] at hmem
    · exact .inr (List.mem_singleton.1 hmem)
    · exact List.mem_pair.1 hmem
  have halpha : c.isAlpha = true := by
    refine isAlpha_of_toLower ?_
    rcases hletter with heq | heq <;> rw [heq] <;> decide
  rw [isUnitChar, foldsToLetter, halpha]
  rfl

theorem readAt?_iff : readAt? text = some q ↔
    ∃ number unit after, text = number ++ (unit ++ after) ∧ IsNumber number ∧
      Stops number (unit ++ after) ∧ (∀ c ∈ unit, isUnitChar c = true) ∧
      (∀ c ∈ after.head?, isUnitChar c = false) ∧ quantity? number unit = some q := by
  rw [readAt?, Option.bind_eq_some_iff]
  constructor
  · rintro ⟨⟨number, rest⟩, htake, hq⟩
    obtain ⟨rfl, hnumber, hstops⟩ := takeNumber?_eq_some_iff.1 htake
    obtain ⟨unit, after, rfl, hunit, hafter⟩ := exists_unit rest
    rw [takeWhile_append_eq hunit hafter] at hq
    exact ⟨number, unit, after, rfl, hnumber, hstops, hunit, hafter, hq⟩
  · rintro ⟨number, unit, after, rfl, hnumber, hstops, hunit, hafter, hq⟩
    refine ⟨(number, unit ++ after), takeNumber?_eq_some_iff.2 ⟨rfl, hnumber, hstops⟩, ?_⟩
    rwa [takeWhile_append_eq hunit hafter]

theorem mem_times_iff (x : Float) (t : String) :
    ((⟨x, String.ofList (lowerAscii unit), t⟩ : Quantity).isTime &&
      !(⟨x, String.ofList (lowerAscii unit), t⟩ : Quantity).isZero) = true ↔
    lowerAscii unit ∈ timeUnits.map String.toList ∧ (x == 0) = false := by
  rw [Bool.and_eq_true, Bool.not_eq_true']
  refine and_congr ?_ Iff.rfl
  rw [Quantity.isTime, List.contains_iff_mem, List.mem_map]
  constructor
  · exact fun hmem => ⟨_, hmem, String.toList_ofList⟩
  · rintro ⟨word, hmem, hword⟩
    show String.ofList (lowerAscii unit) ∈ timeUnits
    rwa [← hword, String.ofList_toList]

/-- The search for times finds one where there is one. -/
theorem times_ne_nil_iff : times value ≠ [] ↔ IsTimed value := by
  have hfound : times value ≠ [] ↔
      ∃ q ∈ readings [] (literalPart value) [], (q.isTime && !q.isZero) = true := by
    rw [times, quantities_eq_readings, ne_eq, List.map_eq_nil_iff, List.filter_eq_nil_iff]
    simp
  rw [hfound]
  constructor
  · rintro ⟨q, hq, htime⟩
    obtain ⟨before, r, hseen, hready, hread⟩ := mem_readings_iff.1 hq
    obtain ⟨number, unit, after, rfl, hnumber, hstops, -, hafter, hquantity⟩ := readAt?_iff.1 hread
    rw [List.append_nil] at hready
    obtain ⟨x, hx, rfl⟩ := Option.map_eq_some_iff.1 hquantity
    obtain ⟨hascii, rfl⟩ := (read?_eq_some_iff hnumber).1 hx
    obtain ⟨hunit, hzero⟩ := (mem_times_iff _ _).1 htime
    exact ⟨_, _, unflagged_dropImportant value, cleared_blankReferences _, before, number, unit,
      after, hseen, ready_iff.1 hready, hnumber, hstops, hunit, hafter, hascii, hzero⟩
  · rintro ⟨text, seen, htext, hcleared, before, number, unit, after, rfl, h⟩
    have hread := (read?_eq_some_iff h.isNumber).2 ⟨h.isAscii, rfl⟩
    have hquantity : quantity? number unit =
        some ⟨amount number, String.ofList (lowerAscii unit),
          String.ofList (number ++ lowerAscii unit)⟩ := by
      rw [quantity?, hread]
      rfl
    refine ⟨_, mem_readings_iff.2 ⟨before, _, ?_, ?_, readAt?_iff.2 ⟨number, unit, after, rfl,
      h.isNumber, h.stops, isUnitChar_of_time h.isTime, h.ends, hquantity⟩⟩,
      (mem_times_iff _ _).2 ⟨h.isTime, h.isNotZero⟩⟩
    · rw [literalPart, htext.dropImportant_eq, hcleared.blankReferences_eq]
    · rw [List.append_nil]
      exact ready_iff.2 h.begins

instance (value : List Char) : Decidable (IsTimed value) :=
  decidable_of_iff _ times_ne_nil_iff

end

end Value

/-! ### Purposes -/

namespace Purpose

open Text

/-- One of the words stands in the name, in some letter case. -/
def Mentions (name : List Char) (words : List String) : Prop :=
  ∃ word ∈ words, ∃ part, part <:+: name ∧ lowerAscii part = word.toList

/-- The name begins as those of easings do, in some letter case. -/
def Eases (name : List Char) : Prop :=
  ∃ front, front <+: name ∧ lowerAscii front = "--ease".toList

section

variable {name value : List Char} {words : List String}

theorem infix_lowerAscii_iff {word cs : List Char} :
    word <:+: lowerAscii cs ↔ ∃ part, part <:+: cs ∧ lowerAscii part = word := by
  constructor
  · rintro ⟨front, back, heq⟩
    obtain ⟨rest, behind, rfl, hrest, -⟩ := List.map_eq_append_iff.1 heq.symm
    obtain ⟨before, part, rfl, -, hpart⟩ := List.map_eq_append_iff.1 hrest
    exact ⟨part, ⟨before, behind, rfl⟩, hpart⟩
  · rintro ⟨part, hpart, rfl⟩
    exact hpart.map Char.toLower

theorem prefix_lowerAscii_iff {word cs : List Char} :
    word <+: lowerAscii cs ↔ ∃ front, front <+: cs ∧ lowerAscii front = word := by
  constructor
  · rintro ⟨back, heq⟩
    obtain ⟨front, behind, rfl, hfront, -⟩ := List.map_eq_append_iff.1 heq.symm
    exact ⟨front, List.prefix_append front behind, hfront⟩
  · rintro ⟨front, hfront, rfl⟩
    exact hfront.map Char.toLower

theorem mentions_iff : Mentions name words ↔
    (words.any fun w => contains w.toList (lowerAscii name)) = true := by
  rw [List.any_eq_true]
  refine exists_congr fun word => and_congr_right fun _ => ?_
  rw [contains_iff, infix_lowerAscii_iff]

theorem eases_iff : Eases name ↔ "--ease".toList.isPrefixOf (lowerAscii name) = true := by
  rw [List.isPrefixOf_iff_prefix, prefix_lowerAscii_iff]
  rfl

instance : Decidable (Mentions name words) := decidable_of_iff _ mentions_iff.symm

instance : Decidable (Eases name) := decidable_of_iff _ eases_iff.symm

end

/-- The purpose that the first sign tells: a color, a word of the name, a time. -/
def told (name value : List Char) : Purpose :=
  if Value.IsColor value then .color
  else if Mentions name ["radius", "rounded"] then .radius
  else if Eases name ∨
      Mentions name ["duration", "transition", "easing", "delay", "speed"] ∨
      Value.IsTimed value then .duration
  else if Mentions name
      ["font", "line-height", "leading", "text-size", "letter-spacing", "tracking"] then .font
  else if Mentions name ["space", "spacing", "gap", "gutter", "margin", "padding"] then .spacing
  else if Mentions name ["color", "colour"] then .color
  else .other

/-- **The purpose of a custom property is the one that the first sign tells.** -/
theorem infer_eq (name value : List Char) : infer name value = told name value := by
  have htimed : (!(Value.times value).isEmpty) = true ↔ Value.IsTimed value := by
    rw [← Value.times_ne_nil_iff, Bool.not_eq_true', List.isEmpty_eq_false_iff]
  unfold infer told
  simp only [Value.isColor_iff, ← mentions_iff, ← eases_iff, ← htimed, Bool.or_eq_true, or_assoc]

/-- A color in some letter case, whatever the name says. -/
example : infer "--gap".toList " RebeccaPurple !important".toList = .color := by decide

end Purpose
end SheetAudit
