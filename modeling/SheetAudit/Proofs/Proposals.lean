import SheetAudit.Proofs.Replacement
import SheetAudit.Rules.Spacing

/-!
# Proposals for lengths

Where a variable holds a length that is written literally, a reference to it is proposed in place of
the first occurrence of the length.  An occurrence is a place in the text, though, and what the
search has found need not stand there.

## Main definitions

* `Seen` — the text before a place as the searches see it, where no reference is open.
* `Inert` — a text that the search for references passes over, whatever stands around it.
* `TakesOut` — a fix takes one occurrence of a length out of a value.
* `StandsAlone` — a length is read at a place, and its removal uncovers no other one.
* `IsFirst` — the first occurrence of a text in another.
* `Spacing.Proposes` — a finding proposes a variable for a length.

## Main results

* `takes_iff_standsAlone` — a reference in place of a length takes that length out, and nothing
  else, exactly if it stands alone.
* `Spacing.proposal_takes_iff` — **the proposal takes the length out exactly if its first occurrence
  stands alone.**
-/

namespace SheetAudit
namespace Value

open Text
open Offsets (splitBy?_eq_some dropAscii?_eq_some blankReferences_cons_of_none
  blankReferences_cons_of_some toLower_cases)

/-! ### The text before a place -/

/-- The text before a place as the searches see it, with a space for every reference; none is open
at the place. -/
inductive Seen : List Char → List Char → Prop where
  | nil : Seen [] []
  | char {c : Char} {cs front : List Char} (plain : reference? (c :: cs) = none)
      (rest : Seen cs front) : Seen (c :: cs) (c :: front)
  | reference {word held cs front : List Char} (opens : lowerAscii word = "var(".toList)
      (balanced : Balanced held) (rest : Seen cs front) :
      Seen (word ++ (held ++ ')' :: cs)) (' ' :: front)

section

variable {word held before after tail front : List Char}

theorem blankReferences_opens (hword : lowerAscii word = "var(".toList) (hheld : Balanced held)
    (after : List Char) :
    blankReferences (word ++ (held ++ ')' :: after)) = ' ' :: blankReferences after := by
  have href : reference? (word ++ (held ++ ')' :: after)) = some (held ++ ')' :: after) :=
    reference?_eq_some_iff.2 ⟨word, rfl, hword⟩
  obtain ⟨v, a, r, rfl, -⟩ := exists_of_lowerAscii hword
  rw [List.cons_append] at href ⊢
  rw [blankReferences_cons_of_some href, hheld.takeArguments_eq]

/-- A text does not begin with what a reference goes on with. -/
def Begins (tail : List Char) : Prop := ∀ c ∈ tail.head?, c.toLower ∉ ['a', 'r', '(']

/-- A word that begins before a text ends before it or not at all. -/
def Unreached (word tail : List Char) : Prop :=
  ∀ c cs, dropAscii? word (c :: (cs ++ tail)) = (dropAscii? word (c :: cs)).map (· ++ tail)

theorem Begins.unreached (h : Begins tail) : Unreached "var(".toList tail :=
  fun c cs => reference?_append h c cs

theorem Seen.blankReferences_append (h : Seen before front)
    (htail : Unreached "var(".toList tail) :
    blankReferences (before ++ tail) = front ++ blankReferences tail := by
  induction h with
  | nil => rfl
  | @char c cs front plain _ ih =>
    have hnone : reference? (c :: (cs ++ tail)) = none := by
      rw [reference?, htail c cs, ← reference?, plain, Option.map_none]
    rw [List.cons_append, blankReferences_cons_of_none hnone, ih, List.cons_append]
  | reference opens balanced _ ih =>
    rw [List.append_assoc, List.append_assoc, List.cons_append,
      blankReferences_opens opens balanced, ih, List.cons_append]

/-- No reference is open at the end of a text, or one is that all that follows goes on with. -/
theorem seen_or_open (before : List Char) :
    (∃ front, Seen before front) ∨ ∃ front depth, ∀ tail, Unreached "var(".toList tail →
      blankReferences (before ++ tail) =
        front ++ ' ' :: blankReferences (takeArguments depth tail).2 := by
  induction hn : before.length using Nat.strongRecOn generalizing before with
  | _ n ih =>
    cases before with
    | nil => exact .inl ⟨[], .nil⟩
    | cons c cs =>
      cases href : reference? (c :: cs) with
      | none =>
        rcases ih cs.length (by rw [← hn]; exact Nat.lt_succ_self _) cs rfl with
          ⟨front, hseen⟩ | ⟨front, depth, hopen⟩
        · exact .inl ⟨c :: front, .char href hseen⟩
        · refine .inr ⟨c :: front, depth, fun tail htail => ?_⟩
          have hnone : reference? (c :: (cs ++ tail)) = none := by
            rw [reference?, htail c cs, ← reference?, href, Option.map_none]
          rw [List.cons_append, blankReferences_cons_of_none hnone, hopen tail htail,
            List.cons_append]
      | some rest =>
        obtain ⟨word, heq, hword⟩ := reference?_eq_some_iff.1 href
        rcases takeArguments_closes 0 rest with
          ⟨args, after, rfl, -, hcovers, hcount⟩ | ⟨-, hcovers⟩
        · -- the reference is closed, and the text behind it is shorter
          have hargs : Balanced args := ⟨hcovers, hcount⟩
          have hlength : after.length < n := by
            rw [← hn, heq, List.length_append, List.length_append, List.length_cons]
            omega
          rcases ih after.length hlength after rfl with ⟨front, hseen⟩ | ⟨front, depth, hopen⟩
          · exact .inl ⟨' ' :: front, heq ▸ .reference hword hargs hseen⟩
          · refine .inr ⟨' ' :: front, depth, fun tail htail => ?_⟩
            rw [heq, List.append_assoc, List.append_assoc, List.cons_append,
              blankReferences_opens hword hargs, hopen tail htail, List.cons_append]
        · refine .inr ⟨[], 0 + rest.count '(' - rest.count ')', fun tail _ => ?_⟩
          have hsome : reference? (c :: (cs ++ tail)) = some (rest ++ tail) := by
            refine reference?_eq_some_iff.2 ⟨word, ?_, hword⟩
            rw [← List.cons_append, heq, List.append_assoc]
          rw [List.cons_append, blankReferences_cons_of_some hsome,
            takeArguments_of_closes_le hcovers, List.nil_append]

end

/-! ### A place before the flag -/

section

variable {before after pattern name number unit : List Char}

/-- Behind the flag nothing is read. -/
theorem dropImportant_of_saysImportant (h : SaysImportant before) :
    ∃ value, ∀ tail, dropImportant (before ++ tail) = value := by
  obtain ⟨⟨front, back⟩, hsplit⟩ := Option.isSome_iff_exists.1 (saysImportant_iff.1 h)
  obtain ⟨rest, rfl, hrest⟩ := splitBy?_eq_some hsplit
  obtain ⟨flag, rfl, hflag⟩ := dropAscii?_eq_some hrest
  have hfront : ¬ SaysImportant front := by
    rw [saysImportant_iff, splitAscii?_before (by decide) hsplit]
    simp
  refine ⟨trimRight front, fun tail => ?_⟩
  rw [dropImportant, List.append_assoc, List.append_assoc, splitAscii?_flag hfront hflag]

/-- What ends in no blank stays where the flag is looked for behind it. -/
theorem dropImportant_append {p : List Char} (hne : p ≠ [])
    (hlast : ∀ c ∈ p.getLast?, isBlank c = false)
    (h : splitAscii? "!important".toList (p ++ after) =
      (splitAscii? "!important".toList after).map fun r => (p ++ r.1, r.2)) :
    dropImportant (p ++ after) = p ++ dropImportant after := by
  obtain ⟨q, c, rfl⟩ := (List.eq_nil_or_concat p).resolve_left hne
  have hc : isBlank c = false := hlast c (by rw [List.concat_eq_append, List.getLast?_concat]; rfl)
  rw [dropImportant, h, dropImportant]
  cases splitAscii? "!important".toList after with
  | none => rfl
  | some r =>
    dsimp only [Option.map_some]
    rw [List.concat_eq_append, List.append_assoc, List.singleton_append, trimRight_append_cons hc,
      List.append_assoc, List.singleton_append]

theorem splitAscii?_append_of_not_mem {p : List Char} (hp : '!' ∉ p) (after : List Char) :
    splitAscii? "!important".toList (p ++ after) =
      (splitAscii? "!important".toList after).map fun r => (p ++ r.1, r.2) := by
  induction p with
  | nil => exact (congrFun Option.map_id _).symm
  | cons c p ih =>
    have hc : c.toLower ≠ '!' := fun h =>
      hp (eq_of_toLower h (by decide) ▸ List.mem_cons_self)
    have hdrop : dropAscii? "!important".toList (c :: (p ++ after)) = none := by
      change (if c.toLower == '!' then _ else none) = none
      rw [if_neg (by simpa using hc)]
    have hrest := ih fun hmem => hp (List.mem_cons_of_mem c hmem)
    rw [splitAscii?] at hrest
    rw [List.cons_append, splitAscii?, splitBy?, hdrop]
    dsimp only
    rw [hrest, Option.map_map]
    rfl

/-! ### Characters of lengths -/

theorem toLower_of_number {c : Char} (h : isDecimalDigit c = true ∨ c = '.' ∨ c = '-') :
    c.toLower = c := by
  rcases toLower_cases c with hsame | ⟨hcapital, -⟩
  · exact hsame
  · have halpha : c.isAlpha = true := by
      simp only [Char.isAlpha, Char.isUpper, Bool.or_eq_true, decide_eq_true_eq,
        UInt32.le_iff_toNat_le, ge_iff_le]
      exact .inl hcapital
    have hunit := isUnitChar_eq_false h
    rw [isUnitChar, foldsToLetter, halpha] at hunit
    cases hunit

/-- A number begins with a character that is in no word but itself. -/
theorem IsNumber.toLower_head_not_mem (h : IsNumber number) {word : List Char}
    (hword : word.all (fun w => !isDecimalDigit w && w != '.' && w != '-') = true) :
    ∀ c ∈ number, c.toLower ∉ word := by
  intro c hc hmem
  have hchar := h.char c hc
  rw [toLower_of_number hchar] at hmem
  have hnot := List.all_eq_true.1 hword c hmem
  simp only [Bool.and_eq_true, Bool.not_eq_true', bne_iff_ne] at hnot
  rcases hchar with hdigit | hpoint | hminus
  · rw [hnot.1.1] at hdigit
    cases hdigit
  · exact hnot.1.2 hpoint
  · exact hnot.2 hminus

theorem IsLength.not_mem (h : IsLength number unit) {c : Char}
    (hc : Value.isQuantityChar c = false) :
    c ∉ number ++ unit := fun hmem => by
  rw [h.isQuantityChar c hmem] at hc
  cases hc

theorem IsLength.getLast? (h : IsLength number unit) :
    (number ++ unit).getLast? = unit.getLast? := by
  obtain ⟨-, hne, -⟩ := spelling_of_mem h.isUnit
  rw [List.getLast?_append, List.getLast?_eq_some_getLast hne, Option.some_or]

theorem IsLength.isBlank_last (h : IsLength number unit) :
    ∀ c ∈ (number ++ unit).getLast?, isBlank c = false := by
  intro c hc
  have hchar := precedesNumber_eq_false (h.isQuantityChar c (List.mem_of_getLast? hc))
  simp only [precedesNumber, Bool.or_eq_false_iff] at hchar
  exact hchar.1.1.1.1.1

/-- The searches for references pass over a text that ends in none of their letters. -/
theorem blankReferences_append {p : List Char} (hopen : '(' ∉ p)
    (hlast : ∀ c ∈ p.getLast?, c.toLower ∉ ['v', 'a', 'r']) (after : List Char) :
    blankReferences (p ++ after) = p ++ blankReferences after := by
  induction p with
  | nil => rfl
  | cons c p ih =>
    have hnone : reference? (c :: (p ++ after)) = none := by
      refine Option.eq_none_iff_forall_ne_some.2 fun rest hrest => ?_
      obtain ⟨word, heq, hword⟩ := reference?_eq_some_iff.1 hrest
      obtain ⟨v, a, r, rfl, hv, ha, hr⟩ := exists_of_lowerAscii hword
      -- the text ends within the word, or the word within the text
      match p, hopen, hlast, heq with
      | [], _, hlast, heq =>
        obtain rfl : c = v := (List.cons.inj heq).1
        exact hlast c rfl (by rw [hv]; decide)
      | [d], _, hlast, heq =>
        obtain rfl : d = a := (List.cons.inj (List.cons.inj heq).2).1
        exact hlast d rfl (by rw [ha]; decide)
      | [d, e], _, hlast, heq =>
        obtain rfl : e = r := (List.cons.inj (List.cons.inj (List.cons.inj heq).2).2).1
        exact hlast e rfl (by rw [hr]; decide)
      | d :: e :: f :: p, hopen, _, heq =>
        obtain rfl : f = '(' :=
          (List.cons.inj (List.cons.inj (List.cons.inj (List.cons.inj heq).2).2).2).1
        exact hopen (by simp)
    have hrest : ∀ d ∈ p.getLast?, d.toLower ∉ ['v', 'a', 'r'] := by
      cases p with
      | nil => exact nofun
      | cons d p => rwa [List.getLast?_cons_cons] at hlast
    rw [List.cons_append, blankReferences_cons_of_none hnone,
      ih (fun hmem => hopen (List.mem_cons_of_mem c hmem)) hrest, List.cons_append]

/-! ### The text of a proposal -/

theorem IsLength.begins (h : IsLength number unit) (tail : List Char) :
    Begins (number ++ unit ++ tail) := by
  obtain ⟨c, cs, hcs⟩ := List.exists_cons_of_ne_nil h.isNumber.ne_nil
  intro d hd
  rw [hcs] at hd
  obtain rfl : c = d := Option.some.inj hd
  exact h.isNumber.toLower_head_not_mem (by decide) c (hcs ▸ List.mem_cons_self)

/-- Before the flag, a length stays where the flag is looked for behind it. -/
theorem IsLength.dropImportant_eq (h : IsLength number unit) (hbefore : ¬ SaysImportant before)
    (after : List Char) : dropImportant (before ++ (number ++ unit ++ after)) =
      before ++ (number ++ unit ++ dropImportant after) := by
  have hsplit : splitAscii? "!important".toList (before ++ (number ++ unit) ++ after) =
      (splitAscii? "!important".toList after).map fun r =>
        (before ++ (number ++ unit) ++ r.1, r.2) := by
    obtain ⟨c, cs, hcs⟩ := List.exists_cons_of_ne_nil h.isNumber.ne_nil
    have hc : c.toLower ∉ "!important".toList :=
      h.isNumber.toLower_head_not_mem (by decide) c (hcs ▸ List.mem_cons_self)
    have hmark : '!' ∉ cs ++ unit := fun hmem =>
      h.not_mem (c := '!') (by decide) (by rw [hcs]; exact List.mem_cons_of_mem c hmem)
    have hnone : splitAscii? "!important".toList before = none :=
      Option.not_isSome_iff_eq_none.1 (saysImportant_iff.not.1 hbefore)
    rw [hcs, List.append_assoc, List.cons_append, List.cons_append,
      splitAscii?_append_cons (by decide) hc, hnone, splitAscii?_append_of_not_mem hmark]
    dsimp only
    rw [Option.map_map]
    refine Option.map_congr fun r _ => ?_
    simp [Function.comp]
  have hlast : ∀ c ∈ (before ++ (number ++ unit)).getLast?, isBlank c = false := by
    intro c hc
    rw [List.getLast?_append, List.getLast?_eq_some_getLast h.ne_nil, Option.some_or] at hc
    exact h.isBlank_last c (by rwa [List.getLast?_eq_some_getLast h.ne_nil])
  rw [← List.append_assoc, dropImportant_append (List.append_ne_nil_of_right_ne_nil before h.ne_nil)
    hlast hsplit, List.append_assoc]

/-- Before the flag, a reference stays where the flag is looked for behind it. -/
theorem dropImportant_referring_eq (hname : ¬ SaysImportant name) (hbefore : ¬ SaysImportant before)
    (after : List Char) : dropImportant (referring before "var(".toList name after) =
      referring before "var(".toList name (dropImportant after) := by
  have hform (tail : List Char) : referring before "var(".toList name tail =
      before ++ ("var(".toList ++ (name ++ [')'])) ++ tail := by
    simp only [referring, List.append_assoc, List.singleton_append]
  have hsplit := @splitAscii?_referring before "var(".toList name after rfl hname
  rw [Option.not_isSome_iff_eq_none.1 (saysImportant_iff.not.1 hbefore)] at hsplit
  simp only [hform] at hsplit ⊢
  refine dropImportant_append (by simp) (fun c hc => ?_) hsplit
  rw [← List.append_assoc, ← List.append_assoc, List.getLast?_concat] at hc
  obtain rfl : ')' = c := Option.some.inj hc
  decide

/-- A text that can stand anywhere: no reference goes on in it, none begins in it, and it has no
parentheses that stay open. -/
structure Inert (p : List Char) : Prop where
  unreached : ∀ after, Unreached "var(".toList (p ++ after)
  passed : ∀ after, blankReferences (p ++ after) = p ++ blankReferences after
  balanced : Balanced p

theorem IsLength.inert (h : IsLength number unit) : Inert (number ++ unit) where
  unreached := fun after => (h.begins after).unreached
  passed := by
    obtain ⟨-, -, -, hlast⟩ := spelling_of_mem h.isUnit
    exact Value.blankReferences_append (h.not_mem (by decide)) (h.getLast?.symm ▸ hlast)
  balanced := by
    refine balanced_of_forall fun c hc => ⟨?_, ?_⟩
    · rintro rfl
      exact h.not_mem (by decide) hc
    · rintro rfl
      exact h.not_mem (by decide) hc

theorem unreached_reference (after : List Char) :
    Unreached "var(".toList ("var(".toList ++ after) := by
  refine Begins.unreached fun c hc => ?_
  obtain rfl : 'v' = c := Option.some.inj hc
  decide

/-- Where no reference is open and no flag stands before, the searches see what stands there, and a
space in place of a reference. -/
theorem Seen.literalPart_eq {p front : List Char} (hseen : Seen before front)
    (hbefore : ¬ SaysImportant before) (hp : Inert p)
    (hdrop : dropImportant (before ++ (p ++ after)) = before ++ (p ++ dropImportant after))
    (hbalanced : Balanced name) (hname : ¬ SaysImportant name) :
    literalPart (before ++ (p ++ after)) = front ++ (p ++ literalPart after) ∧
      literalPart (referring before "var(".toList name after) =
        front ++ ' ' :: literalPart after := by
  constructor
  · rw [literalPart, hdrop, hseen.blankReferences_append (hp.unreached _), hp.passed]
    rfl
  · rw [literalPart, dropImportant_referring_eq hname hbefore, referring,
      hseen.blankReferences_append (unreached_reference _), blankReferences_opens rfl hbalanced]
    rfl

/-- Elsewhere they see no difference. -/
theorem literalPart_eq_of_not_seen {p : List Char}
    (hnot : SaysImportant before ∨ ¬ ∃ front, Seen before front) (hp : Inert p)
    (hdrop : ¬ SaysImportant before →
      dropImportant (before ++ (p ++ after)) = before ++ (p ++ dropImportant after))
    (hbalanced : Balanced name) (hname : ¬ SaysImportant name) :
    literalPart (before ++ (p ++ after)) =
      literalPart (referring before "var(".toList name after) := by
  by_cases hbefore : SaysImportant before
  · obtain ⟨value, hvalue⟩ := dropImportant_of_saysImportant hbefore
    rw [literalPart, literalPart, referring, hvalue, hvalue]
  obtain ⟨front, depth, hopen⟩ :=
    (seen_or_open before).resolve_left (hnot.resolve_left hbefore)
  have hreference : Balanced (['v', 'a', 'r'] ++ '(' :: (name ++ [')'])) :=
    Balanced.append (by decide) hbalanced.enclose
  have hform (tail : List Char) : "var(".toList ++ (name ++ ')' :: tail) =
      ['v', 'a', 'r'] ++ '(' :: (name ++ [')']) ++ tail := by
    simp
  rw [literalPart, literalPart, hdrop hbefore, dropImportant_referring_eq hname hbefore, referring,
    hopen _ (hp.unreached _), hopen _ (unreached_reference _), hform, hp.balanced.takeArguments,
    hreference.takeArguments]

/-! ### Proposals that take a length out -/

/-- The lengths of the second value are those of the first without one occurrence of a length. -/
def TakesOut (literal : String) (value fixed : List Char) : Prop :=
  ∃ firsts lasts, lengths value = firsts ++ literal :: lasts ∧ lengths fixed = firsts ++ lasts

/-- A length stands alone between two texts: no flag stands before it, no reference is open there,
a number may begin, its unit ends, and no other length begins right behind. -/
structure StandsAlone (before literal after : List Char) : Prop where
  unflagged : ¬ SaysImportant before
  seen : ∃ front, Seen before front ∧ ready front.reverse literal = true
  ends : ∀ c ∈ (literalPart after).head?, isUnitChar c = false
  alone : lengthAt? (literalPart after) = none

/-- A reference in place of a length takes that length out, and nothing else, exactly if it stands
alone. -/
theorem takes_iff_standsAlone (h : IsLength number unit) (hbalanced : Balanced name)
    (hname : ¬ SaysImportant name) (before after : List Char) :
    TakesOut (String.ofList (number ++ unit)) (before ++ (number ++ unit ++ after))
        (referring before "var(".toList name after) ↔
      StandsAlone before (number ++ unit) after := by
  have hready (front : List Char) : ready front.reverse (number ++ unit ++ literalPart after) =
      ready front.reverse (number ++ unit) := by
    obtain ⟨c, cs, hcs⟩ := List.exists_cons_of_ne_nil h.ne_nil
    rw [hcs]
    rfl
  constructor
  · intro htakes
    by_cases hnot : SaysImportant before ∨ ¬ ∃ front, Seen before front
    · obtain ⟨firsts, lasts, hvalue, hfixed⟩ := htakes
      rw [lengths_eq_lengthsIn, literalPart_eq_of_not_seen hnot h.inert
        (fun hbefore => h.dropImportant_eq hbefore after) hbalanced hname,
        ← lengths_eq_lengthsIn, hfixed] at hvalue
      have hlength := congrArg List.length hvalue
      simp only [List.length_append, List.length_cons] at hlength
      omega
    obtain ⟨hbefore, hseen⟩ := not_or.1 hnot
    obtain ⟨front, hseen⟩ := not_not.1 hseen
    obtain ⟨hvalue, hfixed⟩ := hseen.literalPart_eq hbefore h.inert
      (h.dropImportant_eq hbefore after) hbalanced hname
    rw [TakesOut, lengths_eq_lengthsIn, lengths_eq_lengthsIn, hvalue, hfixed,
      takes_iff _ _ h] at htakes
    exact ⟨hbefore, ⟨front, hseen, hready front ▸ htakes.1⟩, htakes.2.1, htakes.2.2⟩
  · rintro ⟨hbefore, ⟨front, hseen, hhere⟩, hends, halone⟩
    obtain ⟨hvalue, hfixed⟩ := hseen.literalPart_eq hbefore h.inert
      (h.dropImportant_eq hbefore after) hbalanced hname
    rw [TakesOut, lengths_eq_lengthsIn, lengths_eq_lengthsIn, hvalue, hfixed, takes_iff _ _ h]
    exact ⟨(hready front).trans hhere, hends, halone⟩

end

/-! ### First occurrences -/

/-- The first occurrence of a pattern in a text stands between two texts. -/
def IsFirst (pattern text before after : List Char) : Prop :=
  text = before ++ (pattern ++ after) ∧
    ∀ before' after', text = before' ++ (pattern ++ after') → before.length ≤ before'.length

section

variable {pattern text before after : List Char} {drop? : List Char → Option (List Char)}

theorem splitBy?_eq_none (h : splitBy? drop? text = none) :
    ∀ front rest, text = front ++ rest → drop? rest = none := by
  induction text with
  | nil =>
    intro front rest heq
    obtain ⟨-, rfl⟩ := List.append_eq_nil_iff.1 heq.symm
    exact Option.map_eq_none_iff.1 h
  | cons c cs ih =>
    rw [splitBy?] at h
    cases hdrop : drop? (c :: cs) with
    | some r =>
      rw [hdrop] at h
      cases h
    | none =>
      rw [hdrop] at h
      rintro (_ | ⟨d, front⟩) rest heq
      · obtain rfl : c :: cs = rest := heq
        exact hdrop
      · exact ih (Option.map_eq_none_iff.1 h) front rest (List.cons.inj heq).2

theorem length_le_of_splitBy? (h : splitBy? drop? text = some (before, after)) :
    ∀ front rest, text = front ++ rest → (drop? rest).isSome = true →
      before.length ≤ front.length := by
  induction text generalizing before after with
  | nil =>
    obtain ⟨r, -, heq⟩ := Option.map_eq_some_iff.1 h
    obtain ⟨rfl, -⟩ := Prod.mk.inj heq
    exact fun front _ _ _ => Nat.zero_le front.length
  | cons c cs ih =>
    rw [splitBy?] at h
    cases hdrop : drop? (c :: cs) with
    | some r =>
      rw [hdrop] at h
      obtain ⟨rfl, -⟩ := Prod.mk.inj (Option.some.inj h)
      exact fun front _ _ _ => Nat.zero_le front.length
    | none =>
      rw [hdrop] at h
      obtain ⟨⟨before', after'⟩, hsplit, heq⟩ := Option.map_eq_some_iff.1 h
      obtain ⟨rfl, -⟩ := Prod.mk.inj heq
      rintro (_ | ⟨d, front⟩) rest heq hsome
      · rw [← show c :: cs = rest from heq, hdrop] at hsome
        cases hsome
      · exact Nat.succ_le_succ (ih hsplit front rest (List.cons.inj heq).2 hsome)

theorem splitAt?_eq_some_iff :
    splitAt? pattern text = some (before, after) ↔ IsFirst pattern text before after := by
  have hbegins (rest after : List Char) :
      pattern.isPrefixOf? rest = some after ↔ rest = pattern ++ after := by
    rw [List.isPrefixOf?_eq_some_iff_append_eq, eq_comm]
  have hsome (rest : List Char) : (pattern.isPrefixOf? (pattern ++ rest)).isSome = true := by
    rw [(hbegins _ rest).2 rfl]
    rfl
  constructor
  · intro h
    obtain ⟨rest, heq, hrest⟩ := splitBy?_eq_some h
    rw [(hbegins rest after).1 hrest] at heq
    exact ⟨heq, fun before' after' heq' => length_le_of_splitBy? h before' _ heq' (hsome after')⟩
  · rintro ⟨heq, hfirst⟩
    cases hsplit : splitAt? pattern text with
    | none =>
      have hnone := splitBy?_eq_none hsplit before _ heq
      rw [Option.eq_none_iff_forall_ne_some] at hnone
      exact absurd ((hbegins _ after).2 rfl) (hnone after)
    | some r =>
      obtain ⟨before', after'⟩ := r
      obtain ⟨rest, heq', hrest⟩ := splitBy?_eq_some hsplit
      rw [(hbegins rest after').1 hrest] at heq'
      have hle := length_le_of_splitBy? hsplit before _ heq (hsome after)
      have hlength := Nat.le_antisymm hle (hfirst before' after' heq')
      rw [heq] at heq'
      obtain ⟨rfl, hrest⟩ := List.append_inj heq' hlength.symm
      rw [List.append_cancel_left hrest]

/-- A reference in place of the first occurrence of a length takes that length out, and nothing
else, exactly if that occurrence stands alone. -/
theorem takes_first_iff {value name : List Char} {literal : String}
    (hliteral : literal ∈ lengths value)
    (hbalanced : Balanced name) (hname : ¬ SaysImportant name) :
    TakesOut literal value
        (replaceFirst literal.toList ("var(".toList ++ (name ++ [')'])) value) ↔
      ∃ before after, IsFirst literal.toList value before after ∧
        StandsAlone before literal.toList after := by
  obtain ⟨number, unit, rfl, hlength⟩ := exists_isLength hliteral
  rw [String.toList_ofList, replaceFirst]
  cases hsplit : splitAt? (number ++ unit) value with
  | none =>
    constructor
    · rintro ⟨firsts, lasts, hvalue, hfixed⟩
      have hlong := congrArg List.length (hvalue.symm.trans hfixed)
      simp only [List.length_append, List.length_cons] at hlong
      omega
    · rintro ⟨before, after, hfirst, -⟩
      rw [splitAt?_eq_some_iff.2 hfirst] at hsplit
      cases hsplit
  | some r =>
    obtain ⟨before, after⟩ := r
    have hfirst := splitAt?_eq_some_iff.1 hsplit
    have hform : before ++ ("var(".toList ++ (name ++ [')'])) ++ after =
        referring before "var(".toList name after := by
      simp only [referring, List.append_assoc, List.singleton_append]
    dsimp only
    rw [hform, hfirst.1, takes_iff_standsAlone hlength hbalanced hname, ← hfirst.1]
    constructor
    · exact fun halone => ⟨before, after, hfirst, halone⟩
    · rintro ⟨before', after', hfirst', halone⟩
      rw [splitAt?_eq_some_iff.2 hfirst'] at hsplit
      obtain ⟨rfl, rfl⟩ := Prod.mk.inj (Option.some.inj hsplit)
      exact halone

end

end Value

namespace Spacing

open Text Value

/-! ### The finding about a declaration -/

/-- A finding proposes a variable for a length of a declaration, with the value after the fix. -/
structure Proposes (s : Sheet) (i : Issue) (d : Declaration) (literal name fixed : String) :
    Prop where
  held : heldLiteral? s.customProperties (spacingLiterals d) = some (literal, name)
  suggestion : i.suggestion = s!"Use var({name}), which already holds {literal}"
  sample : i.sample = some ⟨s!"{d.name}: {d.value};", s!"{d.name}: {fixed};"⟩

section

variable {s : Sheet} {i : Issue} {d : Declaration} {literal name fixed : String}

/-- The two other rules have names of their own. -/
theorem exists_hardcodedSpacing (hi : i ∈ check s) (hrule : i.rule = "spacing/hardcoded-spacing") :
    ∃ p ∈ s.declarations, hardcodedSpacing s p.2 = some i := by
  obtain ⟨p, hp, hi⟩ := List.mem_flatMap.1 hi
  refine ⟨p, hp, ?_⟩
  simp only [declarationIssues, List.mem_append, Option.mem_toList] at hi
  rcases hi with (hspacing | htype) | hradius
  · exact hspacing
  · have hname : i.rule = "spacing/hardcoded-font-size" := by
      rw [hardcodedType] at htype
      split at htype
      · cases htype
      · exact congrArg Issue.rule (Option.some.inj htype).symm
    exact absurd (hrule.symm.trans hname) (by decide)
  · have hname : i.rule = "spacing/hardcoded-radius" := by
      rw [hardcodedRadius] at hradius
      split at hradius
      · cases hradius
      · exact congrArg Issue.rule (Option.some.inj hradius).symm
    exact absurd (hrule.symm.trans hname) (by decide)

theorem proposal_of_hardcodedSpacing (h : hardcodedSpacing s d = some i) :
    i.location = s.locate d.pos ∧
      i.suggestion = (proposal s.customProperties d (spacingLiterals d)).1 ∧
      i.sample = some ⟨s!"{d.name}: {d.value};",
        (proposal s.customProperties d (spacingLiterals d)).2⟩ := by
  rw [hardcodedSpacing] at h
  split at h
  · cases h
  · obtain rfl := Option.some.inj h
    exact ⟨rfl, rfl, rfl⟩

theorem mem_lengths_of_held {declared : List Variable}
    (h : heldLiteral? declared (spacingLiterals d) = some (literal, name)) :
    literal ∈ lengths d.value.toList := by
  obtain ⟨l, hmem, hsome⟩ := List.exists_of_findSome?_eq_some h
  obtain ⟨n, -, heq⟩ := Option.map_eq_some_iff.1 hsome
  obtain ⟨rfl, rfl⟩ := Prod.mk.inj heq
  rw [spacingLiterals, List.mem_ite_nil_right] at hmem
  exact hmem.2

/-- **The proposal for a length that a variable holds takes that length out, and nothing else,
exactly if the first occurrence of the length stands alone.** -/
theorem proposal_takes_iff (hi : i ∈ check s) (hrule : i.rule = "spacing/hardcoded-spacing") :
    ∃ p ∈ s.declarations, i.location = s.locate p.2.pos ∧
      (heldLiteral? s.customProperties (spacingLiterals p.2) = none ∧
          i.suggestion = "Use a variable from the spacing scale (e.g. var(--space-md))" ∨
        ∃ literal name fixed, Proposes s i p.2 literal name fixed ∧
          (Balanced name.toList → ¬ SaysImportant name.toList →
            (TakesOut literal p.2.value.toList fixed.toList ↔
              ∃ before after, IsFirst literal.toList p.2.value.toList before after ∧
                StandsAlone before literal.toList after))) := by
  obtain ⟨p, hp, hissue⟩ := exists_hardcodedSpacing hi hrule
  obtain ⟨hlocation, hsuggestion, hsample⟩ := proposal_of_hardcodedSpacing hissue
  refine ⟨p, hp, hlocation, ?_⟩
  rw [proposal] at hsuggestion hsample
  cases hheld : heldLiteral? s.customProperties (spacingLiterals p.2) with
  | none =>
    rw [hheld] at hsuggestion
    exact .inl ⟨rfl, hsuggestion⟩
  | some r =>
    obtain ⟨literal, name⟩ := r
    rw [hheld] at hsuggestion hsample
    refine .inr ⟨literal, name, _, ⟨hheld, ?_, hsample⟩, fun hbalanced hname => ?_⟩
    · rw [hsuggestion, ← String.toList_inj]
      simp [toString]
    · have hreference : s!"var({name})".toList = "var(".toList ++ (name.toList ++ [')']) := by
        simp [toString]
      rw [String.toList_ofList, hreference]
      exact takes_first_iff (mem_lengths_of_held hheld) hbalanced hname

end

/-- A sheet with a variable that holds a length and with one margin. -/
def marginSheet (value : String) : Sheet where
  path := "main.css"
  customProperties := [⟨"--space-1", "6px", .spacing, ":root", .start⟩]
  rules := [⟨".a", [⟨"margin", value, .start⟩], none, .start⟩]

/-- The second of two lengths gives way to the variable. -/
theorem proposal_takes_second : ∃ i ∈ check (marginSheet "4px 6px"),
    i.rule = "spacing/hardcoded-spacing" ∧ ∃ p ∈ (marginSheet "4px 6px").declarations,
      ∃ literal name fixed, Proposes (marginSheet "4px 6px") i p.2 literal name fixed ∧
        TakesOut literal p.2.value.toList fixed.toList := by
  obtain ⟨i, hi, hrule, hsuggestion⟩ : ∃ i ∈ check (marginSheet "4px 6px"),
      i.rule = "spacing/hardcoded-spacing" ∧
        i.suggestion = "Use var(--space-1), which already holds 6px" := by
    decide +kernel
  obtain ⟨p, hp, -, hcase⟩ := proposal_takes_iff hi hrule
  have hmargin : p.2 = ⟨"margin", "4px 6px", .start⟩ := by
    have hall : ∀ p ∈ (marginSheet "4px 6px").declarations,
        p.2 = ⟨"margin", "4px 6px", .start⟩ := by
      decide +kernel
    exact hall p hp
  obtain ⟨-, hscale⟩ | ⟨literal, name, fixed, hproposes, hiff⟩ := hcase
  · rw [hsuggestion] at hscale
    exact absurd hscale (by decide)
  have hheld : heldLiteral? (marginSheet "4px 6px").customProperties (spacingLiterals p.2) =
      some ("6px", "--space-1") := by
    rw [hmargin]
    decide +kernel
  obtain ⟨rfl, rfl⟩ := Prod.mk.inj (Option.some.inj (hheld.symm.trans hproposes.held))
  refine ⟨i, hi, hrule, p, hp, _, _, fixed, hproposes, (hiff (by decide) (by decide)).2 ?_⟩
  rw [hmargin]
  refine ⟨"4px ".toList, [], splitAt?_eq_some_iff.1 (by decide), by decide, ?_, ?_,
    by decide +kernel⟩
  · exact ⟨"4px ".toList, .char rfl (.char rfl (.char rfl (.char rfl .nil))), by decide⟩
  · rw [show literalPart [] = [] by decide +kernel]
    exact nofun

/-- A length that ends another one is taken out of that one. -/
theorem proposal_splits_length : ∃ i ∈ check (marginSheet "16px 6px"),
    i.rule = "spacing/hardcoded-spacing" ∧
      i.suggestion = "Use var(--space-1), which already holds 6px" ∧
      i.sample = some ⟨"margin: 16px 6px;", "margin: 1var(--space-1) 6px;"⟩ ∧
      ¬ TakesOut "6px" "16px 6px".toList "1var(--space-1) 6px".toList := by
  obtain ⟨i, hi, hrule, hsuggestion, hsample⟩ : ∃ i ∈ check (marginSheet "16px 6px"),
      i.rule = "spacing/hardcoded-spacing" ∧
        i.suggestion = "Use var(--space-1), which already holds 6px" ∧
        i.sample = some ⟨"margin: 16px 6px;", "margin: 1var(--space-1) 6px;"⟩ := by
    decide +kernel
  refine ⟨i, hi, hrule, hsuggestion, hsample, ?_⟩
  rintro ⟨firsts, lasts, hvalue, hfixed⟩
  have hboth : lengths "16px 6px".toList = ["16px", "6px"] := by decide +kernel
  have hlast : lengths "1var(--space-1) 6px".toList = ["6px"] := by decide +kernel
  rw [hboth] at hvalue
  rw [hlast] at hfixed
  -- the first length is kept in what the original value says, and missing after the fix
  cases firsts with
  | nil => exact absurd (List.cons.inj hvalue).1 (by decide)
  | cons l firsts =>
    obtain rfl : "16px" = l := (List.cons.inj hvalue).1
    exact absurd (List.cons.inj hfixed).1 (by decide)

end Spacing
end SheetAudit
