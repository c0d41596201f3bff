import Mathlib
import SheetAudit.Proofs.Blank
import SheetAudit.Proofs.Values
import SheetAudit.Value.Literal

/-!
# What references hide

What a reference holds, its fallback included, is invisible to every search for literals.  A value
is cut before its `!important`, and every reference in it makes way for a space; both steps look at
the text between the parentheses of a reference only to find the parenthesis that closes it.

## Main definitions

* `searches` — the searches for literals.
* `Balanced` — every parenthesis of a text is closed in it, and none is closed that it did not open.
* `referring` — a value with a reference in it.

## Main results

* `dropAscii?_append`, `splitAscii?_append_cons` — where no word can reach across.
* `dropImportant_referring` — the cut before `!important` leaves a reference whole or drops it.
* `blankReferences_referring` — what a reference holds is gone with the reference.
* `searches_pass_over_references` — **no search for literals sees what a reference holds, and none
  finds anything in a value of references only.**
-/

namespace SheetAudit
namespace Value

open Text
open Offsets (toLower_cases splitBy?_eq_some dropAscii?_eq_some eq_openParen_of_toLower
  blankReferences_cons_of_none blankReferences_cons_of_some)

/-- The searches for literals: lengths, numbers, times, easings and colors. -/
def searches : List (List Char → List String) := [lengths, numbers, times, easings, colors]

/-! ### Words that do not reach across -/

/-- A word that cannot go on with the head of `tail` ends before it or not at all. -/
theorem dropAscii?_append {word tail : List Char} (h : ∀ c ∈ tail.head?, c.toLower ∉ word)
    (cs : List Char) : dropAscii? word (cs ++ tail) = (dropAscii? word cs).map (· ++ tail) := by
  fun_induction dropAscii? word cs with
  | case1 cs => rfl
  | case2 w word =>
    cases tail with
    | nil => rfl
    | cons c tail =>
      have hne : c.toLower ≠ w := fun heq => h c rfl (heq ▸ List.mem_cons_self)
      rw [List.nil_append, dropAscii?, if_neg (by simpa using hne)]
      rfl
  | case3 w word c cs hc ih =>
    rw [List.cons_append, dropAscii?, if_pos hc]
    exact ih fun d hd hmem => h d hd (List.mem_cons_of_mem w hmem)
  | case4 w word c cs hc =>
    rw [List.cons_append, dropAscii?, if_neg hc]
    rfl

theorem dropAscii?_lowerAscii (front rest : List Char) :
    dropAscii? (lowerAscii front) (front ++ rest) = some rest := by
  induction front with
  | nil => cases rest <;> rfl
  | cons c front ih =>
    rw [lowerAscii, List.map_cons, List.cons_append, dropAscii?, if_pos (beq_self_eq_true _)]
    exact ih

/-- A word stands before a character that is none of its own, or behind it. -/
theorem splitAscii?_append_cons {word : List Char} (hne : word ≠ []) {c : Char}
    (hc : c.toLower ∉ word) (cs rest : List Char) :
    splitAscii? word (cs ++ c :: rest) =
      match splitAscii? word cs with
      | some (front, back) => some (front, back ++ c :: rest)
      | none => (splitAscii? word rest).map fun r => (cs ++ c :: r.1, r.2) := by
  have hdrop (ds : List Char) :
      dropAscii? word (ds ++ c :: rest) = (dropAscii? word ds).map (· ++ c :: rest) :=
    dropAscii?_append (by simpa using hc) ds
  have hnil : dropAscii? word [] = none := by
    obtain ⟨w, ws, rfl⟩ := List.exists_cons_of_ne_nil hne
    rfl
  rw [splitAscii?, splitAscii?, splitAscii?]
  induction cs with
  | nil =>
    have hhead := hdrop []
    rw [hnil, List.nil_append, Option.map_none] at hhead
    have hempty : splitBy? (dropAscii? word) [] = none := by rw [splitBy?, hnil, Option.map_none]
    rw [List.nil_append, hempty, splitBy?, hhead]
    rfl
  | cons d cs ih =>
    have hhead := hdrop (d :: cs)
    rw [List.cons_append] at hhead ⊢
    rw [splitBy?, hhead, splitBy?]
    cases dropAscii? word (d :: cs) with
    | some back => rfl
    | none =>
      rw [Option.map_none]
      dsimp only
      rw [ih]
      cases splitBy? (dropAscii? word) cs with
      | some r => rfl
      | none =>
        rw [Option.map_none]
        dsimp only
        rw [Option.map_map]
        rfl

/-! ### A value with a reference in it -/

/-- Every parenthesis of the text is closed in it, and none is closed that it did not open. -/
structure Balanced (held : List Char) : Prop where
  closes_le : ∀ front, front <+: held → front.count ')' ≤ front.count '('
  closes_eq : held.count ')' = held.count '('

theorem balanced_iff {held : List Char} :
    Balanced held ↔ (∀ front ∈ held.inits, front.count ')' ≤ front.count '(') ∧
      held.count ')' = held.count '(' :=
  ⟨fun h => ⟨fun front hfront => h.closes_le front ((List.mem_inits _ _).1 hfront), h.closes_eq⟩,
    fun h => ⟨fun front hfront => h.1 front ((List.mem_inits _ _).2 hfront), h.2⟩⟩

instance (held : List Char) : Decidable (Balanced held) := decidable_of_iff _ balanced_iff.symm

/-- The text says `!important`, in some letter case. -/
def SaysImportant (text : List Char) : Prop :=
  ∃ word, word <:+: text ∧ lowerAscii word = "!important".toList

theorem saysImportant_iff {text : List Char} :
    SaysImportant text ↔ (splitAscii? "!important".toList text).isSome := by
  constructor
  · rintro ⟨word, ⟨front, back, rfl⟩, hword⟩
    rw [← hword, splitAscii?, List.append_assoc]
    induction front with
    | nil =>
      obtain ⟨c, cs, rfl⟩ := List.exists_cons_of_ne_nil (l := word) (by rintro rfl; cases hword)
      have hhere := dropAscii?_lowerAscii (c :: cs) back
      rw [List.nil_append]
      rw [List.cons_append] at hhere ⊢
      rw [splitBy?, hhere]
      rfl
    | cons c front ih =>
      rw [List.cons_append, splitBy?]
      split
      · rfl
      · rwa [Option.isSome_map]
  · intro h
    obtain ⟨r, hr⟩ := Option.isSome_iff_exists.1 h
    obtain ⟨rest, rfl, hdrop⟩ := splitBy?_eq_some hr
    obtain ⟨word, rfl, hword⟩ := dropAscii?_eq_some hdrop
    exact ⟨word, ⟨r.1, r.2, by rw [List.append_assoc]⟩, hword⟩

instance (text : List Char) : Decidable (SaysImportant text) :=
  decidable_of_iff _ saysImportant_iff.symm

/-- A reference between two texts; `word` is `var(` in some letter case. -/
def referring (before word held after : List Char) : List Char :=
  before ++ (word ++ (held ++ ')' :: after))

theorem exists_of_lowerAscii {word : List Char} (h : lowerAscii word = "var(".toList) :
    ∃ v a r, word = [v, a, r, '('] ∧ v.toLower = 'v' ∧ a.toLower = 'a' ∧ r.toLower = 'r' := by
  have h : word.map Char.toLower = ['v', 'a', 'r', '('] := h
  obtain ⟨v, tail, rfl, hv, h₁⟩ := List.map_eq_cons_iff.1 h
  obtain ⟨a, tail, rfl, ha, h₂⟩ := List.map_eq_cons_iff.1 h₁
  obtain ⟨r, tail, rfl, hr, h₃⟩ := List.map_eq_cons_iff.1 h₂
  obtain ⟨p, tail, rfl, hp, h₄⟩ := List.map_eq_cons_iff.1 h₃
  obtain rfl := List.map_eq_nil_iff.1 h₄
  exact ⟨v, a, r, by rw [eq_openParen_of_toLower hp], hv, ha, hr⟩

/-! ### The cut before `!important` -/

theorem trimRight_append_cons {c : Char} (hc : isBlank c = false) (cs rest : List Char) :
    trimRight (cs ++ c :: rest) = cs ++ c :: trimRight rest := by
  rw [trimRight, List.reverse_append, List.reverse_cons, List.append_assoc, List.dropWhile_append,
    trimRight]
  split
  · next hempty =>
    rw [List.isEmpty_iff.1 hempty, List.singleton_append,
      List.dropWhile_cons_of_neg (by simp [hc]), List.reverse_cons, List.reverse_reverse]
    rfl
  · simp

/-- The word `!important` stands before a reference or behind it. -/
theorem splitAscii?_referring {before word held after : List Char}
    (hword : lowerAscii word = "var(".toList) (hheld : ¬ SaysImportant held) :
    splitAscii? "!important".toList (referring before word held after) =
      match splitAscii? "!important".toList before with
      | some (front, back) => some (front, referring back word held after)
      | none =>
        (splitAscii? "!important".toList after).map fun r =>
          (referring before word held r.1, r.2) := by
  obtain ⟨v, a, r, rfl, hv, ha, hr⟩ := exists_of_lowerAscii hword
  have hne : "!important".toList ≠ [] := by decide
  have hname : splitAscii? "!important".toList [a, r] = none := by
    simp [splitAscii?, splitBy?, dropAscii?, ha, hr]
  have hopen : '('.toLower ∉ "!important".toList := by decide
  have hclose : ')'.toLower ∉ "!important".toList := by decide
  -- the name, its parenthesis and the closing one are no part of the word
  have hinner : splitAscii? "!important".toList ([a, r] ++ '(' :: (held ++ ')' :: after)) =
      (splitAscii? "!important".toList after).map fun s =>
        ([a, r] ++ '(' :: (held ++ ')' :: s.1), s.2) := by
    rw [splitAscii?_append_cons hne hopen, hname, splitAscii?_append_cons hne hclose,
      Option.not_isSome_iff_eq_none.1 (saysImportant_iff.not.1 hheld)]
    dsimp only
    rw [Option.map_map]
    rfl
  have hsplit := splitAscii?_append_cons hne (c := v) (by rw [hv]; decide) before
    ([a, r] ++ '(' :: (held ++ ')' :: after))
  rw [hinner, Option.map_map] at hsplit
  exact hsplit

/-- The cut before `!important` drops a reference, or leaves it whole. -/
theorem dropImportant_referring {word : List Char} (hword : lowerAscii word = "var(".toList)
    (before after : List Char) :
    (∃ value, ∀ held, ¬ SaysImportant held →
      dropImportant (referring before word held after) = value) ∨
    ∃ rest, ∀ held, ¬ SaysImportant held →
      dropImportant (referring before word held after) = referring before word held rest := by
  cases hbefore : splitAscii? "!important".toList before with
  | some r =>
    refine .inl ⟨trimRight r.1, fun held hheld => ?_⟩
    rw [dropImportant, splitAscii?_referring hword hheld, hbefore]
  | none =>
    cases hafter : splitAscii? "!important".toList after with
    | some r =>
      refine .inr ⟨trimRight r.1, fun held hheld => ?_⟩
      rw [dropImportant, splitAscii?_referring hword hheld, hbefore, hafter]
      dsimp only [Option.map_some]
      rw [referring, ← List.append_assoc, ← List.append_assoc, trimRight_append_cons (by decide),
        List.append_assoc, List.append_assoc]
      rfl
    | none =>
      refine .inr ⟨after, fun held hheld => ?_⟩
      rw [dropImportant, splitAscii?_referring hword hheld, hbefore, hafter]
      rfl

/-! ### Blanking references -/

theorem takeArguments_cons (depth : Nat) (c : Char) (cs : List Char) :
    (takeArguments depth (c :: cs)).2 =
      if c == ')' && depth == 0 then cs
      else (takeArguments
        (if c == '(' then depth + 1 else if c == ')' then depth - 1 else depth) cs).2 := by
  rw [takeArguments]
  split <;> rfl

/-- Where the arguments end behind a text that closes no more than `depth` parentheses. -/
theorem takeArguments_of_closes_le {depth : Nat} {cs : List Char}
    (h : ∀ front, front <+: cs → front.count ')' ≤ front.count '(' + depth) (rest : List Char) :
    (takeArguments depth (cs ++ rest)).2 =
      (takeArguments (depth + cs.count '(' - cs.count ')') rest).2 := by
  induction cs generalizing depth with
  | nil => rfl
  | cons c cs ih =>
    have htail (front : List Char) (hfront : front <+: cs) :
        (c :: front).count ')' ≤ (c :: front).count '(' + depth :=
      h (c :: front) ((List.prefix_cons_inj c).2 hfront)
    have hself (d : Char) (ds : List Char) : (d :: ds).count d = ds.count d + 1 :=
      List.count_cons_self
    have hother {d e : Char} (hne : d ≠ e) (ds : List Char) : (d :: ds).count e = ds.count e :=
      List.count_cons_of_ne hne
    rw [List.cons_append, takeArguments_cons]
    by_cases hclose : c = ')'
    · subst hclose
      simp only [hself, hother (show ')' ≠ '(' by decide)] at htail ⊢
      have hdepth := htail [] List.nil_prefix
      rw [List.count_nil, List.count_nil] at hdepth
      have hpos : (')' == ')' && depth == 0) = false := by simp; omega
      rw [hpos, if_neg Bool.false_ne_true, if_neg (by decide), if_pos (by decide), ih]
      · congr 2
        omega
      · intro front hfront
        have := htail front hfront
        omega
    by_cases hopen : c = '('
    · subst hopen
      simp only [hself, hother (show '(' ≠ ')' by decide)] at htail ⊢
      rw [if_neg (by simp), if_pos (by decide), ih]
      · congr 2
        omega
      · intro front hfront
        have := htail front hfront
        omega
    · simp only [hother hclose, hother hopen] at htail ⊢
      rw [if_neg (by simp [hclose]), if_neg (by simpa using hopen), if_neg (by simpa using hclose),
        ih htail]

theorem Balanced.takeArguments {held : List Char} (h : Balanced held) (depth : Nat)
    (rest : List Char) :
    (takeArguments depth (held ++ rest)).2 = (takeArguments depth rest).2 := by
  rw [takeArguments_of_closes_le fun front hfront =>
    Nat.le_add_right_of_le (h.closes_le front hfront), h.closes_eq, Nat.add_sub_cancel]

/-- A reference opens one parenthesis. -/
theorem takeArguments_opening {word : List Char} (hword : lowerAscii word = "var(".toList)
    (depth : Nat) (rest : List Char) :
    (takeArguments depth (word ++ rest)).2 = (takeArguments (depth + 1) rest).2 := by
  obtain ⟨v, a, r, rfl, hv, ha, hr⟩ := exists_of_lowerAscii hword
  have hne {x l : Char} (hx : x.toLower = l) (p : Char) (hp : p.toLower ≠ l) : x ≠ p :=
    fun h => hp (h ▸ hx)
  have hpass {x : Char} (hopen : x ≠ '(') (hclose : x ≠ ')') (cs : List Char) :
      (takeArguments depth (x :: cs)).2 = (takeArguments depth cs).2 := by
    rw [takeArguments_cons, if_neg (by simp [hclose]), if_neg (by simpa using hopen),
      if_neg (by simpa using hclose)]
  rw [List.cons_append, hpass (hne hv _ (by decide)) (hne hv _ (by decide)), List.cons_append,
    hpass (hne ha _ (by decide)) (hne ha _ (by decide)), List.cons_append,
    hpass (hne hr _ (by decide)) (hne hr _ (by decide)), List.cons_append, List.nil_append,
    takeArguments_cons]
  rfl

/-- The arguments end in a text whatever follows it, or the text leaves some parentheses open. -/
theorem takeArguments_append (depth : Nat) (cs : List Char) :
    (∃ rest, rest.length ≤ cs.length ∧
      ∀ tail, (takeArguments depth (cs ++ tail)).2 = rest ++ tail) ∨
    ∃ d, ∀ tail, (takeArguments depth (cs ++ tail)).2 = (takeArguments d tail).2 := by
  induction cs generalizing depth with
  | nil => exact .inr ⟨depth, fun tail => rfl⟩
  | cons c cs ih =>
    by_cases hend : (c == ')' && depth == 0) = true
    · refine .inl ⟨cs, Nat.le_succ _, fun tail => ?_⟩
      rw [List.cons_append, takeArguments_cons, if_pos hend]
    · simp only [List.cons_append, takeArguments_cons, if_neg hend]
      rcases ih (if c == '(' then depth + 1 else if c == ')' then depth - 1 else depth) with
        ⟨rest, hle, hrest⟩ | hopen
      · exact .inl ⟨rest, Nat.le_succ_of_le hle, hrest⟩
      · exact .inr hopen

/-- The name of a reference does not begin in the text before it. -/
theorem reference?_append {tail : List Char} (h : ∀ c ∈ tail.head?, c.toLower ∉ ['a', 'r', '('])
    (c : Char) (cs : List Char) :
    reference? (c :: cs ++ tail) = (reference? (c :: cs)).map (· ++ tail) := by
  change dropAscii? ['v', 'a', 'r', '('] (c :: (cs ++ tail)) =
    (dropAscii? ['v', 'a', 'r', '('] (c :: cs)).map (· ++ tail)
  rw [dropAscii?, dropAscii?]
  split
  · exact dropAscii?_append h cs
  · rfl

/-- What a reference holds is gone with the reference. -/
theorem blankReferences_referring {word held held' : List Char}
    (hword : lowerAscii word = "var(".toList) (hheld : Balanced held) (hheld' : Balanced held')
    (before after : List Char) :
    blankReferences (referring before word held after) =
      blankReferences (referring before word held' after) := by
  induction hn : before.length using Nat.strongRecOn generalizing before with
  | _ n ih =>
    cases before with
    | nil =>
      have hhere {inner : List Char} (h : Balanced inner) :
          blankReferences (referring [] word inner after) = ' ' :: blankReferences after := by
        have href : reference? (word ++ (inner ++ ')' :: after)) = some (inner ++ ')' :: after) := by
          rw [reference?, ← hword]
          exact dropAscii?_lowerAscii word _
        obtain ⟨v, a, r, rfl, -⟩ := exists_of_lowerAscii hword
        rw [referring, List.nil_append]
        rw [List.cons_append] at href ⊢
        rw [blankReferences_cons_of_some href, h.takeArguments]
        rfl
      rw [hhere hheld, hhere hheld']
    | cons c before =>
      have hlength : before.length < n := by
        rw [← hn]
        exact Nat.lt_succ_self _
      have href (inner : List Char) : reference? (c :: referring before word inner after) =
          (reference? (c :: before)).map (referring · word inner after) := by
        obtain ⟨v, a, r, rfl, hv, -⟩ := exists_of_lowerAscii hword
        exact reference?_append (by simp [hv]) c before
      change blankReferences (c :: referring before word held after) =
        blankReferences (c :: referring before word held' after)
      cases hrest : reference? (c :: before) with
      | none =>
        have hnone (inner : List Char) :
            reference? (c :: referring before word inner after) = none := by
          rw [href, hrest, Option.map_none]
        rw [blankReferences_cons_of_none (hnone held), blankReferences_cons_of_none (hnone held'),
          ih before.length hlength before rfl]
      | some rest =>
        have hsome (inner : List Char) :
            reference? (c :: referring before word inner after) =
              some (referring rest word inner after) := by
          rw [href, hrest, Option.map_some]
        rw [blankReferences_cons_of_some (hsome held), blankReferences_cons_of_some (hsome held')]
        rcases takeArguments_append 0 rest with ⟨back, hle, hback⟩ | ⟨d, hd⟩
        · -- a reference before this one is closed before it
          have hshort : back.length < n := by
            have := length_reference? hrest
            rw [List.length_cons] at this hn
            omega
          rw [referring, hback, referring, hback]
          exact congrArg _ (ih back.length hshort back rfl)
        · -- this reference stands inside another one
          rw [referring, hd, referring, hd, takeArguments_opening hword, takeArguments_opening hword,
            hheld.takeArguments, hheld'.takeArguments]

/-- The part of a value that searches for literals see does not depend on what a reference
holds. -/
theorem literalPart_referring {word held held' : List Char}
    (hword : lowerAscii word = "var(".toList) (hheld : Balanced held) (hheld' : Balanced held')
    (himp : ¬ SaysImportant held) (himp' : ¬ SaysImportant held') (before after : List Char) :
    literalPart (referring before word held after) =
      literalPart (referring before word held' after) := by
  rw [literalPart, literalPart]
  rcases dropImportant_referring hword before after with ⟨value, hvalue⟩ | ⟨rest, hrest⟩
  · rw [hvalue held himp, hvalue held' himp']
  · rw [hrest held himp, hrest held' himp', blankReferences_referring hword hheld hheld']

/-- The searches look at that part only. -/
theorem search_eq_of_literalPart_eq {value value' : List Char}
    (h : literalPart value = literalPart value') :
    ∀ search ∈ searches, search value = search value' := by
  intro search hsearch
  simp only [searches, List.mem_cons, List.not_mem_nil, or_false] at hsearch
  rcases hsearch with rfl | rfl | rfl | rfl | rfl
  · rw [lengths, quantities, h, lengths, quantities]
  · rw [numbers, quantities, h, numbers, quantities]
  · rw [times, quantities, h, times, quantities]
  · rw [easings, h, easings]
  · rw [colors, h, colors]

/-! ### Values of references only -/

/-- A test that all blanks pass. -/
theorem of_isBlank {p : Char → Bool} (h : ∀ n ∈ blankPoints, p (Char.ofNat n) = true) {c : Char}
    (hc : isBlank c = true) : p c = true := by
  have hp := h _ (mem_blankPoints hc)
  rwa [Char.ofNat_toNat] at hp

theorem toLower_of_isBlank {c : Char} (h : isBlank c = true) : c.toLower = c :=
  eq_of_beq (of_isBlank (p := fun c => c.toLower == c) (by decide) h)

theorem isHexDigit_of_isBlank {c : Char} (h : isBlank c = true) : isHexDigit c = false := by
  have hnot := of_isBlank (p := fun c => !isHexDigit c) (by decide) h
  rwa [Bool.not_eq_true'] at hnot

/-- Blanks are no part of a word without blanks. -/
theorem toLower_not_mem_of_isBlank {word : List Char} (hword : word.any isBlank = false)
    {c : Char} (h : isBlank c = true) : c.toLower ∉ word := fun hmem => by
  rw [toLower_of_isBlank h] at hmem
  exact Bool.false_ne_true (hword.symm.trans (List.any_eq_true.2 ⟨c, hmem, h⟩))

/-- A text stands between the blanks that trimming takes away. -/
theorem exists_append_trim (cs : List Char) :
    ∃ left right, cs = left ++ (trim cs ++ right) ∧ (∀ c ∈ left, isBlank c = true) ∧
      ∀ c ∈ right, isBlank c = true := by
  have hall {ds : List Char} : ∀ c ∈ ds.takeWhile isBlank, isBlank c = true :=
    fun c hc => List.mem_takeWhile_imp hc
  refine ⟨cs.takeWhile isBlank, ((trimLeft cs).reverse.takeWhile isBlank).reverse, ?_, hall,
    fun c hc => hall c (List.mem_reverse.1 hc)⟩
  rw [trim, trimRight, ← List.reverse_append, List.takeWhile_append_dropWhile,
    List.reverse_reverse, trimLeft, List.takeWhile_append_dropWhile]

theorem blankReferences_blank_append {left : List Char} (h : ∀ c ∈ left, isBlank c = true)
    (cs : List Char) : blankReferences (left ++ cs) = left ++ blankReferences cs := by
  induction left with
  | nil => rfl
  | cons c left ih =>
    have hc : c.toLower ∉ ['v'] :=
      toLower_not_mem_of_isBlank (by decide) (h c List.mem_cons_self)
    have hnone : reference? (c :: (left ++ cs)) = none := by
      change dropAscii? ['v', 'a', 'r', '('] _ = none
      rw [dropAscii?, if_neg (by simpa using hc)]
    rw [List.cons_append, blankReferences_cons_of_none hnone,
      ih fun d hd => h d (List.mem_cons_of_mem _ hd)]
    rfl

theorem takeArguments_of_not_mem {cs : List Char} (h : ')' ∉ cs) (depth : Nat) :
    (takeArguments depth cs).2 = [] := by
  induction cs generalizing depth with
  | nil => rfl
  | cons c cs ih =>
    have hc : c ≠ ')' := fun heq => h (heq ▸ List.mem_cons_self)
    rw [takeArguments_cons, if_neg (by simp [hc]), ih fun hmem => h (List.mem_cons_of_mem _ hmem)]

/-- Blanks behind a text become part of its last reference, or stay blanks. -/
theorem isBlank_of_mem_blankReferences {right : List Char} (hright : ∀ c ∈ right, isBlank c = true)
    {cs : List Char} (h : ∀ c ∈ blankReferences cs, isBlank c = true) :
    ∀ c ∈ blankReferences (cs ++ right), isBlank c = true := by
  have hhead : ∀ c ∈ right.head?, c.toLower ∉ ['a', 'r', '('] := fun c hc =>
    toLower_not_mem_of_isBlank (by decide) (hright c (List.mem_of_head? hc))
  have hclose : ')' ∉ right := fun hmem => absurd (hright _ hmem) (by decide)
  induction hn : cs.length using Nat.strongRecOn generalizing cs with
  | _ n ih =>
    cases cs with
    | nil =>
      have hall := blankReferences_blank_append hright []
      rw [List.append_nil, blankReferences, List.append_nil] at hall
      rw [List.nil_append, hall]
      exact hright
    | cons c cs =>
      have hlength : cs.length < n := by
        rw [← hn]
        exact Nat.lt_succ_self _
      have href := reference?_append hhead c cs
      cases hrest : reference? (c :: cs) with
      | none =>
        rw [hrest, Option.map_none] at href
        rw [blankReferences_cons_of_none hrest] at h
        rw [List.cons_append] at href ⊢
        rw [blankReferences_cons_of_none href]
        exact List.forall_mem_cons.2
          ⟨h c List.mem_cons_self, ih _ hlength (fun d hd => h d (List.mem_cons_of_mem _ hd)) rfl⟩
      | some rest =>
        rw [hrest, Option.map_some] at href
        rw [blankReferences_cons_of_some hrest] at h
        rw [List.cons_append] at href ⊢
        rw [blankReferences_cons_of_some href]
        refine List.forall_mem_cons.2 ⟨by decide, ?_⟩
        rcases takeArguments_append 0 rest with ⟨back, hle, hback⟩ | ⟨d, hd⟩
        · have hshort : back.length < n := by
            have := length_reference? hrest
            rw [List.length_cons] at this hn
            omega
          have hself := hback []
          rw [List.append_nil, List.append_nil] at hself
          rw [hself] at h
          rw [hback]
          exact ih _ hshort (fun c hc => h c (List.mem_cons_of_mem _ hc)) rfl
        · -- the last reference is not closed, so that the blanks are a part of it
          rw [hd, takeArguments_of_not_mem hclose, blankReferences]
          exact fun c hc => absurd hc List.not_mem_nil

/-- Of a value of references only, blanks are left. -/
theorem isBlank_of_isReference {value : List Char} (h : isReference value = true) :
    ∀ c ∈ literalPart value, isBlank c = true := by
  obtain ⟨-, hall⟩ := Bool.and_eq_true_iff.1 h
  obtain ⟨left, right, hvalue, hleft, hright⟩ := exists_append_trim (dropImportant value)
  rw [literalPart, hvalue, blankReferences_blank_append hleft]
  intro c hc
  rcases List.mem_append.1 hc with hc | hc
  · exact hleft c hc
  · exact isBlank_of_mem_blankReferences hright (List.all_eq_true.1 hall) c hc

/-! ### Blank texts -/

section

variable {cs : List Char}

theorem cutHex_of_isBlank (h : ∀ c ∈ cs, isBlank c = true) : cutHex cs = cs.map .inl := by
  induction cs with
  | nil => rw [cutHex]; rfl
  | cons c cs ih =>
    obtain ⟨hc, hcs⟩ := List.forall_mem_cons.1 h
    have hnone : takeHex? (c :: cs) = none := by
      have hne : c ≠ '#' := fun heq => absurd (heq ▸ hc) (by decide)
      rw [takeHex?]
      rintro ds heq
      exact hne (List.cons.inj heq).1
    rw [cutHex]
    split
    · next heq =>
      rw [hnone] at heq
      cases heq
    · rw [ih hcs, List.map_cons]

theorem blankHex_of_isBlank (h : ∀ c ∈ cs, isBlank c = true) : blankHex cs = cs := by
  rw [blankHex, cutHex_of_isBlank h, List.map_map]
  exact List.map_id' cs

theorem takeNumber?_of_isBlank {c : Char} (hc : isBlank c = true) (cs : List Char) :
    takeNumber? (c :: cs) = none := by
  have hdigit : isDecimalDigit c = false := by
    simpa using of_isBlank (p := fun c => !isDecimalDigit c) (by decide +kernel) hc
  have hpoint : c ≠ '.' := fun heq => absurd (heq ▸ hc) (by decide)
  have hminus : c ≠ '-' := fun heq => absurd (heq ▸ hc) (by decide)
  have hunsigned : takeUnsigned? (c :: cs) = none := by
    rw [takeUnsigned?, List.takeWhile_cons_of_neg (by simp [hdigit]),
      List.dropWhile_cons_of_neg (by simp [hdigit])]
    dsimp only
    split
    · next heq => exact absurd (List.cons.inj heq).1 hpoint
    · rfl
  rw [takeNumber?]
  · exact hunsigned
  · exact fun ds heq => hminus (List.cons.inj heq).1

theorem quantitiesFrom_of_isBlank (h : ∀ c ∈ cs, isBlank c = true) (ready : Bool) :
    quantitiesFrom ready cs = [] := by
  induction cs generalizing ready with
  | nil => rw [quantitiesFrom]
  | cons c cs ih =>
    obtain ⟨hc, hcs⟩ := List.forall_mem_cons.1 h
    rw [quantitiesFrom]
    split
    · next heq =>
      rw [takeNumber?_of_isBlank hc, ite_self] at heq
      cases heq
    · exact ih hcs _

theorem identifiers_of_isBlank (h : ∀ c ∈ cs, isBlank c = true) : identifiers cs = [] := by
  induction cs with
  | nil => rw [identifiers]
  | cons c cs ih =>
    obtain ⟨hc, hcs⟩ := List.forall_mem_cons.1 h
    have hstart : isIdentifierStart c = false := by
      simpa using of_isBlank (p := fun c => !isIdentifierStart c) (by decide) hc
    have hminus : (c == '-') = false := by
      simpa using of_isBlank (p := fun c => !(c == '-')) (by decide) hc
    rw [identifiers.eq_def]
    dsimp only
    rw [if_neg (by simp [hstart])]
    cases cs with
    | nil => rfl
    | cons d ds =>
      rw [hminus]
      exact ih hcs

theorem blankAddresses_of_isBlank (h : ∀ c ∈ cs, isBlank c = true) : blankAddresses cs = cs := by
  induction cs with
  | nil => rw [blankAddresses]
  | cons c cs ih =>
    obtain ⟨hc, hcs⟩ := List.forall_mem_cons.1 h
    have hnone : afterAddress? (c :: cs) = none := by
      have hu : c.toLower ∉ ['u'] := toLower_not_mem_of_isBlank (by decide) hc
      have hdrop : dropAscii? "url(".toList (c :: cs) = none := by
        change dropAscii? ['u', 'r', 'l', '('] _ = none
        rw [dropAscii?, if_neg (by simpa using hu)]
      rw [afterAddress?, hdrop]
      rfl
    rw [blankAddresses]
    split
    · next heq =>
      rw [hnone] at heq
      cases heq
    · rw [ih hcs]

theorem colorFunctionsFrom_of_isBlank (h : ∀ c ∈ cs, isBlank c = true) (inWord : Bool) :
    colorFunctionsFrom inWord cs = [] := by
  induction cs generalizing inWord with
  | nil => rfl
  | cons c cs ih =>
    obtain ⟨hc, hcs⟩ := List.forall_mem_cons.1 h
    have hnone : colorFunction? (c :: cs) = none := by
      have hr : folds 'r' c = false := by
        simpa using of_isBlank (p := fun c => !folds 'r' c) (by decide) hc
      have hh : folds 'h' c = false := by
        simpa using of_isBlank (p := fun c => !folds 'h' c) (by decide) hc
      simp [colorFunction?, dropFolded?, hr, hh]
    rw [colorFunctionsFrom, hnone, ite_self, ih hcs]
    rfl

end

/-- Nothing is found where only blanks are left. -/
theorem eq_nil_of_mem_searches {value : List Char} (h : ∀ c ∈ literalPart value, isBlank c = true)
    {search : List Char → List String} (hsearch : search ∈ searches) : search value = [] := by
  have hquantities : quantities value = [] := by
    rw [quantities, blankHex_of_isBlank h, quantitiesFrom_of_isBlank h]
  have hidentifiers := identifiers_of_isBlank h
  simp only [searches, List.mem_cons, List.not_mem_nil, or_false] at hsearch
  rcases hsearch with rfl | rfl | rfl | rfl | rfl
  · rw [lengths, hquantities]
    rfl
  · rw [numbers, hquantities]
    rfl
  · rw [times, hquantities]
    rfl
  · rw [easings, hidentifiers]
    rfl
  · rw [colors, blankAddresses_of_isBlank h, colorFunctionsFrom_of_isBlank h,
      blankHex_of_isBlank h, namedColors, hidentifiers, hexColors, cutHex_of_isBlank h]
    simp

/-- **No search for literals sees what a reference holds, and none finds anything in a value of
references only.** -/
theorem searches_pass_over_references :
    (∀ {before word held held' after : List Char}, lowerAscii word = "var(".toList →
      Balanced held → Balanced held' → ¬ SaysImportant held → ¬ SaysImportant held' →
      ∀ search ∈ searches,
        search (referring before word held after) = search (referring before word held' after)) ∧
    ∀ value, isReference value = true → ∀ search ∈ searches, search value = [] := by
  constructor
  · intro before word held held' after hword hheld hheld' himp himp'
    exact search_eq_of_literalPart_eq
      (literalPart_referring hword hheld hheld' himp himp' before after)
  · intro value hvalue search hsearch
    exact eq_nil_of_mem_searches (isBlank_of_isReference hvalue) hsearch

/-- A reference in the fallback of another one, and a value of two references. -/
theorem searches_pass_over_fallbacks :
    (∀ search ∈ searches,
      search (referring "calc(2px + VAR(--a, ".toList "var(".toList "--b, (red) 4px".toList
          ") * 3)".toList) =
        search (referring "calc(2px + VAR(--a, ".toList "var(".toList "--b".toList
          ") * 3)".toList)) ∧
    isReference "var(--a, 1px) Var(--b) !important".toList = true ∧
      ∀ search ∈ searches, search "var(--a, 1px) Var(--b) !important".toList = [] := by
  have hreference : isReference "var(--a, 1px) Var(--b) !important".toList = true := by cbv
  exact ⟨searches_pass_over_references.1 (by decide) (by decide) (by decide) (by decide)
    (by decide), hreference, searches_pass_over_references.2 _ hreference⟩

end Value
end SheetAudit
