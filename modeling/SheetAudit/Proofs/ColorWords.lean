import SheetAudit.Proofs.Quantities

/-!
# The words that colors are read in

The colors of a text are collected in three passes: hex colors, names of color functions, and named
colors.  What each of them reads at a place depends on the text around it, but not on much of it:
on the word in which the place lies, on the word before, and on the parenthesis behind, which makes
a word the name of a function.

## Main definitions

* `colorsIn` — the colors of a text without references and addresses.
* `isColorChar` — the characters of the words that colors are read in.
* `opening` — the parenthesis that a text begins with.
* `lastWords`, `firstWord` — what matters of the text before a place, and of the text behind it.

## Main results

* `cutHex_append`, `colorFunctionsFrom_append_cons`, `identifiers_append_cons` — what each pass
  reads on both sides of a character that is in no word.
* `length_colorsIn_append_cons`, `colorsIn_subset_append_cons` — the colors of a text are those
  before such a character and those behind it.
* `exists_length_colorsIn_eq` — **what stands between two texts adds the colors of the words around
  it.**
-/

namespace SheetAudit
namespace Value

open Text
open Offsets (toLower_cases)

/-- The colors of a text without references and addresses. -/
def colorsIn (text : List Char) : List String :=
  hexColors text ++ (colorFunctionsFrom false text ++ namedColors (blankHex text))

/-- Part of a word, a hyphen in one, or the hash before one. -/
def isColorChar (c : Char) : Bool := isWordChar c || c == '-' || c == '#'

/-- The parenthesis that a text begins with, behind white space. -/
def opening (cs : List Char) : List Char :=
  match cs.dropWhile isBlank with
  | '(' :: _ => cs.takeWhile isBlank ++ ['(']
  | _ => []

/-- The word at the end of a text, the white space before it and the word before that. -/
def lastWords (cs : List Char) : List Char :=
  let word := cs.reverse.takeWhile isColorChar
  let rest := cs.reverse.dropWhile isColorChar
  (word ++ (rest.takeWhile isBlank ++ (rest.dropWhile isBlank).takeWhile isColorChar)).reverse

/-- The word at the start of a text, with the parenthesis behind it if there is one. -/
def firstWord (cs : List Char) : List Char :=
  cs.takeWhile isColorChar ++ opening (cs.dropWhile isColorChar)

/-! ### Characters in no word -/

/-- A text begins with no part of a word. -/
def Interrupts (cs : List Char) : Prop := ∀ c ∈ cs.head?, isColorChar c = false

section

variable {c : Char} {cs ds : List Char}

theorem isColorChar_of_isBlank (h : isBlank c = true) : isColorChar c = false := by
  simpa using of_isBlank (p := fun c => !isColorChar c) (by decide +kernel) h

theorem isIdentifierChar_eq_false (h : isColorChar c = false) : isIdentifierChar c = false := by
  simp only [isColorChar, Bool.or_eq_false_iff] at h
  refine Bool.eq_false_iff.2 fun hidentifier => ?_
  simp only [isIdentifierChar, Bool.or_eq_true] at hidentifier
  rcases hidentifier with (halnum | hunderscore) | hhyphen
  · exact Bool.false_ne_true (h.1.1.symm.trans (isWordChar_of_isAlphanum halnum))
  · rw [beq_iff_eq.1 hunderscore] at h
    exact absurd h.1.1 (by decide)
  · exact Bool.false_ne_true (h.1.2.symm.trans hhyphen)

/-- Letters are matched by parts of words only. -/
theorem isWordChar_of_folds {letter : Char} (hletter : letter.isAlphanum = true)
    (h : folds letter c = true) : isWordChar c = true := by
  simp only [folds, Bool.or_eq_true, Bool.and_eq_true, beq_iff_eq] at h
  rcases h with (hlower | ⟨-, rfl⟩) | ⟨-, rfl⟩
  · refine isWordChar_of_isAlphanum ?_
    rcases toLower_cases c with hsame | ⟨hcapital, -⟩
    · rwa [← hsame, hlower]
    · rw [isAlphanum_iff]
      exact .inl (.inl hcapital)
  · decide +kernel
  · decide +kernel

theorem folds_eq_false (h : isColorChar c = false) {letter : Char}
    (hletter : letter.isAlphanum = true) : folds letter c = false := by
  simp only [isColorChar, Bool.or_eq_false_iff] at h
  exact Bool.eq_false_iff.2 fun hfolds =>
    Bool.false_ne_true (h.1.1.symm.trans (isWordChar_of_folds hletter hfolds))

theorem Interrupts.endsWord (h : Interrupts cs) : endsWord cs = true := by
  cases cs with
  | nil => rfl
  | cons c cs =>
    have hc := h c rfl
    simp only [isColorChar, Bool.or_eq_false_iff] at hc
    rw [Text.endsWord, hc.1.1, Bool.not_false]

theorem interrupts_cons (h : isColorChar c = false) (cs : List Char) : Interrupts (c :: cs) := by
  intro d hd
  obtain rfl : c = d := Option.some.inj hd
  exact h

/-! ### The parenthesis behind a word -/

theorem opening_eq_nil_or (cs : List Char) :
    opening cs = [] ∧ (cs.dropWhile isBlank).head? ≠ some '(' ∨
      opening cs = cs.takeWhile isBlank ++ ['('] ∧ (cs.dropWhile isBlank).head? = some '(' := by
  rw [opening]
  split
  · next rest heq => exact .inr ⟨rfl, by rw [heq]; rfl⟩
  · next hnot =>
    refine .inl ⟨rfl, fun hhead => ?_⟩
    obtain ⟨rest, hrest⟩ := List.head?_eq_some_iff.1 hhead
    exact hnot rest hrest

theorem isColorChar_of_mem_opening (h : c ∈ opening cs) : isColorChar c = false := by
  rcases opening_eq_nil_or cs with ⟨hnil, -⟩ | ⟨hopening, -⟩
  · rw [hnil] at h
    cases h
  · rw [hopening, List.mem_append, List.mem_singleton] at h
    rcases h with hblank | rfl
    · exact isColorChar_of_isBlank (List.mem_takeWhile_imp hblank)
    · decide

theorem interrupts_opening (cs : List Char) : Interrupts (opening cs) := fun _ hc =>
  isColorChar_of_mem_opening (List.mem_of_mem_head? hc)

/-- The parenthesis of a text opens as much as the text. -/
theorem head?_dropWhile_opening (cs : List Char) :
    ((opening cs).dropWhile isBlank).head? = some '(' ↔
      (cs.dropWhile isBlank).head? = some '(' := by
  rcases opening_eq_nil_or cs with ⟨hnil, hnot⟩ | ⟨hopening, hhead⟩
  · rw [hnil]
    exact iff_of_false nofun hnot
  · have hblank : ∀ d ∈ cs.takeWhile isBlank, isBlank d = true := fun d hd =>
      List.mem_takeWhile_imp hd
    have hparen : ∀ d ∈ ['('].head?, isBlank d = false := by
      intro d hd
      obtain rfl : '(' = d := Option.some.inj hd
      decide
    rw [hopening, dropWhile_append_eq hblank hparen]
    exact iff_of_true rfl hhead

end

/-! ### Hex colors -/

section

variable {c : Char} {cs ds hex rest : List Char}

theorem takeHex?_append (hds : endsWord ds = true) :
    takeHex? (c :: (cs ++ ds)) = (takeHex? (c :: cs)).map fun r => (r.1, r.2 ++ ds) := by
  have hhead : ∀ d ∈ ds.head?, isHexDigit d = false := by
    intro d hd
    obtain ⟨rest, rfl⟩ := List.head?_eq_some_iff.1 hd
    refine Bool.eq_false_iff.2 fun hdigit => ?_
    rw [endsWord, isWordChar_of_isHexDigit hdigit] at hds
    cases hds
  by_cases hc : c = '#'
  · subst hc
    have hends : endsWord (cs.dropWhile isHexDigit ++ ds) = endsWord (cs.dropWhile isHexDigit) := by
      cases cs.dropWhile isHexDigit with
      | nil => exact hds
      | cons d rest => rfl
    rw [takeHex?, takeHex?, takeWhile_append_of_head hhead, dropWhile_append_of_head hhead, hends]
    split <;> rfl
  · rw [takeHex?_cons_of_ne hc, takeHex?_cons_of_ne hc, Option.map_none]

/-- No hex color reaches across the end of a word. -/
theorem cutHex_append (hds : endsWord ds = true) (cs : List Char) :
    cutHex (cs ++ ds) = cutHex cs ++ cutHex ds := by
  induction hn : cs.length using Nat.strongRecOn generalizing cs with
  | _ n ih =>
    cases cs with
    | nil =>
      rw [cutHex.eq_def []]
      rfl
    | cons c cs =>
      have hstep : takeHex? (c :: (cs ++ ds)) =
          (takeHex? (c :: cs)).map fun r => (r.1, r.2 ++ ds) := takeHex?_append hds
      cases hhex : takeHex? (c :: cs) with
      | none =>
        rw [hhex, Option.map_none] at hstep
        rw [List.cons_append, cutHex_cons_of_none hstep, cutHex_cons_of_none hhex,
          ih cs.length (by rw [← hn]; exact Nat.lt_succ_self _) cs rfl, List.cons_append]
      | some r =>
        obtain ⟨hex, rest⟩ := r
        rw [hhex, Option.map_some] at hstep
        have hlength := length_takeHex? hhex
        rw [List.cons_append, cutHex_cons_of_some hstep, cutHex_cons_of_some hhex,
          ih rest.length (by omega) rest rfl, List.cons_append]

theorem hexColors_append (hds : endsWord ds = true) (cs : List Char) :
    hexColors (cs ++ ds) = hexColors cs ++ hexColors ds := by
  rw [hexColors, cutHex_append hds, List.filterMap_append]
  rfl

theorem blankHex_append_of_endsWord (hds : endsWord ds = true) (cs : List Char) :
    blankHex (cs ++ ds) = blankHex cs ++ blankHex ds := by
  rw [blankHex, cutHex_append hds, List.map_append]
  rfl

theorem cutHex_of_forall_ne (h : ∀ d ∈ ds, d ≠ '#') (cs : List Char) :
    cutHex (ds ++ cs) = ds.map .inl ++ cutHex cs := by
  induction ds with
  | nil => rfl
  | cons d ds ih =>
    obtain ⟨hd, hds⟩ := List.forall_mem_cons.1 h
    rw [List.cons_append, cutHex_cons_of_none (takeHex?_cons_of_ne hd _), ih hds]
    rfl

end

/-! ### Color functions -/

section

variable {word cs ds ds' : List Char}

theorem exists_folded_of_dropFolded? {rest : List Char} (h : dropFolded? word cs = some rest) :
    ∃ front, cs = front ++ rest ∧
      List.Forall₂ (fun letter c => folds letter c = true) word front := by
  fun_induction dropFolded? word cs with
  | case1 cs => exact ⟨[], Option.some.inj h, .nil⟩
  | case2 => cases h
  | case3 w word c cs hfolds ih =>
    obtain ⟨front, rfl, hfront⟩ := ih h
    exact ⟨c :: front, rfl, .cons hfolds hfront⟩
  | case4 => cases h

theorem dropFolded?_append_of_interrupts
    (hword : word.all Char.isAlphanum = true) (hds : Interrupts ds)
    (cs : List Char) : dropFolded? word (cs ++ ds) = (dropFolded? word cs).map (· ++ ds) := by
  fun_induction dropFolded? word cs with
  | case1 cs => rfl
  | case2 w word =>
    cases ds with
    | nil => rfl
    | cons d ds =>
      rw [List.all_cons, Bool.and_eq_true] at hword
      rw [List.nil_append, dropFolded?, folds_eq_false (hds d rfl) hword.1]
      rfl
  | case3 w word c cs hfolds ih =>
    rw [List.all_cons, Bool.and_eq_true] at hword
    rw [List.cons_append, dropFolded?, if_pos hfolds]
    exact ih hword.2
  | case4 w word c cs hfolds =>
    rw [List.cons_append, dropFolded?, if_neg hfolds]
    rfl

/-- A function of the name is called, with or without transparency. -/
def called? (word cs : List Char) : Option String :=
  (dropFolded? word cs).bind fun rest =>
    let after := (dropFolded? ['a'] rest).getD rest
    match after.dropWhile isBlank with
    | '(' :: _ => some (String.ofList (lowerAscii (cs.take (cs.length - after.length))))
    | _ => none

/-- What follows the name of a color function. -/
def afterName (rest : List Char) : List Char := (dropFolded? ['a'] rest).getD rest

/-- A function is called where its name is followed by a parenthesis. -/
theorem called?_eq_some_iff {l : String} : called? word cs = some l ↔
    ∃ rest, dropFolded? word cs = some rest ∧
      ((afterName rest).dropWhile isBlank).head? = some '(' ∧
      l = String.ofList (lowerAscii (cs.take (cs.length - (afterName rest).length))) := by
  rw [called?, Option.bind_eq_some_iff]
  refine exists_congr fun rest => and_congr_right fun _ => ?_
  change (match (afterName rest).dropWhile isBlank with
    | '(' :: _ => some (String.ofList (lowerAscii (cs.take (cs.length - (afterName rest).length))))
    | _ => none) = some l ↔ _
  split
  · next heq =>
    rw [heq, Option.some_inj, List.head?_cons]
    exact ⟨fun h => ⟨rfl, h.symm⟩, fun h => h.2.symm⟩
  · next hnot =>
    refine iff_of_false nofun fun h => ?_
    obtain ⟨tail, htail⟩ := List.head?_eq_some_iff.1 h.1
    exact hnot tail htail

theorem colorFunction?_eq (cs : List Char) :
    colorFunction? cs = (called? "rgb".toList cs).orElse fun _ => called? "hsl".toList cs := rfl

/-- Two texts open the same. -/
def OpensAlike (ds ds' : List Char) : Prop :=
  (ds.dropWhile isBlank).head? = some '(' ↔ (ds'.dropWhile isBlank).head? = some '('

theorem OpensAlike.append (h : OpensAlike ds ds') (cs : List Char) :
    OpensAlike (cs ++ ds) (cs ++ ds') := by
  unfold OpensAlike
  rw [List.dropWhile_append, List.dropWhile_append]
  split
  · exact h
  · next hne =>
    rw [List.head?_append, List.head?_append]
    cases hdrop : cs.dropWhile isBlank with
    | nil => exact absurd (List.isEmpty_iff.2 hdrop) hne
    | cons d rest => exact Iff.rfl

theorem called?_congr (hword : word.all Char.isAlphanum = true)
    (hds : Interrupts ds) (hds' : Interrupts ds') (hopens : OpensAlike ds ds') (cs : List Char) :
    called? word (cs ++ ds) = called? word (cs ++ ds') := by
  have hletter : ['a'].all Char.isAlphanum = true := by decide
  have hcall {ts : List Char} (hts : Interrupts ts) : called? word (cs ++ ts) =
      (dropFolded? word cs).bind fun rest =>
        if ((((dropFolded? ['a'] rest).getD rest) ++ ts).dropWhile isBlank).head? = some '(' then
          some (String.ofList (lowerAscii
            (cs.take (cs.length - ((dropFolded? ['a'] rest).getD rest).length))))
        else none := by
    rw [called?, dropFolded?_append_of_interrupts hword hts]
    cases hdrop : dropFolded? word cs with
    | none => rfl
    | some rest =>
      have hafter : (dropFolded? ['a'] (rest ++ ts)).getD (rest ++ ts) =
          (dropFolded? ['a'] rest).getD rest ++ ts := by
        rw [dropFolded?_append_of_interrupts hletter hts]
        cases dropFolded? ['a'] rest <;> rfl
      rw [Option.map_some, Option.bind_some, Option.bind_some, hafter]
      dsimp only
      have htake (after : List Char) : (cs ++ ts).take ((cs ++ ts).length - (after ++ ts).length) =
          cs.take (cs.length - after.length) := by
        rw [List.length_append, List.length_append, Nat.add_sub_add_right]
        exact List.take_append_of_le_length (Nat.sub_le _ _)
      rw [htake]
      split
      · next heq => rw [heq]; rfl
      · next hnot =>
        rw [if_neg]
        intro hhead
        obtain ⟨tail, htail⟩ := List.head?_eq_some_iff.1 hhead
        exact hnot tail htail
  rw [hcall hds, hcall hds']
  refine congrArg _ (funext fun rest => ?_)
  exact if_congr (hopens.append _) rfl rfl

theorem colorFunction?_congr (hds : Interrupts ds) (hds' : Interrupts ds')
    (hopens : OpensAlike ds ds') (cs : List Char) :
    colorFunction? (cs ++ ds) = colorFunction? (cs ++ ds') := by
  rw [colorFunction?_eq, colorFunction?_eq, called?_congr (by decide) hds hds' hopens,
    called?_congr (by decide) hds hds' hopens]

theorem colorFunction?_of_interrupts (hds : Interrupts ds) : colorFunction? ds = none := by
  have hcalled {word : List Char} (hne : word ≠ [])
      (hword : word.all Char.isAlphanum = true) : called? word ds = none := by
    obtain ⟨w, word, rfl⟩ := List.exists_cons_of_ne_nil hne
    have hdrop := dropFolded?_append_of_interrupts hword hds []
    rw [List.nil_append] at hdrop
    rw [called?, hdrop]
    rfl
  rw [colorFunction?_eq, hcalled (by decide) (by decide), hcalled (by decide) (by decide)]
  rfl

theorem colorFunctionsFrom_of_forall (h : ∀ c ∈ ds, isColorChar c = false) (inWord : Bool) :
    colorFunctionsFrom inWord ds = [] := by
  induction ds generalizing inWord with
  | nil => rfl
  | cons d ds ih =>
    have hnone : colorFunction? (d :: ds) = none :=
      colorFunction?_of_interrupts fun c hc => h c (List.mem_of_mem_head? hc)
    rw [colorFunctionsFrom, hnone, ite_self, ih fun c hc => h c (List.mem_cons_of_mem d hc)]
    rfl

/-- Of a text behind a word, the names of color functions in it depend on its parenthesis only. -/
theorem colorFunctionsFrom_append_cons {s : Char} (hs : isColorChar s = false) (inWord : Bool)
    (cs ds : List Char) : colorFunctionsFrom inWord (cs ++ s :: ds) =
      colorFunctionsFrom inWord (cs ++ opening (s :: ds)) ++ colorFunctionsFrom false ds := by
  have hinterrupts := interrupts_cons hs ds
  induction cs generalizing inWord with
  | nil =>
    have hword : isWordChar s = false := by
      simp only [isColorChar, Bool.or_eq_false_iff] at hs
      exact hs.1.1
    have hnone : ∀ c ∈ opening (s :: ds), isColorChar c = false := by
      intro c hc
      exact isColorChar_of_mem_opening hc
    have hopening := colorFunctionsFrom_of_forall hnone inWord
    rw [List.nil_append, List.nil_append, hopening, List.nil_append, colorFunctionsFrom,
      colorFunction?_of_interrupts hinterrupts, ite_self, hword]
    rfl
  | cons c cs ih =>
    have hcongr := colorFunction?_congr hinterrupts (interrupts_opening (s :: ds))
      (head?_dropWhile_opening (s :: ds)).symm (c :: cs)
    rw [List.cons_append, List.cons_append] at hcongr
    rw [List.cons_append, List.cons_append, colorFunctionsFrom, colorFunctionsFrom, hcongr, ih,
      List.append_assoc]

end

/-! ### Named colors -/

section

variable {s : Char} {cs ds : List Char}

theorem isIdentifierStart_eq_false (h : isIdentifierChar s = false) :
    isIdentifierStart s = false := by
  simp only [isIdentifierChar, Char.isAlphanum, Bool.or_eq_false_iff] at h
  rw [isIdentifierStart, h.1.1.1, h.1.2, Bool.or_self]

theorem identifiers_nil : identifiers [] = [] := by rw [identifiers.eq_def]

theorem identifiers_cons_of_not {c : Char} (hc : isIdentifierStart c = false)
    (hhyphen : c = '-' → ∀ d ∈ cs.head?, isIdentifierStart d = false) :
    identifiers (c :: cs) = identifiers cs := by
  rw [identifiers.eq_def]
  dsimp only
  rw [if_neg (by simp [hc])]
  cases cs with
  | nil => rw [identifiers_nil]
  | cons d ds =>
    dsimp only
    rw [if_neg]
    rw [Bool.and_eq_true, beq_iff_eq]
    rintro ⟨rfl, hd⟩
    rw [hhyphen rfl d rfl] at hd
    cases hd

/-- An identifier begins a text, whatever follows the text, or the first character is passed over
unless it is followed by the start of an identifier. -/
theorem identifiers_cons_cases (c : Char) (cs : List Char) :
    (∃ start rest, rest.length ≤ cs.length ∧ ∀ tail, identifiers (c :: (cs ++ tail)) =
        (finishIdentifier start (rest ++ tail)).1 ::
          identifiers (finishIdentifier start (rest ++ tail)).2) ∨
      ∀ tail, (∀ d ∈ tail.head?, isIdentifierStart d = false) →
        identifiers (c :: (cs ++ tail)) = identifiers (cs ++ tail) := by
  cases hc : isIdentifierStart c with
  | true =>
    refine .inl ⟨[c], cs, Nat.le_refl _, fun tail => ?_⟩
    rw [identifiers.eq_def]
    dsimp only
    rw [if_pos hc]
  | false =>
    by_cases hbegins : c = '-' ∧ ∃ d ∈ cs.head?, isIdentifierStart d = true
    · obtain ⟨rfl, d, hd, hdstart⟩ := hbegins
      obtain ⟨ds, rfl⟩ := List.head?_eq_some_iff.1 hd
      refine .inl ⟨['-', d], ds, Nat.le_succ _, fun tail => ?_⟩
      rw [identifiers.eq_def]
      dsimp only [List.cons_append]
      rw [if_neg (by decide), if_pos (by rw [hdstart]; rfl)]
    · refine .inr fun tail htail => identifiers_cons_of_not hc fun hhyphen d hd => ?_
      cases cs with
      | nil => exact htail d hd
      | cons e cs =>
        obtain rfl : e = d := Option.some.inj hd
        exact Bool.eq_false_iff.2 fun htrue => hbegins ⟨hhyphen, e, rfl, htrue⟩

theorem finishIdentifier_eq (start cs : List Char) :
    finishIdentifier start cs =
      (⟨String.ofList (lowerAscii (start ++ cs.takeWhile isIdentifierChar)),
          (cs.dropWhile isIdentifierChar).head? == some '('⟩,
        if (cs.dropWhile isIdentifierChar).head? == some '(' then
          (cs.dropWhile isIdentifierChar).tail
        else cs.dropWhile isIdentifierChar) := by
  rw [finishIdentifier]
  split
  · next heq => simp [heq]
  · next hnot =>
    have hhead : ((cs.dropWhile isIdentifierChar).head? == some '(') = false := by
      rw [beq_eq_false_iff_ne]
      intro heq
      obtain ⟨rest, hrest⟩ := List.head?_eq_some_iff.1 heq
      exact hnot rest hrest
    rw [hhead]
    rfl

/-- What an identifier before the character is read with. -/
def callMark (s : Char) : List Char := if s = '(' then ['('] else []

/-- An identifier that is being read ends before a character that is in none, or behind it if that
is a parenthesis. -/
theorem finishIdentifier_append_cons (hs : isIdentifierChar s = false) (start cs ds : List Char) :
    (finishIdentifier start (cs ++ s :: ds)).1 = (finishIdentifier start (cs ++ callMark s)).1 ∧
      ((∃ rest, rest.length ≤ cs.length ∧
          (finishIdentifier start (cs ++ callMark s)).2 = rest ++ callMark s ∧
          (finishIdentifier start (cs ++ s :: ds)).2 = rest ++ s :: ds) ∨
        (finishIdentifier start (cs ++ callMark s)).2 = [] ∧
          (finishIdentifier start (cs ++ s :: ds)).2 = ds) := by
  have hlong : ∀ d ∈ (s :: ds).head?, isIdentifierChar d = false := by
    intro d hd
    obtain rfl : s = d := Option.some.inj hd
    exact hs
  have hshort : ∀ d ∈ (callMark s).head?, isIdentifierChar d = false := by
    intro d hd
    rw [callMark] at hd
    split at hd
    · obtain rfl : '(' = d := Option.some.inj hd
      decide
    · cases hd
  have hlength := (List.dropWhile_sublist isIdentifierChar (l := cs)).length_le
  simp only [finishIdentifier_eq, takeWhile_append_of_head hlong, takeWhile_append_of_head hshort,
    dropWhile_append_of_head hlong, dropWhile_append_of_head hshort]
  cases hdrop : cs.dropWhile isIdentifierChar with
  | nil =>
    by_cases hparen : s = '('
    · subst hparen
      exact ⟨rfl, .inr ⟨rfl, rfl⟩⟩
    · have hne : (some s == some '(') = false := beq_false_of_ne fun h => hparen (Option.some.inj h)
      rw [callMark, if_neg hparen, List.append_nil, List.nil_append, List.head?_cons, hne]
      exact ⟨rfl, .inl ⟨[], Nat.zero_le _, rfl, rfl⟩⟩
  | cons d rest =>
    rw [hdrop, List.length_cons] at hlength
    refine ⟨rfl, .inl ?_⟩
    by_cases hparen : (some d == some '(') = true
    · refine ⟨rest, by omega, ?_, ?_⟩ <;> exact if_pos hparen
    · refine ⟨d :: rest, by rw [List.length_cons]; omega, ?_, ?_⟩ <;> exact if_neg hparen

theorem callMark_eq_nil_or (s : Char) : callMark s = [] ∨ callMark s = [s] := by
  rw [callMark]
  split
  · next h => exact .inr (by rw [h])
  · exact .inl rfl

/-- An identifier ends before a character that is in none. -/
theorem identifiers_append_cons (hs : isIdentifierChar s = false) (cs ds : List Char) :
    identifiers (cs ++ s :: ds) = identifiers (cs ++ callMark s) ++ identifiers ds := by
  have hstart := isIdentifierStart_eq_false hs
  have hskip (ts : List Char) : identifiers (s :: ts) = identifiers ts := by
    refine identifiers_cons_of_not hstart fun hhyphen => ?_
    rw [hhyphen] at hs
    exact absurd hs (by decide)
  have hlong : ∀ d ∈ (s :: ds).head?, isIdentifierStart d = false := by
    intro d hd
    obtain rfl : s = d := Option.some.inj hd
    exact hstart
  have hshort : ∀ d ∈ (callMark s).head?, isIdentifierStart d = false := by
    rcases callMark_eq_nil_or s with hmark | hmark <;> rw [hmark]
    · exact nofun
    · exact hlong
  induction hn : cs.length using Nat.strongRecOn generalizing cs with
  | _ n ih =>
    cases cs with
    | nil =>
      rw [List.nil_append, List.nil_append, hskip]
      rcases callMark_eq_nil_or s with hmark | hmark <;> rw [hmark]
      · rw [identifiers_nil, List.nil_append]
      · rw [hskip, identifiers_nil, List.nil_append]
    | cons c cs =>
      rw [List.length_cons] at hn
      rw [List.cons_append, List.cons_append]
      rcases identifiers_cons_cases c cs with ⟨start, rest, hrest, hread⟩ | hpass
      · -- the identifier is read up to the character or past it
        rw [hread, hread]
        obtain ⟨hsame, ⟨rest', hlength, hmark, hcons⟩ | ⟨hmark, hcons⟩⟩ :=
          finishIdentifier_append_cons hs start rest ds
        · rw [hsame, hmark, hcons, ih rest'.length (by omega) rest' rfl, List.cons_append]
        · rw [hsame, hmark, hcons, identifiers_nil, List.cons_append, List.nil_append]
      · rw [hpass _ hlong, hpass _ hshort, ih cs.length (by omega) cs rfl]

theorem identifiers_of_forall (h : ∀ c ∈ ds, isIdentifierChar c = false) : identifiers ds = [] := by
  induction ds with
  | nil => exact identifiers_nil
  | cons d ds ih =>
    obtain ⟨hd, hds⟩ := List.forall_mem_cons.1 h
    rw [identifiers_cons_of_not (isIdentifierStart_eq_false hd), ih hds]
    intro hhyphen e he
    exact isIdentifierStart_eq_false (hds e (List.mem_of_mem_head? he))

/-- Of a parenthesis behind white space, an identifier is read with nothing. -/
theorem identifiers_append_opening (hs : isColorChar s = false) (cs ds : List Char) :
    identifiers (cs ++ opening (s :: ds)) = identifiers (cs ++ callMark s) := by
  have hidentifier := isIdentifierChar_eq_false hs
  have hopening : ∀ c ∈ opening (s :: ds), isIdentifierChar c = false := fun c hc =>
    isIdentifierChar_eq_false (isColorChar_of_mem_opening hc)
  rcases opening_eq_nil_or (s :: ds) with ⟨hnil, hnot⟩ | ⟨heq, hhead⟩
  · have hparen : s ≠ '(' := by
      rintro rfl
      exact hnot rfl
    rw [hnil, callMark, if_neg hparen]
  · cases hblank : isBlank s with
    | true =>
      rw [List.takeWhile_cons_of_pos hblank, List.cons_append] at heq
      rw [heq] at hopening ⊢
      obtain ⟨-, hrest⟩ := List.forall_mem_cons.1 hopening
      rw [identifiers_append_cons hidentifier, identifiers_of_forall hrest, List.append_nil]
    | false =>
      rw [List.dropWhile_cons_of_neg (by simp [hblank])] at hhead
      rw [List.takeWhile_cons_of_neg (by simp [hblank])] at heq
      obtain rfl : s = '(' := Option.some.inj hhead
      rw [heq]
      rfl

end

/-! ### Colors -/

section

variable {s : Char} {cs ds : List Char}

theorem hexColors_append_cons (hs : isColorChar s = false) (cs ds : List Char) :
    hexColors (cs ++ s :: ds) = hexColors (cs ++ opening (s :: ds)) ++ hexColors ds := by
  have hhash : s ≠ '#' := by
    rintro rfl
    exact absurd hs (by decide)
  have hopening : ∀ c ∈ opening (s :: ds), c ≠ '#' := by
    rintro c hc rfl
    exact absurd (isColorChar_of_mem_opening hc) (by decide)
  have hnone : hexColors (opening (s :: ds)) = [] := by
    have hnil : cutHex [] = [] := by rw [cutHex.eq_def]
    have hcut := cutHex_of_forall_ne hopening []
    rw [List.append_nil, hnil, List.append_nil] at hcut
    rw [hexColors, hcut, List.filterMap_map]
    exact List.filterMap_eq_nil_iff.2 fun _ _ => rfl
  have hcons : hexColors (s :: ds) = hexColors ds := by
    rw [hexColors, cutHex_cons_of_none (takeHex?_cons_of_ne hhash ds)]
    rfl
  rw [hexColors_append (interrupts_cons hs ds).endsWord,
    hexColors_append (interrupts_opening (s :: ds)).endsWord, hnone, hcons, List.append_nil]

theorem namedColors_append_cons (hs : isColorChar s = false) (cs ds : List Char) :
    namedColors (blankHex (cs ++ s :: ds)) =
      namedColors (blankHex (cs ++ opening (s :: ds))) ++ namedColors (blankHex ds) := by
  have hhash : s ≠ '#' := by
    rintro rfl
    exact absurd hs (by decide)
  have hkept : blankHex (opening (s :: ds)) = opening (s :: ds) := by
    have hopening : ∀ c ∈ opening (s :: ds), c ≠ '#' := by
      rintro c hc rfl
      exact absurd (isColorChar_of_mem_opening hc) (by decide)
    have hblank : blankHex [] = [] := by rw [blankHex, cutHex.eq_def, List.map_nil]
    have happend := blankHex_append hopening []
    rwa [hblank, List.append_nil] at happend
  rw [blankHex_append_of_endsWord (interrupts_cons hs ds).endsWord,
    blankHex_append_of_endsWord (interrupts_opening (s :: ds)).endsWord, hkept,
    blankHex_cons_of_none (takeHex?_cons_of_ne hhash ds), namedColors, namedColors, namedColors,
    identifiers_append_cons (isIdentifierChar_eq_false hs), identifiers_append_opening hs,
    List.filter_append, List.map_append]

/-- The colors of a text are those before a character that is in no word, read with the parenthesis
that follows, and those behind it. -/
theorem length_colorsIn_append_cons (hs : isColorChar s = false) (cs ds : List Char) :
    (colorsIn (cs ++ s :: ds)).length =
      (colorsIn (cs ++ opening (s :: ds))).length + (colorsIn ds).length := by
  rw [colorsIn, colorsIn, colorsIn, hexColors_append_cons hs, namedColors_append_cons hs,
    colorFunctionsFrom_append_cons hs]
  simp only [List.length_append]
  omega

/-- Behind a character that is in no word colors are found as at the start of a text. -/
theorem colorsIn_subset_append_cons (hs : isColorChar s = false) (cs ds : List Char) :
    colorsIn ds ⊆ colorsIn (cs ++ s :: ds) := by
  intro l hl
  rw [colorsIn, List.mem_append, List.mem_append] at hl
  rw [colorsIn, hexColors_append_cons hs, namedColors_append_cons hs,
    colorFunctionsFrom_append_cons hs]
  simp only [List.mem_append]
  rcases hl with hhex | hfunction | hnamed
  · exact .inl (.inr hhex)
  · exact .inr (.inl (.inr hfunction))
  · exact .inr (.inr (.inr hnamed))

/-- Behind what is not white space it does not matter what follows. -/
theorem opening_append (h : ∃ c ∈ cs, isBlank c = false) (ds : List Char) :
    opening (cs ++ ds) = opening cs := by
  obtain ⟨c, hc, hblank⟩ := h
  have hne : cs.dropWhile isBlank ≠ [] := by
    intro hnil
    rw [List.dropWhile_eq_nil_iff] at hnil
    exact Bool.false_ne_true (hblank.symm.trans (hnil c hc))
  obtain ⟨d, rest, hdrop⟩ := List.exists_cons_of_ne_nil hne
  have hsplit := List.takeWhile_append_dropWhile (p := isBlank) (l := cs)
  have hspace : ∀ e ∈ cs.takeWhile isBlank, isBlank e = true := fun e he =>
    List.mem_takeWhile_imp he
  have hhead : ∀ e ∈ (d :: (rest ++ ds)).head?, isBlank e = false := by
    intro e he
    refine head?_dropWhile cs e ?_
    rw [hdrop]
    exact he
  have hlong : cs ++ ds = cs.takeWhile isBlank ++ d :: (rest ++ ds) := by
    conv_lhs => rw [← hsplit, hdrop, List.append_assoc, List.cons_append]
  rw [opening, opening, hlong, takeWhile_append_eq hspace hhead, dropWhile_append_eq hspace hhead,
    hdrop]
  split
  · next heq =>
    obtain rfl : d = '(' := (List.cons.inj heq).1
    rfl
  · next hnot =>
    split
    · next heq =>
      obtain rfl : d = '(' := (List.cons.inj heq).1
      exact absurd rfl (hnot _)
    · rfl

theorem exists_length_colorsIn_append (back : List Char) :
    ∃ n, ∀ ts, (colorsIn (ts ++ back)).length = n + (colorsIn (ts ++ firstWord back)).length := by
  have hsplit := List.takeWhile_append_dropWhile (p := isColorChar) (l := back)
  have hhead := head?_dropWhile (p := isColorChar) back
  rw [firstWord]
  cases hdrop : back.dropWhile isColorChar with
  | nil =>
    rw [hdrop, List.append_nil] at hsplit
    refine ⟨0, fun ts => ?_⟩
    rw [hsplit, show opening [] = [] from rfl, List.append_nil, Nat.zero_add]
  | cons s rest =>
    rw [hdrop] at hsplit hhead
    refine ⟨(colorsIn rest).length, fun ts => ?_⟩
    conv_lhs => rw [← hsplit, ← List.append_assoc, length_colorsIn_append_cons (hhead s rfl)]
    rw [List.append_assoc, Nat.add_comm]

theorem exists_length_colorsIn_prepend (front : List Char) :
    ∃ n, ∀ ts, (colorsIn (front ++ ts)).length = n + (colorsIn (lastWords front ++ ts)).length := by
  -- the text backwards is a word, white space, a word, and the rest
  let word := front.reverse.takeWhile isColorChar
  let behind := front.reverse.dropWhile isColorChar
  let space := behind.takeWhile isBlank
  let before := behind.dropWhile isBlank
  have hfront : front =
      (before.dropWhile isColorChar).reverse ++ lastWords front := by
    rw [lastWords, ← List.reverse_append, List.append_assoc, List.append_assoc,
      List.takeWhile_append_dropWhile, List.takeWhile_append_dropWhile,
      List.takeWhile_append_dropWhile, List.reverse_reverse]
  cases hdrop : before.dropWhile isColorChar with
  | nil =>
    rw [hdrop, List.reverse_nil, List.nil_append] at hfront
    exact ⟨0, fun ts => by rw [← hfront, Nat.zero_add]⟩
  | cons s rest =>
    rw [hdrop, List.reverse_cons, List.append_assoc, List.singleton_append] at hfront
    have hs : isColorChar s = false := head?_dropWhile before s (by rw [hdrop]; rfl)
    -- what separates the words from the rest is no space alone
    have hsolid : ∃ c ∈ s :: lastWords front, isBlank c = false := by
      cases hword : before.takeWhile isColorChar with
      | nil =>
        have hbefore := List.takeWhile_append_dropWhile (p := isColorChar) (l := before)
        rw [hword, hdrop, List.nil_append] at hbefore
        refine ⟨s, List.mem_cons_self, head?_dropWhile behind s ?_⟩
        rw [show behind.dropWhile isBlank = s :: rest from hbefore.symm]
        rfl
      | cons c cs =>
        have hmem : c ∈ before.takeWhile isColorChar := hword ▸ List.mem_cons_self
        have hcolor : isColorChar c = true := List.mem_takeWhile_imp hmem
        refine ⟨c, List.mem_cons_of_mem s ?_, Bool.eq_false_iff.2 fun hblank => ?_⟩
        · rw [lastWords, List.mem_reverse]
          exact List.mem_append_right _ (List.mem_append_right _ hmem)
        · rw [isColorChar_of_isBlank hblank] at hcolor
          cases hcolor
    refine ⟨(colorsIn (rest.reverse ++ opening (s :: lastWords front))).length, fun ts => ?_⟩
    conv_lhs => rw [hfront, List.append_assoc, List.cons_append, length_colorsIn_append_cons hs,
      ← List.cons_append, opening_append hsolid]

/-- **What stands between two texts adds the colors of it and of the words around it.** -/
theorem exists_length_colorsIn_eq (front back : List Char) :
    ∃ n, ∀ mid, (colorsIn (front ++ (mid ++ back))).length =
      n + (colorsIn (lastWords front ++ (mid ++ firstWord back))).length := by
  obtain ⟨n, hback⟩ := exists_length_colorsIn_append back
  obtain ⟨m, hfront⟩ := exists_length_colorsIn_prepend front
  refine ⟨n + m, fun mid => ?_⟩
  rw [← List.append_assoc, hback, List.append_assoc, hfront, Nat.add_assoc]

end

end Value
end SheetAudit
