import Mathlib
import SheetAudit.Proofs.Blank
import SheetAudit.Selector.Compound
import SheetAudit.Selector.Specificity

/-!
# Escaped class names

A class name may hold any character behind a backslash.  The weighing of a selector takes the
escaped character into the name.  The other readers of selectors do not: a combinator or a colon
means to them what it means anywhere, and a class name ends at the first character that is none of
its own.  So they agree on a name exactly when its escapes are of characters that need none.

## Main definitions

* `Bare` — a character stands where no bracket is open.
* `NamePart`, `ClassName` — class names with escapes.
* `ClassName.Agrees` — all readers take the name for one class.

## Main results

* `takeName_append` — a name with escapes is read to its end.
* `compounds_eq_singleton_iff` — one compound is a text without combinators outside brackets.
* `stripPseudo_eq_self_iff` — what stripping leaves alone.
* `ClassName.agrees_iff` — **the readers agree on a class name exactly when every character that
  it escapes may stand in a name without its backslash.**
* `ClassName.escapes_cut_short` — two class names that are read as one.
-/

namespace SheetAudit
namespace Selector

open Text

/-! ### Where no bracket is open -/

/-- A character that satisfies `p` stands where no bracket is open; `step` counts the open ones, of
which there are `depth` before the text. -/
def Bare (step : Nat → Char → Nat) (p : Char → Bool) (depth : Nat) (cs : List Char) : Prop :=
  ∃ before c after, cs = before ++ c :: after ∧ p c = true ∧ before.foldl step depth = 0

theorem bare_cons {step : Nat → Char → Nat} {p : Char → Bool} {depth : Nat} {c : Char}
    {cs : List Char} :
    Bare step p depth (c :: cs) ↔ (p c = true ∧ depth = 0) ∨ Bare step p (step depth c) cs := by
  constructor
  · rintro ⟨_ | ⟨d, before⟩, e, after, heq, he, hdepth⟩
    · obtain ⟨rfl, rfl⟩ := List.cons.inj heq
      exact .inl ⟨he, hdepth⟩
    · obtain ⟨rfl, rfl⟩ := List.cons.inj heq
      exact .inr ⟨before, e, after, rfl, he, hdepth⟩
  · rintro (⟨hc, hdepth⟩ | ⟨before, e, after, rfl, he, hdepth⟩)
    · exact ⟨[], c, cs, rfl, hc, hdepth⟩
    · exact ⟨c :: before, e, after, rfl, he, hdepth⟩

theorem not_bare_nil {step : Nat → Char → Nat} {p : Char → Bool} {depth : Nat} :
    ¬ Bare step p depth [] := by
  rintro ⟨before, c, after, heq, -⟩
  simp at heq

/-- A text of characters that fail the test has none of them anywhere. -/
theorem not_bare_of_forall {step : Nat → Char → Nat} {p : Char → Bool} {depth : Nat}
    {cs : List Char} (h : ∀ c ∈ cs, p c = false) : ¬ Bare step p depth cs := by
  rintro ⟨before, c, after, rfl, hc, -⟩
  rw [h c (List.mem_append_right _ List.mem_cons_self)] at hc
  cases hc

/-! ### Compounds -/

theorem compoundsFrom_of_combinator {c : Char} (hc : isCombinator c = true) (current cs) :
    compoundsFrom 0 current (c :: cs) =
      if current.isEmpty then compoundsFrom 0 [] cs
      else current.reverse :: compoundsFrom 0 [] cs := by
  rw [compoundsFrom, if_pos (by simp [hc])]

theorem compoundsFrom_of_not {depth : Nat} {c : Char} (h : ¬ (isCombinator c = true ∧ depth = 0))
    (current cs : List Char) :
    compoundsFrom depth current (c :: cs) = compoundsFrom (deepen depth c) (c :: current) cs := by
  rw [compoundsFrom, if_neg (by simpa using h)]

/-- A compound that has been read keeps its length; one that is empty is left out. -/
theorem length_flatten_push (current : List Char) (rest : List (List Char)) :
    (if current.isEmpty then rest else current.reverse :: rest).flatten.length =
      current.length + rest.flatten.length := by
  cases current with
  | nil => exact (Nat.zero_add _).symm
  | cons c cs => rw [if_neg (by simp), List.flatten_cons, List.length_append, List.length_reverse]

theorem length_flatten_compoundsFrom (depth : Nat) (current cs : List Char) :
    (compoundsFrom depth current cs).flatten.length ≤ current.length + cs.length := by
  induction cs generalizing depth current with
  | nil =>
    rw [compoundsFrom, length_flatten_push]
    exact Nat.le_refl _
  | cons c cs ih =>
    by_cases h : isCombinator c = true ∧ depth = 0
    · obtain ⟨hc, rfl⟩ := h
      have hrest := ih 0 []
      rw [compoundsFrom_of_combinator hc, length_flatten_push, List.length_cons]
      rw [List.length_nil] at hrest
      omega
    · have hrest := ih (deepen depth c) (c :: current)
      rw [compoundsFrom_of_not h]
      rw [List.length_cons] at hrest ⊢
      omega

/-- A combinator outside brackets is lost. -/
theorem length_flatten_compoundsFrom_lt {depth : Nat} {cs : List Char}
    (h : Bare deepen isCombinator depth cs) (current : List Char) :
    (compoundsFrom depth current cs).flatten.length < current.length + cs.length := by
  induction cs generalizing depth current with
  | nil => exact absurd h not_bare_nil
  | cons c cs ih =>
    by_cases hsplit : isCombinator c = true ∧ depth = 0
    · obtain ⟨hc, rfl⟩ := hsplit
      have hrest := length_flatten_compoundsFrom 0 [] cs
      rw [compoundsFrom_of_combinator hc, length_flatten_push, List.length_cons]
      rw [List.length_nil] at hrest
      omega
    · have hrest := ih ((bare_cons.1 h).resolve_left hsplit) (c :: current)
      rw [compoundsFrom_of_not hsplit]
      rw [List.length_cons] at hrest ⊢
      omega

theorem compoundsFrom_of_not_bare {depth : Nat} {cs : List Char}
    (h : ¬ Bare deepen isCombinator depth cs) (current : List Char) :
    compoundsFrom depth current cs =
      if (current.reverse ++ cs).isEmpty then [] else [current.reverse ++ cs] := by
  induction cs generalizing depth current with
  | nil => simp [compoundsFrom]
  | cons c cs ih =>
    rw [bare_cons, not_or] at h
    rw [compoundsFrom_of_not h.1, ih h.2]
    simp

/-- **One compound is a text without combinators outside brackets.** -/
theorem compounds_eq_singleton_iff {s : List Char} (hs : s ≠ []) :
    compounds s = [s] ↔ ¬ Bare deepen isCombinator 0 s := by
  constructor
  · intro h hbare
    have hlt := length_flatten_compoundsFrom_lt hbare []
    rw [← compounds, h] at hlt
    simp at hlt
  · intro h
    rw [compounds, compoundsFrom_of_not_bare h]
    simp [hs]

/-! ### The class of the subject -/

theorem isClassChar_of_classFrom {depth : Nat} {cs name : List Char}
    (h : classFrom depth cs = some name) : ∀ c ∈ name, isClassChar c = true := by
  fun_induction classFrom depth cs with
  | case1 => cases h
  | case2 _ _ _ _ _ _ ih => exact ih h
  | case3 =>
    obtain rfl := Option.some.inj h
    exact fun c hc => List.mem_takeWhile_imp hc
  | case4 _ _ _ _ ih => exact ih h

/-- A class is named by characters that need no escape. -/
theorem isClassChar_of_subjectClass {s name : List Char} (h : subjectClass s = some name) :
    ∀ c ∈ name, isClassChar c = true := by
  obtain ⟨compound, -, hname⟩ := Option.bind_eq_some_iff.1 h
  exact isClassChar_of_classFrom hname

/-! ### Pseudo-classes -/

/-- The number of square brackets that are open after a character. -/
def bracketAfter (depth : Nat) (c : Char) : Nat :=
  if c == '[' then depth + 1 else if c == ']' then depth - 1 else depth

theorem stripFrom_cons (depth : Nat) (c : Char) (cs : List Char) :
    stripFrom depth (c :: cs) =
      if c = ':' ∧ depth = 0 then stripFrom 0 (afterPseudo cs)
      else c :: stripFrom (bracketAfter depth c) cs := by
  rw [stripFrom, bracketAfter]
  by_cases hcolon : c = ':' ∧ depth = 0
  · obtain ⟨rfl, rfl⟩ := hcolon
    rfl
  rw [if_neg hcolon]
  by_cases hopen : c = '['
  · subst hopen
    rfl
  by_cases hclose : c = ']'
  · subst hclose
    rfl
  · rw [if_neg (by simpa using hopen), if_neg (by simpa using hclose),
      if_neg (by simpa using hcolon), if_neg (by simpa using hopen),
      if_neg (by simpa using hclose)]

theorem length_stripFrom (depth : Nat) (cs : List Char) :
    (stripFrom depth cs).length ≤ cs.length := by
  induction hn : cs.length using Nat.strongRecOn generalizing depth cs with
  | _ n ih =>
    cases cs with
    | nil => rw [stripFrom]; exact Nat.zero_le n
    | cons c cs =>
      rw [List.length_cons] at hn
      rw [stripFrom_cons]
      split
      · have hafter := length_afterPseudo cs
        have hrest := ih (afterPseudo cs).length (by omega) 0 (afterPseudo cs) rfl
        omega
      · have hrest := ih cs.length (by omega) (bracketAfter depth c) cs rfl
        rw [List.length_cons]
        omega

/-- A colon outside square brackets is lost. -/
theorem length_stripFrom_lt {depth : Nat} {cs : List Char}
    (h : Bare bracketAfter (· == ':') depth cs) : (stripFrom depth cs).length < cs.length := by
  induction cs generalizing depth with
  | nil => exact absurd h not_bare_nil
  | cons c cs ih =>
    rw [stripFrom_cons, List.length_cons]
    split
    · have hafter := length_afterPseudo cs
      have hrest := length_stripFrom 0 (afterPseudo cs)
      omega
    · next hcolon =>
      have hrest := ih ((bare_cons.1 h).resolve_left (by simpa using hcolon))
      rw [List.length_cons]
      omega

theorem stripFrom_of_not_bare {depth : Nat} {cs : List Char}
    (h : ¬ Bare bracketAfter (· == ':') depth cs) : stripFrom depth cs = cs := by
  induction cs generalizing depth with
  | nil => rw [stripFrom]
  | cons c cs ih =>
    rw [bare_cons, not_or] at h
    rw [stripFrom_cons, if_neg (by simpa using h.1), ih h.2]

theorem singleSpaced_of_forall {cs : List Char} (h : ∀ c ∈ cs, isBlank c = false) :
    singleSpaced cs = true := by
  induction cs with
  | nil => rfl
  | cons c cs ih =>
    obtain ⟨hc, hcs⟩ := List.forall_mem_cons.1 h
    cases cs with
    | nil => simp [singleSpaced, hc]
    | cons d cs => rw [singleSpaced, ih hcs, hc]; rfl

/-- **Stripping leaves a text without blanks alone exactly when no colon stands outside its square
brackets.** -/
theorem stripPseudo_eq_self_iff {s : List Char} (hs : ∀ c ∈ s, isBlank c = false) :
    stripPseudo s = s ↔ ¬ Bare bracketAfter (· == ':') 0 s := by
  constructor
  · intro h hbare
    have hlt := length_stripFrom_lt hbare
    have hle := length_collapse (stripFrom 0 s)
    rw [← stripPseudo, h] at hle
    omega
  · intro h
    rw [stripPseudo, stripFrom_of_not_bare h]
    exact collapse_eq_self_of_ends s (singleSpaced_of_forall hs)
      (fun c hc => hs c (List.mem_of_head? hc)) (fun c hc => hs c (List.mem_of_getLast? hc))

/-! ### Names with escapes -/

theorem takeName_cons {c : Char} (hc : isNameChar c = true) (cs : List Char) :
    takeName (c :: cs) = (c :: (takeName cs).1, (takeName cs).2) := by
  have hne : c ≠ '\\' := by
    rintro rfl
    exact absurd hc (by decide)
  rw [takeName]
  · exact if_pos hc
  · exact fun h _ => hne h
  · exact fun d ds h _ => hne h

/-- A unit of a class name. -/
inductive NamePart where
  /-- A letter, a digit, a hyphen or an underscore. -/
  | plain (c : Char) (isName : c.isAlphanum = true ∨ c = '-' ∨ c = '_')
  /-- Any other character behind a backslash. -/
  | escaped (c : Char) (notBlank : isBlank c = false) (notName : c.isAlphanum = false)

namespace NamePart

def write : NamePart → List Char
  | plain c _ => [c]
  | escaped c _ _ => ['\\', c]

/-- The character that is escaped, if any. -/
def escape? : NamePart → Option Char
  | plain _ _ => none
  | escaped c _ _ => some c

end NamePart

theorem isAscii_of_isAlphanum {c : Char} (h : c.isAlphanum = true) : isAscii c = true := by
  simp only [Char.isAlphanum, Char.isAlpha, Char.isUpper, Char.isLower, Char.isDigit,
    Bool.or_eq_true, Bool.and_eq_true, decide_eq_true_eq, ge_iff_le, UInt32.le_iff_toNat_le] at h
  simp only [isAscii, decide_eq_true_eq, Char.toNat]
  have h₁ : 'Z'.val.toNat = 90 := rfl
  have h₂ : 'z'.val.toNat = 122 := rfl
  have h₃ : '9'.val.toNat = 57 := rfl
  omega

theorem isNameChar_of_plain {c : Char} (h : c.isAlphanum = true ∨ c = '-' ∨ c = '_') :
    isNameChar c = true := by
  rcases h with h | rfl | rfl
  · simp [isNameChar, isAlphanumeric, isAscii_of_isAlphanum h, h]
  · decide
  · decide

theorem isBlank_of_isNameChar {c : Char} (h : isNameChar c = true) : isBlank c = false := by
  simp only [isNameChar, Bool.or_eq_true, beq_iff_eq] at h
  rcases h with (h | rfl) | rfl
  · exact isBlank_of_isAlphanumeric h
  · decide
  · decide

/-- A class name, escapes included. -/
structure ClassName where
  parts : List NamePart
  ne_nil : parts ≠ []

namespace ClassName

/-- The name as it is written. -/
def chars (n : ClassName) : List Char := n.parts.flatMap NamePart.write

/-- The selector of the class. -/
def selector (n : ClassName) : List Char := '.' :: n.chars

end ClassName

/-- A name with escapes is read to its end. -/
theorem takeName_append (parts : List NamePart) (rest : List Char) :
    takeName (parts.flatMap NamePart.write ++ rest) =
      (parts.flatMap NamePart.write ++ (takeName rest).1, (takeName rest).2) := by
  induction parts with
  | nil => rfl
  | cons part parts ih =>
    rw [List.flatMap_cons, List.append_assoc]
    cases part with
    | plain c hc =>
      rw [NamePart.write, List.singleton_append, takeName_cons (isNameChar_of_plain hc), ih]
      rfl
    | escaped c =>
      change takeName ('\\' :: c :: (parts.flatMap NamePart.write ++ rest)) = _
      rw [takeName, ih]
      rfl

theorem isBlank_of_mem_write {part : NamePart} {c : Char} (h : c ∈ part.write) :
    isBlank c = false := by
  cases part with
  | plain d hd =>
    rw [List.mem_singleton.1 h]
    exact isBlank_of_isNameChar (isNameChar_of_plain hd)
  | escaped d hd =>
    simp only [NamePart.write, List.mem_cons, List.not_mem_nil, or_false] at h
    rcases h with rfl | rfl
    · decide
    · exact hd

namespace ClassName

theorem isBlank_of_mem_selector (n : ClassName) : ∀ c ∈ n.selector, isBlank c = false := by
  refine List.forall_mem_cons.2 ⟨by decide, fun c hc => ?_⟩
  obtain ⟨part, -, hmem⟩ := List.mem_flatMap.1 hc
  exact isBlank_of_mem_write hmem

theorem chars_ne_nil (n : ClassName) : n.chars ≠ [] := by
  obtain ⟨part, parts, hparts⟩ := List.exists_cons_of_ne_nil n.ne_nil
  rw [chars, hparts, List.flatMap_cons]
  cases part <;> exact List.cons_ne_nil _ _

/-- A backslash and what it escapes count as part of the name. -/
theorem specificity_selector (n : ClassName) : specificity n.selector = 10 := by
  have hname := takeName_append n.parts []
  rw [List.append_nil] at hname
  rw [specificity, selector, weigh, if_neg (by decide), if_pos (by decide), chars, hname, takeName,
    weigh]
  rfl

/-- The characters of a name need no escape exactly when those that have one need none. -/
theorem forall_isClassChar_iff (n : ClassName) :
    (∀ c ∈ n.chars, isClassChar c = true) ↔
      ∀ part ∈ n.parts, ∀ c ∈ part.escape?, isClassChar c = true := by
  constructor
  · rintro h (_ | ⟨c, hb, hn⟩) hpart d hd
    · cases hd
    · obtain rfl := Option.some.inj hd
      exact h c (List.mem_flatMap.2 ⟨_, hpart, by simp [NamePart.write]⟩)
  · intro h c hc
    obtain ⟨part, hpart, hmem⟩ := List.mem_flatMap.1 hc
    cases part with
    | plain d hd =>
      obtain rfl := List.mem_singleton.1 hmem
      have hname := isNameChar_of_plain hd
      rw [isClassChar, Bool.or_eq_true]
      exact .inl hname
    | escaped d =>
      simp only [NamePart.write, List.mem_cons, List.not_mem_nil, or_false] at hmem
      rcases hmem with rfl | rfl
      · decide
      · exact h _ hpart _ rfl

theorem isCombinator_of_isClassChar {c : Char} (h : isClassChar c = true) :
    isCombinator c = false ∧ (c == ':') = false := by
  rw [isClassChar, ← isNameChar, Bool.or_eq_true] at h
  rcases h with h | h
  · have hblank := isBlank_of_isNameChar h
    have hne {d : Char} (hd : isNameChar d = false) : (c == d) = false :=
      beq_false_of_ne fun heq => absurd (heq ▸ h) (by simp [hd])
    rw [isCombinator, hblank, hne (by decide), hne (by decide), hne (by decide)]
    exact ⟨rfl, hne (by decide)⟩
  · obtain rfl := eq_of_beq h
    decide

/-- A name without need of escapes holds neither combinators nor colons. -/
theorem plain_selector {n : ClassName} (h : ∀ c ∈ n.chars, isClassChar c = true) :
    ∀ c ∈ n.selector, isCombinator c = false ∧ (c == ':') = false :=
  List.forall_mem_cons.2 ⟨by decide, fun c hc => isCombinator_of_isClassChar (h c hc)⟩

/-- A class that is named in full needs no escapes. -/
theorem subjectClass_selector_iff (n : ClassName) :
    subjectClass n.selector = some n.chars ↔ ∀ c ∈ n.chars, isClassChar c = true := by
  constructor
  · exact isClassChar_of_subjectClass
  · intro h
    have hbare : ¬ Bare deepen isCombinator 0 n.selector :=
      not_bare_of_forall fun c hc => (plain_selector h c hc).1
    have hcompounds : compounds n.selector = [n.selector] :=
      (compounds_eq_singleton_iff (List.cons_ne_nil _ _)).2 hbare
    have hname : n.chars.takeWhile isClassChar = n.chars := List.takeWhile_eq_self_iff.2 h
    rw [subjectClass, subject, hcompounds]
    simp [selector, classFrom, hname, n.chars_ne_nil]

/-- All readers of selectors take the name for that of one class. -/
structure Agrees (n : ClassName) : Prop where
  compounds : Selector.compounds n.selector = [n.selector]
  subjectClass : Selector.subjectClass n.selector = some n.chars
  stripPseudo : Selector.stripPseudo n.selector = n.selector
  specificity : Selector.specificity n.selector = 10

/-- **The readers of selectors agree on a class name exactly when every character that it escapes
may stand in a name without its backslash.**  The weight is always that of one class; a compound
is lost at a combinator, and a colon begins a pseudo-class, wherever no bracket is open; the name
of the class ends at the first character that it would have to escape. -/
theorem agrees_iff (n : ClassName) :
    Selector.specificity n.selector = 10 ∧
      (Selector.compounds n.selector = [n.selector] ↔ ¬ Bare deepen isCombinator 0 n.selector) ∧
      (Selector.stripPseudo n.selector = n.selector ↔
        ¬ Bare bracketAfter (· == ':') 0 n.selector) ∧
      (Selector.subjectClass n.selector = some n.chars ↔
        ∀ part ∈ n.parts, ∀ c ∈ part.escape?, isClassChar c = true) ∧
      (n.Agrees ↔ ∀ part ∈ n.parts, ∀ c ∈ part.escape?, isClassChar c = true) := by
  have hcompounds : Selector.compounds n.selector = [n.selector] ↔ _ :=
    compounds_eq_singleton_iff (List.cons_ne_nil _ _)
  have hstrip := stripPseudo_eq_self_iff n.isBlank_of_mem_selector
  have hclass := n.subjectClass_selector_iff.trans n.forall_isClassChar_iff
  refine ⟨n.specificity_selector, hcompounds, hstrip, hclass, fun h => hclass.1 h.subjectClass,
    fun h => ?_⟩
  have hplain := plain_selector (n.forall_isClassChar_iff.2 h)
  exact
    { compounds := hcompounds.2 (not_bare_of_forall fun c hc => (hplain c hc).1)
      subjectClass := hclass.2 h
      stripPseudo := hstrip.2 (not_bare_of_forall fun c hc => (hplain c hc).2)
      specificity := n.specificity_selector }

/-- Two classes with escaped colons have one name, neither is left alone by stripping, and an
escaped combinator makes two compounds of a class. -/
theorem escapes_cut_short :
    ∃ flex grid wider : ClassName,
      flex.selector = ".sm\\:flex".toList ∧ grid.selector = ".sm\\:grid".toList ∧
      wider.selector = ".a\\>b".toList ∧
      Selector.subjectClass flex.selector = some "sm\\".toList ∧
      Selector.subjectClass grid.selector = some "sm\\".toList ∧
      Selector.stripPseudo flex.selector = ".sm\\".toList ∧
      Selector.compounds wider.selector = [".a\\".toList, "b".toList] ∧
      ¬ flex.Agrees ∧ ¬ grid.Agrees ∧ ¬ wider.Agrees := by
  let letter (c : Char) (h : c.isAlphanum = true) : NamePart := .plain c (.inl h)
  let colon : NamePart := .escaped ':' (by decide) (by decide)
  let flex : ClassName :=
    ⟨[letter 's' rfl, letter 'm' rfl, colon, letter 'f' rfl, letter 'l' rfl, letter 'e' rfl,
      letter 'x' rfl], List.cons_ne_nil _ _⟩
  let grid : ClassName :=
    ⟨[letter 's' rfl, letter 'm' rfl, colon, letter 'g' rfl, letter 'r' rfl, letter 'i' rfl,
      letter 'd' rfl], List.cons_ne_nil _ _⟩
  let wider : ClassName :=
    ⟨[letter 'a' rfl, .escaped '>' (by decide) (by decide), letter 'b' rfl], List.cons_ne_nil _ _⟩
  have hflex : Selector.subjectClass flex.selector = some "sm\\".toList := by decide
  have hgrid : Selector.subjectClass grid.selector = some "sm\\".toList := by decide
  have hwider : Selector.compounds wider.selector = [".a\\".toList, "b".toList] := by decide
  refine ⟨flex, grid, wider, by decide, by decide, by decide, hflex, hgrid, by cbv, hwider,
    fun h => ?_, fun h => ?_, fun h => ?_⟩
  · exact absurd (hflex.symm.trans h.subjectClass) (by decide)
  · exact absurd (hgrid.symm.trans h.subjectClass) (by decide)
  · exact absurd (hwider.symm.trans h.compounds) (by decide)

end ClassName
end Selector
end SheetAudit
