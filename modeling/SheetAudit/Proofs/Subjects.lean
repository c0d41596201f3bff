import SheetAudit.Proofs.Compounds
import SheetAudit.Sheet.Purpose

/-!
# The class that a rule is about

Which class a selector styles can be read off without counting brackets.  All that stands inside
brackets is covered first, and what is left is cut at its combinators and at its points.

## Main definitions

* `cover` — a text with a star for every bracket and for every character inside brackets.
* `separates`, `names` — the characters between compounds, and those of a class name.
* `lastCompound?`, `className?` — the compound that is styled, and the first class that it names.
* `ClassKind.IsUtility` — a class is a utility by its name, or by how little its rule says.

## Main results

* `map_cover_compounds` — the compounds of a selector are covered one by one.
* `subjectClass_eq` — **the class of the subject is the first that the last compound names.**
* `ClassKind.infer_eq` — the kind of a class.
-/

namespace SheetAudit
namespace Selector

open Text

/-! ### Covered texts -/

/-- A star for every bracket, and for every character where brackets are open; `depth` of them are
open before the text. -/
def cover (depth : Nat) : List Char → List Char
  | [] => []
  | c :: cs =>
    if c = '(' ∨ c = '[' then '*' :: cover (depth + 1) cs
    else if c = ')' ∨ c = ']' then '*' :: cover (depth - 1) cs
    else (if depth = 0 then c else '*') :: cover depth cs

/-- A blank, or one of the three signs between compounds. -/
def separates (c : Char) : Bool := isBlank c || ['>', '+', '~'].contains c

/-- A letter, a digit, a hyphen, an underscore, or the backslash of an escape. -/
def names (c : Char) : Bool := isAlphanumeric c || ['-', '_', '\\'].contains c

/-- The last compound of a selector, covered. -/
def lastCompound? (selector : List Char) : Option (List Char) :=
  (((cover 0 selector).splitOnP separates).filter (· ≠ [])).getLast?

/-- The first class name that follows a point in a covered text. -/
def firstName? (covered : List Char) : Option (List Char) :=
  ((covered.splitOnP (· = '.')).tail.map fun piece => piece.takeWhile names).find? (· ≠ [])

/-- The first class that the last compound names. -/
def className? (selector : List Char) : Option (List Char) :=
  (lastCompound? selector).bind firstName?

/-! ### Covering character by character -/

section

variable {depth : Nat} {c : Char} {cs : List Char}

/-- What a character is covered with. -/
def covered (depth : Nat) (c : Char) : Char :=
  if opens c = true ∨ closes c = true ∨ depth ≠ 0 then '*' else c

theorem cover_cons (depth : Nat) (c : Char) (cs : List Char) :
    cover depth (c :: cs) = covered depth c :: cover (deepen depth c) cs := by
  have ho : opens c = true ↔ c = '(' ∨ c = '[' := by simp [opens]
  have hc : closes c = true ↔ c = ')' ∨ c = ']' := by simp [closes]
  rw [cover, covered, deepen]
  by_cases hopen : c = '(' ∨ c = '['
  · rw [if_pos hopen, if_pos (.inl (ho.2 hopen)), if_pos (ho.2 hopen)]
  rw [if_neg hopen, if_neg (mt ho.1 hopen)]
  by_cases hclose : c = ')' ∨ c = ']'
  · rw [if_pos hclose, if_pos (.inr (.inl (hc.2 hclose))), if_pos (hc.2 hclose)]
  rw [if_neg hclose, if_neg (mt hc.1 hclose)]
  by_cases hdepth : depth = 0
  · rw [if_pos hdepth, if_neg (by simp [mt ho.1 hopen, mt hc.1 hclose, hdepth])]
  · rw [if_neg hdepth, if_pos (.inr (.inr hdepth))]

theorem cover_append (depth : Nat) (cs ds : List Char) :
    cover depth (cs ++ ds) = cover depth cs ++ cover (depthAfter depth cs) ds := by
  induction cs generalizing depth with
  | nil => rfl
  | cons c cs ih => rw [List.cons_append, cover_cons, cover_cons, ih, depthAfter_cons]; rfl

theorem cover_eq_nil_iff : cover depth cs = [] ↔ cs = [] := by
  cases cs with
  | nil => exact iff_of_true rfl rfl
  | cons c cs => simp [cover_cons]

/-- Where nothing is open, a character that is no bracket shows. -/
theorem covered_zero (ho : opens c = false) (hc : closes c = false) : covered 0 c = c := by
  simp [covered, ho, hc]

/-- A character that passes a test which no bracket passes is no bracket. -/
theorem no_bracket {p : Char → Bool} (hp : ['(', '[', ')', ']'].any p = false)
    (h : p c = true) : opens c = false ∧ closes c = false := by
  have hne {d : Char} (hd : d ∈ ['(', '[', ')', ']']) : (c == d) = false := by
    refine beq_false_of_ne ?_
    rintro rfl
    exact List.any_eq_false.1 hp c hd h
  simp [opens, closes, hne (d := '('), hne (d := '['), hne (d := ')'), hne (d := ']')]

/-- A class name shows as far as it goes. -/
theorem takeWhile_cover (cs : List Char) : (cover 0 cs).takeWhile names = cs.takeWhile names := by
  induction cs with
  | nil => rfl
  | cons c cs ih =>
    rw [cover_cons]
    cases hname : names c with
    | true =>
      obtain ⟨hopen, hclose⟩ := no_bracket (p := names) (by decide) hname
      rw [covered_zero hopen hclose, deepen_of_neither hopen hclose,
        List.takeWhile_cons_of_pos hname, List.takeWhile_cons_of_pos hname, ih]
    | false =>
      have hcovered : names (covered 0 c) = false := by
        unfold covered
        split
        · decide
        · exact hname
      rw [List.takeWhile_cons_of_neg (by simp [hcovered]),
        List.takeWhile_cons_of_neg (by simp [hname])]

/-! ### Compounds -/

theorem separates_eq (c : Char) : separates c = isCombinator c := by
  rw [Bool.eq_iff_iff]
  simp [separates, isCombinator, or_assoc]

/-- A combinator outside brackets shows, and nothing else shows as one. -/
theorem separates_covered_iff :
    separates (covered depth c) = true ↔ isCombinator c = true ∧ depth = 0 := by
  unfold covered
  split
  · next h =>
    refine iff_of_false (by decide) ?_
    rintro ⟨hc, hdepth⟩
    obtain ⟨hopen, hclose⟩ := no_bracket (p := isCombinator) (by decide) hc
    simp [hopen, hclose, hdepth] at h
  · next h =>
    have hdepth : depth = 0 := by
      by_contra hne
      exact h (.inr (.inr hne))
    rw [separates_eq]
    simp [hdepth]

/-- The compounds that the scan has yet to find are covered one by one. -/
theorem map_cover_compoundsFrom {current p : List Char} {ps : List (List Char)}
    (hdepth : depthAfter 0 current.reverse = depth)
    (hpieces : (cover depth cs).splitOnP separates = p :: ps) :
    (compoundsFrom depth current cs).map (cover 0) =
      ((cover 0 current.reverse ++ p) :: ps).filter (· ≠ []) := by
  induction cs generalizing depth current p ps with
  | nil =>
    obtain ⟨rfl, rfl⟩ : [] = p ∧ [] = ps := by simpa [cover] using hpieces
    rw [compoundsFrom, List.append_nil]
    cases current with
    | nil => rfl
    | cons c current => simp [cover_eq_nil_iff]
  | cons c cs ih =>
    rw [cover_cons, List.splitOnP_cons_eq_if_modifyHead] at hpieces
    by_cases hc : isCombinator c = true ∧ depth = 0
    · -- the compound that was being read is finished
      rw [if_pos (separates_covered_iff.2 hc)] at hpieces
      obtain ⟨hcombinator, rfl⟩ := hc
      rw [deepen_of_isCombinator hcombinator] at hpieces
      obtain ⟨rfl, rfl⟩ := List.cons.inj hpieces
      obtain ⟨q, qs, hq⟩ := List.exists_cons_of_ne_nil
        (List.splitOnP_ne_nil separates (cover 0 cs))
      have hnone : depthAfter 0 ([] : List Char).reverse = 0 := rfl
      have hrest : (compoundsFrom 0 [] cs).map (cover 0) = (q :: qs).filter (· ≠ []) :=
        ih hnone hq
      rw [compoundsFrom_of_combinator hcombinator, hq, List.append_nil]
      cases current with
      | nil => exact hrest
      | cons d current =>
        have hne : cover 0 (d :: current).reverse ≠ [] := by simp [cover_eq_nil_iff]
        rw [if_neg (by simp), List.map_cons, hrest]
        exact (List.filter_cons_of_pos (by simpa using hne)).symm
    · rw [if_neg (mt separates_covered_iff.1 hc)] at hpieces
      obtain ⟨q, qs, hq⟩ := List.exists_cons_of_ne_nil
        (List.splitOnP_ne_nil separates (cover (deepen depth c) cs))
      rw [hq, List.modifyHead_cons] at hpieces
      obtain ⟨rfl, rfl⟩ := List.cons.inj hpieces
      have hdeeper : depthAfter 0 (c :: current).reverse = deepen depth c := by
        rw [List.reverse_cons, depthAfter_append, hdepth]
        rfl
      have hcurrent :
          cover 0 (c :: current).reverse = cover 0 current.reverse ++ [covered depth c] := by
        rw [List.reverse_cons, cover_append, hdepth, cover_cons]
        rfl
      have hrest := ih hdeeper hq
      rw [hcurrent, List.append_assoc] at hrest
      rw [compoundsFrom_of_not hc]
      exact hrest

end

/-- The compounds of a selector are covered one by one. -/
theorem map_cover_compounds (selector : List Char) :
    (compounds selector).map (cover 0) =
      ((cover 0 selector).splitOnP separates).filter (· ≠ []) := by
  obtain ⟨p, ps, hp⟩ := List.exists_cons_of_ne_nil
    (List.splitOnP_ne_nil separates (cover 0 selector))
  have hnone : depthAfter 0 ([] : List Char).reverse = 0 := rfl
  rw [hp]
  exact map_cover_compoundsFrom hnone hp

theorem lastCompound?_eq (selector : List Char) :
    lastCompound? selector = (subject selector).map (cover 0) := by
  rw [lastCompound?, ← map_cover_compounds, List.getLast?_map, subject]

/-! ### Class names -/

/-- A name ends before a point. -/
theorem takeWhile_names_piece {xs p : List Char} {ps : List (List Char)}
    (h : xs.splitOnP (· = '.') = p :: ps) : p.takeWhile names = xs.takeWhile names := by
  induction xs generalizing p ps with
  | nil =>
    obtain ⟨rfl, rfl⟩ : [] = p ∧ [] = ps := by simpa using h
    rfl
  | cons x xs ih =>
    rw [List.splitOnP_cons_eq_if_modifyHead] at h
    split at h
    · next hx =>
      obtain ⟨rfl, -⟩ := List.cons.inj h
      obtain rfl : x = '.' := by simpa using hx
      rfl
    · obtain ⟨q, qs, hq⟩ := List.exists_cons_of_ne_nil (List.splitOnP_ne_nil (· = '.') xs)
      rw [hq, List.modifyHead_cons] at h
      obtain ⟨rfl, -⟩ := List.cons.inj h
      rw [List.takeWhile_cons, List.takeWhile_cons, ih hq]

theorem names_eq (c : Char) : names c = isClassChar c := by
  rw [Bool.eq_iff_iff]
  simp [names, isClassChar, or_assoc]

/-- A point outside brackets shows, and nothing else shows as one. -/
theorem covered_eq_point_iff {depth : Nat} {c : Char} :
    covered depth c = '.' ↔ c = '.' ∧ depth = 0 := by
  unfold covered
  split
  · next h =>
    refine iff_of_false (by decide) ?_
    rintro ⟨rfl, rfl⟩
    exact absurd h (by decide)
  · next h =>
    have hdepth : depth = 0 := by
      by_contra hne
      exact h (.inr (.inr hne))
    simp [hdepth]

/-- Counting brackets, the first name behind a point is the first that shows. -/
theorem classFrom_eq_firstName? (depth : Nat) (cs : List Char) :
    classFrom depth cs = firstName? (cover depth cs) := by
  induction cs generalizing depth with
  | nil => rfl
  | cons c cs ih =>
    obtain ⟨q, qs, hq⟩ := List.exists_cons_of_ne_nil
      (List.splitOnP_ne_nil (· = '.') (cover (deepen depth c) cs))
    have hrest := ih (deepen depth c)
    rw [firstName?, hq, List.tail_cons] at hrest
    rw [firstName?, cover_cons, List.splitOnP_cons_eq_if_modifyHead, hq]
    by_cases hpoint : c = '.' ∧ depth = 0
    · rw [if_pos (by simpa using covered_eq_point_iff.2 hpoint)]
      obtain ⟨rfl, rfl⟩ := hpoint
      have hname : q.takeWhile names = cs.takeWhile isClassChar := by
        rw [takeWhile_names_piece hq, ← funext names_eq]
        exact takeWhile_cover cs
      rw [classFrom, if_pos (by decide), List.tail_cons, List.map_cons, hname]
      dsimp only
      cases hcs : cs.takeWhile isClassChar with
      | nil => exact hrest
      | cons d ds => rfl
    · rw [if_neg (by simpa using mt covered_eq_point_iff.1 hpoint), List.modifyHead_cons,
        List.tail_cons, ← hrest, classFrom, if_neg (by simpa using hpoint)]

/-- **The class of the subject is the first that the last compound names.** -/
theorem subjectClass_eq (selector : List Char) : subjectClass selector = className? selector := by
  rw [subjectClass, className?, lastCompound?_eq, Option.bind_map]
  congr 1
  funext compound
  exact classFrom_eq_firstName? 0 compound

/-- Classes in brackets and classes of other compounds do not count. -/
example : subjectClass "a.b:not(.c) > li[x='.d'].e.f".toList = some ['e'] := by decide

end Selector

/-! ### Kinds of classes -/

namespace ClassKind

open Text

/-- The name is one that utilities have, or begins as those of utilities do, in any letter case. -/
def IsUtilityName (name : List Char) : Prop :=
  (∃ word ∈ Property.utilityNames, lowerAscii name = word.toList) ∨
    ∃ start ∈ Property.utilityPrefixes, start.toList <+: lowerAscii name

instance (name : List Char) : Decidable (IsUtilityName name) :=
  inferInstanceAs (Decidable (_ ∨ _))

/-- A class is a utility by its name, or if its rule says no more than three things of nothing but
the class. -/
def IsUtility (name selector : List Char) (declarations : Nat) : Prop :=
  IsUtilityName name ∨ (selector = '.' :: name ∧ declarations ≤ 3)

instance (name selector : List Char) (declarations : Nat) :
    Decidable (IsUtility name selector declarations) :=
  inferInstanceAs (Decidable (_ ∨ _))

/-- **The kind of a class** with a selector that has no blanks at its ends. -/
theorem infer_eq {selector : List Char} (h : trim selector = selector) (name : List Char)
    (declarations : Nat) :
    infer name selector declarations =
      if IsUtility name selector declarations then .utility else .component := by
  have hnamed : (Property.utilityNames.contains (String.ofList (lowerAscii name)) ||
      Property.utilityPrefixes.any fun p => p.toList.isPrefixOf (lowerAscii name)) = true ↔
      IsUtilityName name := by
    rw [Bool.or_eq_true, List.any_eq_true, List.contains_iff_mem]
    refine or_congr ?_ (exists_congr fun p => and_congr_right fun _ => List.isPrefixOf_iff_prefix)
    constructor
    · intro hmem
      exact ⟨_, hmem, String.toList_ofList.symm⟩
    · rintro ⟨word, hmem, hname⟩
      rwa [hname, String.ofList_toList]
  rw [infer, h]
  refine if_congr ?_ rfl rfl
  rw [Bool.or_eq_true, hnamed, Bool.and_eq_true, beq_iff_eq, decide_eq_true_eq]
  rfl

/-- A name that begins as those of utilities do, in some letter case. -/
example : infer "MT-4".toList "li.MT-4".toList 7 = .utility := by decide

end ClassKind
end SheetAudit
