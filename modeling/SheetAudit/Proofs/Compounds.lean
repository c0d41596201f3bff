import SheetAudit.Proofs.SelectorLists

/-!
# Compounds of nested selectors

A selector that is written inside another rule, without `&`, applies to what lies below the parent:
the two are joined by a space.  The compounds are read by a scan that holds the compound it is in
and the number of brackets that are open.  Behind a parent that closes its brackets the scan meets
the space outside all of them, finishes the compound it holds and is in its initial state again,
whatever the child begins with.

## Main definitions

* `Unjoined` — no white space and no combinator of a text stands outside all brackets.
* `Nests` — a selector has the compounds of a parent and below them those of a child.

## Main results

* `compoundsFrom_append_space` — at a space outside brackets the scan begins again.
* `unjoined_of_mem_compounds` — a compound is unjoined.
* `resolve_nests` — **every selector of a nested rule nests the child below one of the parents, and
  its subject is that of the child.**
-/

namespace SheetAudit
namespace Selector

open Text

/-! ### Nesting -/

/-- No white space and no combinator of the text stands outside all brackets. -/
def Unjoined (text : List Char) : Prop :=
  ∀ before c after, text = before ++ c :: after → Outside before → isCombinator c = false

/-- The selector has the compounds of the parent and below them those of the child, whose subject
and class are its own. -/
structure Nests (parent child selector : List Char) : Prop where
  compounds_eq : compounds selector = compounds parent ++ compounds child
  subject_eq : compounds child ≠ [] → subject selector = subject child
  subjectClass_eq : compounds child ≠ [] → subjectClass selector = subjectClass child

/-! ### The scan at the join -/

theorem deepen_of_isCombinator {c : Char} (hc : isCombinator c = true) (depth : Nat) :
    deepen depth c = depth := by
  simp only [isCombinator, Bool.or_eq_true, beq_iff_eq] at hc
  rcases hc with ((hblank | rfl) | rfl) | rfl
  · exact deepen_of_isBlank hblank depth
  · rfl
  · rfl
  · rfl

/-- At a space outside brackets the scan finishes the compound it holds and begins again. -/
theorem compoundsFrom_append_space {depth : Nat} {front : List Char}
    (hclosed : depthAfter depth front = 0) (current rest : List Char) :
    compoundsFrom depth current (front ++ ' ' :: rest) =
      compoundsFrom depth current front ++ compounds rest := by
  induction front generalizing depth current with
  | nil =>
    obtain rfl : depth = 0 := hclosed
    rw [List.nil_append, compoundsFrom_of_combinator (by decide), compoundsFrom]
    show (if current.isEmpty then compounds rest else current.reverse :: compounds rest) = _
    cases current with
    | nil => rfl
    | cons c cs => rfl
  | cons c front ih =>
    rw [depthAfter_cons] at hclosed
    rw [List.cons_append]
    by_cases hsplit : isCombinator c = true ∧ depth = 0
    · obtain ⟨hc, rfl⟩ := hsplit
      rw [deepen_of_isCombinator hc] at hclosed
      rw [compoundsFrom_of_combinator hc, compoundsFrom_of_combinator hc, ih hclosed]
      split
      · rfl
      · rfl
    · rw [compoundsFrom_of_not hsplit, compoundsFrom_of_not hsplit, ih hclosed]

theorem compounds_append_space {parent : List Char} (h : Outside parent) (child : List Char) :
    compounds (parent ++ ' ' :: child) = compounds parent ++ compounds child :=
  compoundsFrom_append_space (depthAfter_eq_zero_iff.2 h) [] child

theorem nests_append_space {parent : List Char} (h : Outside parent) (child : List Char) :
    Nests parent child (parent ++ ' ' :: child) := by
  have hsubject (hne : compounds child ≠ []) :
      subject (parent ++ ' ' :: child) = subject child := by
    unfold subject
    rw [compounds_append_space h, List.getLast?_append_of_ne_nil _ hne]
  refine ⟨compounds_append_space h child, hsubject, ?_⟩
  intro hne
  unfold subjectClass
  rw [hsubject hne]

/-! ### What a compound holds -/

theorem unjoined_iff {text : List Char} :
    Unjoined text ↔ ¬ Bare deepen isCombinator 0 text := by
  constructor
  · rintro h ⟨before, c, after, heq, hc, hdepth⟩
    have hfalse := h before c after heq (depthAfter_eq_zero_iff.1 hdepth)
    rw [hc] at hfalse
    cases hfalse
  · intro h before c after heq hbefore
    by_contra hc
    rw [Bool.not_eq_false] at hc
    exact h ⟨before, c, after, heq, hc, hbefore.depthAfter_eq⟩

theorem bare_concat {step : Nat → Char → Nat} {p : Char → Bool} {depth : Nat} {cs : List Char}
    {c : Char} : Bare step p depth (cs ++ [c]) ↔
      Bare step p depth cs ∨ (p c = true ∧ cs.foldl step depth = 0) := by
  induction cs generalizing depth with
  | nil =>
    rw [List.nil_append, bare_cons, List.foldl_nil]
    simp [not_bare_nil]
  | cons d cs ih => rw [List.cons_append, bare_cons, bare_cons, ih, List.foldl_cons, or_assoc]

/-- The scan goes on with a compound that has no combinator outside brackets, at the depth of its
end, and every compound it finds is of this kind. -/
theorem not_bare_of_mem_compoundsFrom {depth : Nat} {current cs compound : List Char}
    (hdepth : depthAfter 0 current.reverse = depth)
    (hcurrent : ¬ Bare deepen isCombinator 0 current.reverse)
    (hmem : compound ∈ compoundsFrom depth current cs) : ¬ Bare deepen isCombinator 0 compound := by
  induction cs generalizing depth current with
  | nil =>
    rw [compoundsFrom] at hmem
    split at hmem
    · exact absurd hmem List.not_mem_nil
    · rw [List.mem_singleton.1 hmem]
      exact hcurrent
  | cons c cs ih =>
    by_cases hsplit : isCombinator c = true ∧ depth = 0
    · obtain ⟨hc, rfl⟩ := hsplit
      have hrest (h : compound ∈ compoundsFrom 0 [] cs) : ¬ Bare deepen isCombinator 0 compound :=
        @ih 0 [] rfl not_bare_nil h
      rw [compoundsFrom_of_combinator hc] at hmem
      split at hmem
      · exact hrest hmem
      · rcases List.mem_cons.1 hmem with rfl | hmem
        · exact hcurrent
        · exact hrest hmem
    · rw [compoundsFrom_of_not hsplit] at hmem
      refine ih ?_ ?_ hmem
      · rw [List.reverse_cons, depthAfter_append, hdepth]
        rfl
      · rw [List.reverse_cons, bare_concat]
        rintro (hbare | ⟨hc, hzero⟩)
        · exact hcurrent hbare
        · exact hsplit ⟨hc, hdepth ▸ hzero⟩

/-- A compound has no white space and no combinator outside all brackets. -/
theorem unjoined_of_mem_compounds {selector compound : List Char}
    (h : compound ∈ compounds selector) : Unjoined compound := by
  rw [unjoined_iff]
  exact @not_bare_of_mem_compoundsFrom 0 [] selector compound rfl not_bare_nil h

/-! ### Nested rules -/

theorem resolve_of_not_mem {parents : List (List Char)} (hne : parents ≠ []) {child : List Char}
    (hchild : '&' ∉ child) :
    resolve parents child = parents.map fun parent => parent ++ ' ' :: child := by
  have hcontains : child.contains '&' = false := by simpa using hchild
  rw [resolve, if_neg (by simpa using hne), hcontains]
  rfl

/-- Every selector of a nested rule nests the child below one of the parents: parent by parent, in
their order, it has the compounds of the parent and those of the child, and its subject is that of
the child if this has any.  No compound of any selector is joined from others. -/
theorem resolve_nests {parents : List (List Char)} (hne : parents ≠ []) {child : List Char}
    (hchild : '&' ∉ child) :
    List.Forall₂ (fun parent selector => Outside parent → Nests parent child selector)
        parents (resolve parents child) ∧
      ∀ selector, ∀ compound ∈ compounds selector, Unjoined compound := by
  refine ⟨?_, fun selector compound h => unjoined_of_mem_compounds h⟩
  rw [resolve_of_not_mem hne hchild, List.forall₂_map_right_iff, List.forall₂_same]
  intro parent _ hparent
  exact nests_append_space hparent child

/-- Below a parent with a space in its brackets, a child that begins with a combinator. -/
theorem resolve_nests_combinator :
    '&' ∉ "> b.c:not(.d + e)".toList ∧ Outside "ul li:is(x y)".toList ∧
      ∃ selector ∈ resolve ["ul li:is(x y)".toList, ".a".toList] "> b.c:not(.d + e)".toList,
        compounds selector =
            ["ul".toList, "li:is(x y)".toList] ++ compounds "> b.c:not(.d + e)".toList ∧
          compounds "> b.c:not(.d + e)".toList = ["b.c:not(.d + e)".toList] ∧
          subjectClass selector = some ['c'] := by
  have hchild : '&' ∉ "> b.c:not(.d + e)".toList := by decide
  have hparent : Outside "ul li:is(x y)".toList := depthAfter_eq_zero_iff.1 (by decide)
  obtain ⟨hall, -⟩ := @resolve_nests ["ul li:is(x y)".toList, ".a".toList]
    (List.cons_ne_nil _ _) _ hchild
  rw [resolve_of_not_mem (List.cons_ne_nil _ _) hchild] at hall ⊢
  have hnests := (List.forall₂_cons.1 hall).1 hparent
  have hcompounds : compounds "> b.c:not(.d + e)".toList = ["b.c:not(.d + e)".toList] := by decide
  have hne : compounds "> b.c:not(.d + e)".toList ≠ [] := by
    rw [hcompounds]
    exact List.cons_ne_nil _ _
  refine ⟨hchild, hparent, _, List.mem_cons_self, hnests.compounds_eq, hcompounds, ?_⟩
  rw [hnests.subjectClass_eq hne]
  decide

end Selector
end SheetAudit
