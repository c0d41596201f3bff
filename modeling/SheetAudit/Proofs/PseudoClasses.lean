import SheetAudit.Offsets.Pseudo
import SheetAudit.Proofs.FocusSelectors
import SheetAudit.Proofs.SelectorLists

/-!
# Selectors without pseudo-classes

Stripping a selector takes every colon outside square brackets away, with the name and the arguments
behind it, and keeps all else.  The square brackets among the arguments are lost with them and count
for nothing, so what is kept has its brackets open where the reader had them open: reading it again
finds no colon to strip, and ends where the reader ended.

## Main definitions

* `Unbracketed` — behind a text one is outside all square brackets.

## Main results

* `Offsets.stripPseudo_eq` — stripping with a count of parentheses meets no fault.
* `not_bare_stripPseudo` — no colon outside square brackets is left.
* `stripPseudo_append_pseudo` — a pseudo-class behind a stripped selector is stripped alone.
* `stripPseudo_projects` — **stripping is a projection, and it takes a focus pseudo-class behind a
  stripped selector away: a rule for it is a focus style of the base that was reported.**
-/

namespace SheetAudit

open Text

/-! ### The count of parentheses -/

namespace Offsets

open Selector (afterParens afterPseudo)

theorem passArguments_eq (depth : Nat) (cs : List Char) :
    passArguments (depth + 1) cs = .ok (afterParens depth cs) := by
  induction cs generalizing depth with
  | nil => rfl
  | cons c cs ih =>
    unfold passArguments afterParens
    by_cases hopen : c = '('
    · subst hopen
      rw [if_pos (by rfl), ih]
      rfl
    by_cases hclose : c = ')'
    · subst hclose
      have hminus : minus (depth + 1) 1 = .ok depth := if_pos (Nat.le_add_left 1 depth)
      rw [if_neg (by decide), if_pos (by rfl), hminus, ok_bind]
      cases depth with
      | zero => rfl
      | succ depth =>
        rw [if_neg (by simp), if_neg (by simp), ih]
        rfl
    · rw [if_neg (by simpa using hopen), if_neg (by simpa using hclose), if_neg (by simp [hclose]),
        if_neg (by simpa using hopen), if_neg (by simpa using hclose), ih]

/-- The count begins at the parenthesis that opens. -/
theorem passPseudo_eq (cs : List Char) : passPseudo cs = .ok (afterPseudo cs) := by
  unfold passPseudo afterPseudo
  dsimp only
  generalize List.dropWhile Selector.isNameChar _ = rest
  cases rest with
  | nil => rfl
  | cons c rest =>
    by_cases hopen : c = '('
    · subst hopen
      exact passArguments_eq 0 rest
    · rw [if_neg (by simpa using hopen)]
      split
      · next h => exact absurd (List.cons.inj h).1 hopen
      · rfl

theorem stripFrom_eq (bracket : Nat) (cs : List Char) :
    stripFrom bracket cs = .ok (Selector.stripFrom bracket cs) := by
  fun_induction Selector.stripFrom bracket cs with
  | case1 => unfold stripFrom; rfl
  | case2 bracket c cs hopen ih =>
    unfold stripFrom
    rw [if_pos hopen, ih]
    rfl
  | case3 bracket c cs hopen hclose ih =>
    unfold stripFrom
    rw [if_neg hopen, if_pos hclose, ih]
    rfl
  | case4 bracket c cs hopen hclose hcolon ih =>
    unfold stripFrom
    rw [if_neg hopen, if_neg hclose, if_pos hcolon]
    split
    · next f h => rw [passPseudo_eq] at h; cases h
    · next rest h =>
      rw [passPseudo_eq] at h
      rw [← Except.ok.inj h, ih]
  | case5 bracket c cs hopen hclose hcolon ih =>
    unfold stripFrom
    rw [if_neg hopen, if_neg hclose, if_neg hcolon, ih]
    rfl

/-- Stripping with a count of parentheses meets no fault. -/
theorem stripPseudo_eq (selector : List Char) :
    stripPseudo selector = .ok (Selector.stripPseudo selector) := by
  unfold stripPseudo
  rw [stripFrom_eq]
  rfl

end Offsets

namespace Selector

/-! ### Square brackets -/

/-- Behind the text one is outside all square brackets: apart from its parentheses, each bracket it
opens is closed in it. -/
def Unbracketed (before : List Char) : Prop := Outside (before.filter fun c => c != '(' && c != ')')

theorem foldl_bracketAfter (depth : Nat) (cs : List Char) :
    cs.foldl bracketAfter depth = depthAfter depth (cs.filter fun c => c != '(' && c != ')') := by
  induction cs generalizing depth with
  | nil => rfl
  | cons c cs ih =>
    rw [List.foldl_cons, ih]
    by_cases hparen : c = '(' ∨ c = ')'
    · rw [List.filter_cons_of_neg (by rcases hparen with rfl | rfl <;> decide)]
      rcases hparen with rfl | rfl
      · rfl
      · rfl
    · rw [not_or] at hparen
      have hdeepen : bracketAfter depth c = deepen depth c := by
        simp [bracketAfter, deepen, opens, closes, hparen]
      rw [List.filter_cons_of_pos (by simpa using hparen), depthAfter_cons, hdeepen]

theorem unbracketed_iff {before : List Char} :
    Unbracketed before ↔ before.foldl bracketAfter 0 = 0 := by
  rw [foldl_bracketAfter, depthAfter_eq_zero_iff]
  exact Iff.rfl

instance (before : List Char) : Decidable (Unbracketed before) :=
  decidable_of_iff _ unbracketed_iff.symm

theorem bracketAfter_of_isBlank {c : Char} (hc : isBlank c = true) (depth : Nat) :
    bracketAfter depth c = depth := by
  have hne {d : Char} (hd : isBlank d = false) : (c == d) = false := by
    refine beq_false_of_ne ?_
    rintro rfl
    rw [hc] at hd
    cases hd
  unfold bracketAfter
  rw [hne (by decide), hne (by decide)]
  rfl

/-! ### What is left of a selector -/

/-- The brackets of what is kept are open where the reader had them open. -/
theorem not_bare_stripFrom (depth : Nat) (cs : List Char) :
    ¬ Bare bracketAfter (· == ':') depth (stripFrom depth cs) := by
  induction hn : cs.length using Nat.strong_induction_on generalizing depth cs with
  | h n ih =>
    subst hn
    cases cs with
    | nil =>
      rw [stripFrom]
      exact not_bare_nil
    | cons c cs =>
      rw [stripFrom_cons]
      split
      · next hcolon =>
        rw [hcolon.2]
        exact ih _ (Nat.lt_succ_of_le (length_afterPseudo cs)) 0 _ rfl
      · next hkept =>
        rw [bare_cons, not_or]
        refine ⟨?_, ih _ (Nat.lt_succ_self cs.length) _ _ rfl⟩
        intro h
        exact hkept ⟨eq_of_beq h.1, h.2⟩

/-- Collapsing takes away what counts for nothing. -/
theorem bare_of_bare_collapse {depth : Nat} {cs : List Char}
    (h : Bare bracketAfter (· == ':') depth (collapse cs)) :
    Bare bracketAfter (· == ':') depth cs := by
  have hspace (d : Nat) (ds : List Char) (h : Bare bracketAfter (· == ':') d (' ' :: ds)) :
      Bare bracketAfter (· == ':') d ds :=
    (bare_cons.1 h).resolve_left (by simp)
  induction cs generalizing depth with
  | nil => exact h
  | cons c cs ih =>
    rw [bare_cons]
    cases hc : isBlank c with
    | true =>
      rw [collapse_blank hc] at h
      rw [bracketAfter_of_isBlank hc]
      exact .inr (ih h)
    | false =>
      rcases collapse_cons hc cs with heq | ⟨-, heq⟩
      · rw [heq, bare_cons] at h
        exact h.imp_right ih
      · rw [heq, bare_cons] at h
        exact h.imp_right fun h => ih (hspace _ _ h)

/-- No colon outside square brackets is left. -/
theorem not_bare_stripPseudo (s : List Char) :
    ¬ Bare bracketAfter (· == ':') 0 (stripPseudo s) :=
  fun h => not_bare_stripFrom 0 s (bare_of_bare_collapse h)

/-! ### What stands behind a stripped selector -/

/-- A text without colons outside square brackets is kept, whatever follows it. -/
theorem stripFrom_append {depth : Nat} {cs : List Char}
    (h : ¬ Bare bracketAfter (· == ':') depth cs) (rest : List Char) :
    stripFrom depth (cs ++ rest) = cs ++ stripFrom (cs.foldl bracketAfter depth) rest := by
  induction cs generalizing depth with
  | nil => rfl
  | cons c cs ih =>
    rw [bare_cons, not_or] at h
    rw [List.cons_append, stripFrom_cons, if_neg (by simpa using h.1), ih h.2]
    rfl

theorem stripFrom_pseudo {name : List Char} (hname : ∀ c ∈ name, isNameChar c = true) :
    stripFrom 0 (':' :: name) = [] := by
  have hcolon : ∀ rest, name ≠ ':' :: rest := by
    rintro rest rfl
    exact absurd (hname ':' List.mem_cons_self) (by decide)
  have hafter : afterPseudo name = [] := by
    unfold afterPseudo
    split
    · next rest => exact absurd rfl (hcolon rest)
    · dsimp only
      rw [List.dropWhile_eq_nil_iff.2 hname]
  rw [stripFrom_cons, if_pos ⟨rfl, rfl⟩, hafter, stripFrom]

/-- A pseudo-class behind a stripped selector is stripped alone. -/
theorem stripPseudo_append_pseudo {s name : List Char} (h : Unbracketed (stripPseudo s))
    (hname : ∀ c ∈ name, isNameChar c = true) :
    stripPseudo (stripPseudo s ++ ':' :: name) = stripPseudo s := by
  rw [stripPseudo, stripFrom_append (not_bare_stripPseudo s), unbracketed_iff.1 h,
    stripFrom_pseudo hname, List.append_nil]
  exact collapse_collapse _

theorem stripPseudo_stripPseudo (s : List Char) : stripPseudo (stripPseudo s) = stripPseudo s := by
  rw [stripPseudo, stripFrom_of_not_bare (not_bare_stripPseudo s)]
  exact collapse_collapse _

end Selector

/-! ### Focus styles of a base -/

namespace Focus

open Selector

/-- What is reported of a missing style names the base. -/
theorem base_eq_of_missingStyle_eq {s : Sheet} {r r' : Rule}
    (h : missingStyle s r = missingStyle s r') : base r.selector = base r'.selector := by
  have hsample := Option.some.inj (congrArg Issue.sample h)
  injection hsample with hbefore
  exact String.ofList_injective ((String.append_left_inj _).1 hbefore)

/-- No style is missing for a base that has a rule with the text of a pseudo-class for the focus. -/
theorem missingStyle_not_mem {s : Sheet} {r r' : Rule} (hr : r ∈ s.rules)
    (hfocus : hasFocusPseudo r.selector = true) (hbase : base r.selector = base r'.selector) :
    missingStyle s r' ∉ missing s := by
  intro hmem
  rw [missing_eq, List.mem_filterMap] at hmem
  obtain ⟨first, -, hfirst⟩ := hmem
  split at hfirst
  · next hbare =>
    have hnot := (and_not_contains_iff.1 hbare).2
    rw [base_eq_of_missingStyle_eq (Option.some.inj hfirst), ← hbase] at hnot
    exact hnot (mem_styledBases.2 ⟨r, hr, hfocus, rfl⟩)
  · cases hfirst

end Focus

namespace Selector

/-- A pseudo-class for the focus is a colon with a name, and has the text of the shortest. -/
theorem focusPseudo_eq : ∀ p ∈ [":focus", ":focus-visible", ":focus-within"],
    p.toList = ':' :: p.toList.tail ∧ (∀ c ∈ p.toList.tail, isNameChar c = true) ∧
      ":focus".toList <:+: p.toList := by
  intro p hp
  simp only [List.mem_cons, List.not_mem_nil, or_false] at hp
  rcases hp with rfl | rfl | rfl
  · exact ⟨rfl, List.all_eq_true.1 rfl, by decide⟩
  · exact ⟨rfl, List.all_eq_true.1 rfl, by decide⟩
  · exact ⟨rfl, List.all_eq_true.1 rfl, by decide⟩

/-- Stripping takes arguments off without a fault, leaves no colon outside square brackets and
nothing to strip a second time.  Where what is left ends outside square brackets, a pseudo-class for
the focus behind it is stripped alone; so with a rule for that selector, which the finding proposes,
no style is missing for the base any more. -/
theorem stripPseudo_projects (s : List Char) :
    Offsets.stripPseudo s = .ok (stripPseudo s) ∧
      (∀ before after, stripPseudo s = before ++ ':' :: after → ¬ Unbracketed before) ∧
      stripPseudo (stripPseudo s) = stripPseudo s ∧
      (Unbracketed (stripPseudo s) → ∀ p ∈ [":focus", ":focus-visible", ":focus-within"],
        stripPseudo (stripPseudo s ++ p.toList) = stripPseudo s ∧
        ∀ sheet : Sheet, ∀ r ∈ sheet.rules, r.selector.toList = stripPseudo s ++ p.toList →
          ∀ r' ∈ sheet.rules, Focus.base r'.selector = stripPseudo s →
            Focus.missingStyle sheet r' ∉ Focus.missing sheet) := by
  refine ⟨Offsets.stripPseudo_eq s, ?_, stripPseudo_stripPseudo s, ?_⟩
  · intro before after heq hbefore
    exact not_bare_stripPseudo s ⟨before, ':', after, heq, rfl, unbracketed_iff.1 hbefore⟩
  · intro houtside p hp
    obtain ⟨hname, hchars, hinfix⟩ := focusPseudo_eq p hp
    have habsorb : stripPseudo (stripPseudo s ++ p.toList) = stripPseudo s := by
      rw [hname]
      exact stripPseudo_append_pseudo houtside hchars
    refine ⟨habsorb, ?_⟩
    intro sheet r hr hselector r' _ hbase
    have hstyles : Focus.hasFocusPseudo r.selector = true := by
      rw [Focus.hasFocusPseudo_iff, hselector]
      exact hinfix.trans (List.suffix_append _ _).isInfix
    refine Focus.missingStyle_not_mem hr hstyles ?_
    rw [hbase, Focus.base, hselector, habsorb]

/-- A colon in a quoted attribute is kept, a bracket among arguments is not, and the rule that the
finding proposes settles it. -/
theorem stripPseudo_projects_button :
    ∃ sheet : Sheet,
      sheet.rules.map (·.selector) =
        ["button[title=\":\"]:not(.b[x):hover", "button[title=\":\"]:focus-visible"] ∧
      stripPseudo "button[title=\":\"]:not(.b[x):hover".toList = "button[title=\":\"]".toList ∧
      Unbracketed "button[title=\":\"]".toList ∧
      stripPseudo "button[title=\":\"]:focus-visible".toList = "button[title=\":\"]".toList ∧
      ∀ r ∈ sheet.rules, Focus.missingStyle sheet r ∉ Focus.missing sheet := by
  let plain : Rule := ⟨"button[title=\":\"]:not(.b[x):hover", [], none, ⟨1, 1⟩⟩
  let focused : Rule := ⟨"button[title=\":\"]:focus-visible", [], none, ⟨2, 1⟩⟩
  let sheet : Sheet := { path := "a.css", rules := [plain, focused] }
  have hstrip : stripPseudo plain.selector.toList = "button[title=\":\"]".toList := by
    decide +kernel
  have hends : Unbracketed "button[title=\":\"]".toList := by decide
  have habsorb := (stripPseudo_projects plain.selector.toList).2.2.2
  rw [hstrip] at habsorb
  obtain ⟨hfocused, hsettled⟩ := habsorb hends ":focus-visible" (by decide)
  have hselector : focused.selector.toList =
      "button[title=\":\"]".toList ++ ":focus-visible".toList := by decide
  have hsheet := hsettled sheet focused (by simp [sheet]) hselector
  rw [← hselector] at hfocused
  refine ⟨sheet, rfl, hstrip, hends, hfocused, ?_⟩
  intro r hr
  refine hsheet r hr ?_
  simp only [sheet, List.mem_cons, List.not_mem_nil, or_false] at hr
  rcases hr with rfl | rfl
  · exact hstrip
  · exact hfocused

end Selector
end SheetAudit
