import Mathlib
import SheetAudit.Proofs.Findings
import SheetAudit.Proofs.Placement

/-!
# Every declaration is judged once

A declaration is copied into every rule that its block makes: one for each selector of a list and
each selector around it.  The rules that judge declarations by themselves undo this by looking at
the places of the declarations alone.  That is enough, because no two declarations of a source
share a place.

## Main definitions

* `DeclarationRule` — the rules that judge every declaration by itself.
* `DeclarationRule.objects` — what a rule objects to: its properties and what they carry.
* `DeclarationRule.judge` — the issue that a rule makes of a declaration.

## Main results

* `declaration_eq_of_pos_eq` — two declarations in one place are the same.
* `filter_run` — the findings of a rule are what it makes of each declaration once.
* `judged_once` — **every declaration that a rule objects to is reported, and reported once.**
-/

namespace SheetAudit

open Source Text

/-! ### Places of declarations -/

/-- Two declarations in one place are the same. -/
theorem declaration_eq_of_pos_eq {path source : String} {s : Sheet}
    (h : Sheet.parse path source = .ok s) {r r' : Rule} (hr : r ∈ s.rules) (hr' : r' ∈ s.rules)
    {d d' : Declaration} (hd : d ∈ r.declarations) (hd' : d' ∈ r'.declarations)
    (hpos : d.pos = d'.pos) : d = d' := by
  obtain ⟨nodes, hnodes, rfl⟩ := parse_eq_ok h
  obtain ⟨xs, hxs, hreads⟩ := readTree_eq_ok hnodes
  have hnodup := (hreads.pairwise_places hxs {}).imp Pos.Before.ne
  have hdisjoint := (List.nodup_flatMap.1 hnodup).2
  -- a declaration has its place from the statement it is read from
  have hplace : ∀ {r : Rule} {d : Declaration}, r ∈ Node.rulesIn {} nodes → d ∈ r.declarations →
      ∃ p ∈ Node.walkIn {} nodes, d.pos ∈ Node.places p ∧
        ∃ text, p.2 = .statement text ∧ ownDeclaration? text = some d := by
    intro r d hr hd
    obtain ⟨scope, text, hn, hdt⟩ := mem_walkIn_of_declaration hr hd
    obtain ⟨name, value, hread, -⟩ := ownDeclaration?_eq_some hdt
    obtain ⟨x, word, hin, -, hx, hblank⟩ := readDeclaration?_infix hread
    exact ⟨_, hn, hx ▸ Node.mem_places hin (hblank x List.mem_cons_self), text, rfl, hdt⟩
  obtain ⟨p, hp, hpp, text, htext, hdt⟩ := hplace hr hd
  obtain ⟨q, hq, hqq, text', htext', hdt'⟩ := hplace hr' hd'
  by_cases hpq : p = q
  · -- a statement makes one declaration
    subst hpq
    obtain rfl : text = text' := by simpa [htext] using htext'
    exact Option.some.inj (hdt.symm.trans hdt')
  · -- different nodes have no place in common
    have hsymm : Std.Symm (Function.onFun List.Disjoint Node.places) :=
      ⟨fun _ _ hd _ hx hy => hd hy hx⟩
    have hpq := hdisjoint.forall hp hq hpq
    exact absurd (hpos ▸ hqq) (hpq hpp)

/-! ### Rules on declarations -/

/-- The rules that judge every declaration by itself. -/
inductive DeclarationRule where
  | color
  | spacing
  | typeSize
  | radius
  | duration
  | easing
  | important
  | vendorPrefix
  deriving DecidableEq

namespace DeclarationRule

def id : DeclarationRule → String
  | color => "color/hardcoded-color"
  | spacing => "spacing/hardcoded-spacing"
  | typeSize => "spacing/hardcoded-font-size"
  | radius => "spacing/hardcoded-radius"
  | duration => "animation/hardcoded-duration"
  | easing => "animation/hardcoded-easing"
  | important => "quality/important"
  | vendorPrefix => "quality/vendor-prefix"

/-- What a rule objects to: a property of its table whose value holds what the rule looks for. -/
def objects : DeclarationRule → Declaration → Bool
  | color, d => Property.listed Property.colored d.name && !(Value.colors d.value.toList).isEmpty
  | spacing, d => Property.listed Property.spacing d.name && !(Value.lengths d.value.toList).isEmpty
  | typeSize, d =>
    (d.name == "font-size" && !(Value.lengths d.value.toList).isEmpty) ||
      (d.name == "line-height" && !(Value.numbers d.value.toList).isEmpty)
  | radius, d =>
    Property.listed Property.radius d.name &&
      (Value.lengths d.value.toList).any fun l => !Property.radiusShapes.contains l
  | duration, d => Motion.takesDuration d.name && !(Value.times d.value.toList).isEmpty
  | easing, d => Motion.takesEasing d.name && !(Value.easings d.value.toList).isEmpty
  | important, d => d.isImportant
  | vendorPrefix, d => Property.listed Property.vendorPrefixed d.name

/-- The issue that a rule makes of a declaration. -/
def judge : DeclarationRule → Sheet → Rule → Declaration → Option Issue
  | color, s, r, d => Theming.hardcodedColor s r d
  | spacing, s, _, d => Spacing.hardcodedSpacing s d
  | typeSize, s, _, d => Spacing.hardcodedType s d
  | radius, s, _, d => Spacing.hardcodedRadius s d
  | duration, s, _, d => Motion.hardcodedDuration s d
  | easing, s, _, d => Motion.hardcodedEasing s d
  | important, s, _, d => Quality.important s d
  | vendorPrefix, s, _, d => Quality.vendorPrefix s d

theorem id_injective {rule rule' : DeclarationRule} (h : rule.id = rule'.id) : rule = rule' := by
  revert h
  cases rule <;> cases rule' <;> decide

/-- An issue names its rule and stands where the declaration stands. -/
theorem judge_eq_some {rule : DeclarationRule} {s : Sheet} {r : Rule} {d : Declaration}
    {i : Issue} (h : rule.judge s r d = some i) :
    i.rule = rule.id ∧ i.location = s.locate d.pos := by
  cases rule with
  | color =>
    rw [judge, Theming.hardcodedColor] at h
    split at h
    · simp at h
    · obtain rfl := Option.some.inj h
      exact ⟨rfl, rfl⟩
  | spacing | typeSize | radius | duration | easing | important | vendorPrefix =>
    simp only [judge, Spacing.hardcodedSpacing, Spacing.hardcodedType, Spacing.hardcodedRadius,
      Motion.hardcodedDuration, Motion.hardcodedEasing, Quality.important, Quality.vendorPrefix,
      Option.ite_none_left_eq_some] at h
    obtain rfl := Option.some.inj h.2
    exact ⟨rfl, rfl⟩

/-! ### Disjoint tables -/

/-- Type sizes are no spacing. -/
theorem isTypeSize_eq (d : Declaration) :
    Spacing.isTypeSize d = (d.name == "font-size" || d.name == "line-height") := by
  rw [Spacing.isTypeSize, Spacing.isSpacing]
  by_cases hf : d.name = "font-size"
  · rw [hf]
    decide
  by_cases hl : d.name = "line-height"
  · rw [hl]
    decide
  · simp [hf, hl]

/-- Radii are neither spacing nor type sizes. -/
theorem isRadius_eq (d : Declaration) :
    Spacing.isRadius d = Property.listed Property.radius d.name := by
  have hdisjoint : ∀ name ∈ Property.radius, name ∉ Property.spacing := by decide
  rw [Spacing.isRadius, isTypeSize_eq, Spacing.isSpacing]
  cases hr : Property.listed Property.radius d.name with
  | false => rw [Bool.and_false]
  | true =>
    have hmem : asciiLower d.name ∈ Property.radius := by simpa [Property.listed] using hr
    have hs : Property.listed Property.spacing d.name = false := by
      simpa [Property.listed] using hdisjoint _ hmem
    have hf : d.name ≠ "font-size" := by
      intro hf
      rw [hf] at hr
      revert hr
      decide
    have hl : d.name ≠ "line-height" := by
      intro hl
      rw [hl] at hr
      revert hr
      decide
    simp [hs, hf, hl]

/-- A rule makes an issue of just what it objects to. -/
theorem isSome_judge (rule : DeclarationRule) (s : Sheet) (r : Rule) (d : Declaration) :
    (rule.judge s r d).isSome = rule.objects d := by
  have hite {b : Bool} {i : Issue} : (if b then none else some i).isSome = !b := by
    cases b <;> rfl
  cases rule with
  | color =>
    rw [judge, objects, Theming.hardcodedColor, Theming.literalColors]
    cases Property.listed Property.colored d.name with
    | false => rfl
    | true => cases Value.colors d.value.toList <;> rfl
  | spacing =>
    rw [judge, objects, Spacing.hardcodedSpacing]
    dsimp only
    rw [hite, Spacing.spacingLiterals, Spacing.isSpacing]
    cases Property.listed Property.spacing d.name <;> rfl
  | typeSize =>
    rw [judge, objects, Spacing.hardcodedType]
    rw [hite, Spacing.typeLiterals, isTypeSize_eq]
    by_cases hf : d.name = "font-size"
    · simp [hf]
    by_cases hl : d.name = "line-height"
    · simp [hl]
    · simp [hf, hl]
  | radius =>
    rw [judge, objects, Spacing.hardcodedRadius]
    rw [hite, Spacing.radiusLiterals, isRadius_eq]
    cases Property.listed Property.radius d.name with
    | false => rfl
    | true =>
      rw [if_pos rfl, Bool.true_and, Bool.eq_iff_iff]
      simp
  | duration =>
    rw [judge, objects, Motion.hardcodedDuration]
    rw [hite, Motion.timeLiterals]
    cases Motion.takesDuration d.name <;> rfl
  | easing =>
    rw [judge, objects, Motion.hardcodedEasing]
    rw [hite, Motion.easingLiterals]
    cases Motion.takesEasing d.name <;> rfl
  | important => rw [judge, objects, Quality.important, hite, Bool.not_not]
  | vendorPrefix =>
    rw [judge, objects, Quality.vendorPrefix]
    rw [hite, Bool.not_not]

/-! ### All findings of a rule -/

/-- What several rules make of the declarations of a style sheet, each looked at once. -/
def judgements (rules : List DeclarationRule) (s : Sheet) : List Issue :=
  s.declarations.flatMap fun p => rules.filterMap fun rule => rule.judge s p.1 p.2

theorem hardcoded_eq (s : Sheet) : Theming.hardcoded s = judgements [.color] s := by
  rw [Theming.hardcoded, judgements, List.filterMap_eq_flatMap_toList]
  congr 1

theorem spacing_eq (s : Sheet) :
    Spacing.check s = judgements [.spacing, .typeSize, .radius] s := by
  rw [Spacing.check, judgements]
  congr 1
  funext p
  simp only [Spacing.declarationIssues, List.filterMap_cons, List.filterMap_nil, judge]
  cases Spacing.hardcodedSpacing s p.2 <;> cases Spacing.hardcodedType s p.2 <;>
    cases Spacing.hardcodedRadius s p.2 <;> rfl

theorem literals_eq (s : Sheet) : Motion.literals s = judgements [.duration, .easing] s := by
  rw [Motion.literals, judgements]
  congr 1
  funext p
  simp only [List.filterMap_cons, List.filterMap_nil, judge]
  cases Motion.hardcodedDuration s p.2 <;> cases Motion.hardcodedEasing s p.2 <;> rfl

theorem flags_eq (s : Sheet) : Quality.flags s = judgements [.important, .vendorPrefix] s := by
  rw [Quality.flags, judgements]
  congr 1
  funext p
  simp only [List.filterMap_cons, List.filterMap_nil, judge]
  cases Quality.important s p.2 <;> cases Quality.vendorPrefix s p.2 <;> rfl

/-- The findings of one rule. -/
def findings (rule : DeclarationRule) (issues : List Issue) : List Issue :=
  issues.filter fun i => i.rule == rule.id

theorem findings_append (rule : DeclarationRule) (issues issues' : List Issue) :
    rule.findings (issues ++ issues') = rule.findings issues ++ rule.findings issues' :=
  List.filter_append ..

/-- Other families report nothing under the name of a rule. -/
theorem findings_eq_nil {rule : DeclarationRule} {issues : List Issue} {names : List String}
    {s : Sheet} (source : Option String) (h : ∀ i ∈ issues, i.Reports names s source)
    (hn : ∀ rule : DeclarationRule, rule.id ∉ names) : rule.findings issues = [] := by
  rw [findings, List.filter_eq_nil_iff]
  intro i hi heq
  exact hn rule (eq_of_beq heq ▸ (h i hi).rule_mem)

/-- Of what several rules make of a declaration one part comes from each rule. -/
theorem findings_filterMap (rule : DeclarationRule) {rules : List DeclarationRule}
    (hn : rules.Nodup) (s : Sheet) (r : Rule) (d : Declaration) :
    rule.findings (rules.filterMap fun other => other.judge s r d) =
      if rule ∈ rules then (rule.judge s r d).toList else [] := by
  induction rules with
  | nil => rfl
  | cons other rules ih =>
    obtain ⟨hnot, hn⟩ := List.nodup_cons.1 hn
    have ih := ih hn
    have hcons : (other :: rules).filterMap (fun other => other.judge s r d) =
        (other.judge s r d).toList ++ rules.filterMap fun other => other.judge s r d := by
      rw [List.filterMap_cons]
      cases other.judge s r d <;> rfl
    rw [hcons, findings_append, ih]
    by_cases heq : rule = other
    · subst heq
      have hself : rule.findings (rule.judge s r d).toList = (rule.judge s r d).toList := by
        rw [findings, List.filter_eq_self]
        intro i hi
        rw [(judge_eq_some (Option.mem_toList.1 hi)).1]
        exact beq_self_eq_true _
      rw [hself, if_neg hnot, if_pos List.mem_cons_self, List.append_nil]
    · -- the other rule reports under its own name
      have hother : rule.findings (other.judge s r d).toList = [] := by
        rw [findings, List.filter_eq_nil_iff]
        intro i hi hid
        rw [(judge_eq_some (Option.mem_toList.1 hi)).1, beq_iff_eq] at hid
        exact heq (id_injective hid.symm)
      rw [hother, List.nil_append]
      simp [heq]

theorem findings_judgements (rule : DeclarationRule) {rules : List DeclarationRule}
    (hn : rules.Nodup) (s : Sheet) :
    rule.findings (judgements rules s) =
      if rule ∈ rules then s.declarations.filterMap (fun p => rule.judge s p.1 p.2) else [] := by
  rw [findings, judgements, List.filter_flatMap]
  have hone (p : Rule × Declaration) := findings_filterMap rule hn s p.1 p.2
  simp only [findings] at hone
  simp only [hone]
  split
  · rw [List.filterMap_eq_flatMap_toList]
  · rw [List.flatMap_eq_nil_iff]
    intro p _
    rfl

/-- An issue that a rule makes of a declaration reports that rule. -/
theorem reports_of_judgements {rules : List DeclarationRule} {s : Sheet} {i : Issue}
    (h : i ∈ judgements rules s) (source : Option String) :
    i.Reports (rules.map id) s source := by
  obtain ⟨p, hp, h⟩ := List.mem_flatMap.1 h
  obtain ⟨rule, hrule, h⟩ := List.mem_filterMap.1 h
  obtain ⟨hid, hlocation⟩ := judge_eq_some h
  obtain ⟨hr, hd⟩ := Sheet.mem_declarations hp
  exact ⟨hid ▸ List.mem_map_of_mem hrule, _, .declaration hr hd, hlocation⟩

/-- **The findings of a rule in a whole audit are what it makes of each declaration once.** -/
theorem findings_run (rule : DeclarationRule) (settings : Settings) (s : Sheet)
    (source : Option String) :
    rule.findings (Checker.run (Checker.standard settings) s source) =
      s.declarations.filterMap fun p => rule.judge s p.1 p.2 := by
  have hnaming : rule.findings (Naming.check settings.naming s) = [] :=
    findings_eq_nil source (fun _ => Naming.reports) (by rintro ⟨⟩ <;> decide)
  have hcontrast : rule.findings (Theming.lowContrast settings.color s) = [] :=
    findings_eq_nil source (fun _ => Theming.reports_of_contrast) (by rintro ⟨⟩ <;> decide)
  have hdark : rule.findings (Theming.darkMode s) = [] :=
    findings_eq_nil source (fun _ => Theming.reports_of_dark) (by rintro ⟨⟩ <;> decide)
  have hkeyframes : rule.findings (s.keyframes.filterMap (Motion.misspelledKeyframes s)) = [] :=
    findings_eq_nil source (fun _ => Motion.reports_of_keyframes) (by rintro ⟨⟩ <;> decide)
  have hreduced : rule.findings (Motion.reducedMotion s) = [] :=
    findings_eq_nil source (fun _ => Motion.reports_of_reduced) (by rintro ⟨⟩ <;> decide)
  have hfocus : rule.findings (Focus.check s) = [] :=
    findings_eq_nil source (fun _ => Focus.reports) (by rintro ⟨⟩ <;> decide)
  have hresponsive : rule.findings (Responsive.check settings.responsive s) = [] :=
    findings_eq_nil source (fun _ => Responsive.reports) (by rintro ⟨⟩ <;> decide)
  have hlayout : rule.findings (Layout.check s source) = [] :=
    findings_eq_nil source (fun _ => Layout.reports) (by rintro ⟨⟩ <;> decide)
  have hheavy : rule.findings (Quality.heavyUtilities settings.quality s) = [] :=
    findings_eq_nil source (fun _ => Quality.reports_of_heavyUtilities) (by rintro ⟨⟩ <;> decide)
  have hselectors : rule.findings (Quality.selectors settings.quality s) = [] :=
    findings_eq_nil source (fun _ => Quality.reports_of_selectors) (by rintro ⟨⟩ <;> decide)
  have hduplicates : rule.findings (Quality.duplicates s) = [] :=
    findings_eq_nil source (fun _ => Quality.reports_of_duplicates) (by rintro ⟨⟩ <;> decide)
  have hcomments :
      rule.findings (source.elim [] (Documentation.check settings.comments s)) = [] := by
    cases source with
    | none => rfl
    | some text =>
      exact findings_eq_nil (some text) (fun _ => Documentation.reports) (by rintro ⟨⟩ <;> decide)
  rw [Checker.run_standard]
  simp only [Theming.check, Motion.check, Quality.check, hardcoded_eq, spacing_eq, literals_eq,
    flags_eq, findings_append, hnaming, hcontrast, hdark, hkeyframes, hreduced, hfocus,
    hresponsive, hlayout, hheavy, hselectors, hduplicates, hcomments, List.append_nil,
    List.nil_append]
  -- each rule is found in one of the four remaining places
  rw [findings_judgements rule (by decide), findings_judgements rule (by decide),
    findings_judgements rule (by decide), findings_judgements rule (by decide)]
  cases rule <;> simp

/-- The places of the findings are those of the declarations that the rule objects to. -/
theorem map_location_judge (rule : DeclarationRule) (s : Sheet) (ps : List (Rule × Declaration)) :
    (ps.filterMap fun p => rule.judge s p.1 p.2).map Issue.location =
      ((ps.filter fun p => rule.objects p.2).map fun p => p.2.pos).map s.locate := by
  induction ps with
  | nil => rfl
  | cons p ps ih =>
    have hsome := rule.isSome_judge s p.1 p.2
    rw [List.filterMap_cons, List.filter_cons, ← hsome]
    cases hj : rule.judge s p.1 p.2 with
    | none => exact ih
    | some i =>
      rw [List.map_cons, ih, (judge_eq_some hj).2]
      rfl

end DeclarationRule

/-! ### Every declaration once -/

/-- The place of every declaration is that of one that is looked at. -/
theorem Sheet.exists_mem_declarations {s : Sheet} {r : Rule} {d : Declaration} (hr : r ∈ s.rules)
    (hd : d ∈ r.declarations) : ∃ p ∈ s.declarations, p.2.pos = d.pos :=
  Repeats.exists_mem_firsts (fun p : Rule × Declaration => p.2.pos) (x := (r, d))
    (List.mem_flatMap.2 ⟨r, hr, List.mem_map_of_mem hd⟩)

theorem Sheet.nodup_pos_declarations (s : Sheet) : (s.declarations.map fun p => p.2.pos).Nodup :=
  Repeats.nodup_map_firsts (fun p : Rule × Declaration => p.2.pos) _

/-- **Every declaration that a rule objects to is reported, and reported once.**  The findings of
the rule stand in different places, which are those of the declarations it objects to, in
whatever rules and however many of them these are found. -/
theorem judged_once {path source : String} {s : Sheet} (h : Sheet.parse path source = .ok s)
    (settings : Settings) (text : Option String) (rule : DeclarationRule) :
    let places := (rule.findings (Checker.run (Checker.standard settings) s text)).map
      Issue.location
    places.Nodup ∧
      ∀ l, l ∈ places ↔
        ∃ r ∈ s.rules, ∃ d ∈ r.declarations, rule.objects d = true ∧ l = s.locate d.pos := by
  have hplaces : (rule.findings (Checker.run (Checker.standard settings) s text)).map
      Issue.location =
      ((s.declarations.filter fun p => rule.objects p.2).map fun p => p.2.pos).map s.locate := by
    rw [rule.findings_run settings s text, rule.map_location_judge]
  dsimp only
  rw [hplaces]
  refine ⟨?_, fun l => ?_⟩
  · -- the places that are looked at are different already
    have hinjective : Function.Injective s.locate := fun p q hpq => congrArg Location.pos hpq
    have hsub := (List.filter_sublist (p := fun p : Rule × Declaration => rule.objects p.2)
      (l := s.declarations)).map fun p => p.2.pos
    exact (hsub.nodup s.nodup_pos_declarations).map hinjective
  · simp only [List.mem_map, List.mem_filter]
    constructor
    · rintro ⟨pos, ⟨p, ⟨hp, hobjects⟩, rfl⟩, rfl⟩
      obtain ⟨hr, hd⟩ := Sheet.mem_declarations hp
      exact ⟨p.1, hr, p.2, hd, hobjects, rfl⟩
    · rintro ⟨r, hr, d, hd, hobjects, rfl⟩
      -- what is looked at in the place of the declaration is the declaration
      obtain ⟨q, hq, hpos⟩ := Sheet.exists_mem_declarations hr hd
      obtain ⟨hqr, hqd⟩ := Sheet.mem_declarations hq
      have heq : q.2 = d := declaration_eq_of_pos_eq h hqr hr hqd hd hpos
      exact ⟨d.pos, ⟨q, ⟨hq, heq ▸ hobjects⟩, hpos⟩, rfl⟩

/-- Two selectors share a declaration, which is reported once. -/
theorem judged_once_of_two : ∃ s, Sheet.parse "a.css" "a,b\x7bc:d!important\x7d" = .ok s ∧
    (s.rules.map fun r => r.declarations.map fun d =>
      (d.pos, DeclarationRule.important.objects d)) = [[(⟨1, 5⟩, true)], [(⟨1, 5⟩, true)]] ∧
    let places := (DeclarationRule.important.findings
      (Checker.run (Checker.standard {}) s (some "a,b\x7bc:d!important\x7d"))).map Issue.location
    places.Nodup ∧ ∀ l, l ∈ places ↔ ∃ r ∈ s.rules, ∃ d ∈ r.declarations,
      DeclarationRule.important.objects d = true ∧ l = s.locate d.pos := by
  have hrules : (Sheet.parse "a.css" "a,b\x7bc:d!important\x7d").toOption.map
      (fun s => s.rules.map fun r => r.declarations.map fun d =>
        (d.pos, DeclarationRule.important.objects d)) =
      some [[(⟨1, 5⟩, true)], [(⟨1, 5⟩, true)]] := by
    cbv
  cases hs : Sheet.parse "a.css" "a,b\x7bc:d!important\x7d" with
  | error e =>
    rw [hs] at hrules
    simp [Except.toOption] at hrules
  | ok s =>
    rw [hs] at hrules
    exact ⟨s, rfl, Option.some.inj hrules,
      judged_once hs {} (some "a,b\x7bc:d!important\x7d") .important⟩

end SheetAudit
