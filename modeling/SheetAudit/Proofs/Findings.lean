import SheetAudit.Proofs.Firsts
import SheetAudit.Rules.Checker

/-!
# What each family of rules reports

Every part of a checker reports the rules of its own family and no others, so that the findings of
one rule can be looked for in one place.  And it reports them at the places of what it looks at:
no rule makes up a position.

## Main definitions

* `FindingPlace` — where the findings on a style sheet may lie.
* `Issue.Reports` — an issue under one of some rules, at such a place.
* `Naming.ruleNames`, `Theming.ruleNames`, … — the rules that each part of a checker reports.

## Main results

* `Naming.reports`, `Theming.reports_of_dark`, … — an issue that the part finds reports one of
  these.
-/

namespace SheetAudit

open Source

/-! ### Places of findings -/

/-- Where the findings on a style sheet may lie, given its source text if there is one. -/
inductive FindingPlace (s : Sheet) (source : Option String) : Pos → Prop where
  /-- Findings about the whole sheet. -/
  | start : FindingPlace s source .start
  /-- The line on which a comment opens. -/
  | comment {text : String} {c : Comment} (given : source = some text)
      (mem : c ∈ comments text.toList) : FindingPlace s source ⟨c.line, 1⟩
  | customProperty {v : Variable} (mem : v ∈ s.customProperties) : FindingPlace s source v.pos
  | rule {r : Rule} (mem : r ∈ s.rules) : FindingPlace s source r.pos
  | declaration {r : Rule} {d : Declaration} (mem : r ∈ s.rules) (mem' : d ∈ r.declarations) :
      FindingPlace s source d.pos
  | class {c : StyledClass} (mem : c ∈ s.classes) : FindingPlace s source c.pos
  | ofClass {c : StyledClass} {d : Declaration} (mem : c ∈ s.classes)
      (mem' : d ∈ c.declarations) : FindingPlace s source d.pos
  | mediaQuery {m : MediaQuery} (mem : m ∈ s.mediaQueries) : FindingPlace s source m.pos
  | keyframes {k : Keyframes} (mem : k ∈ s.keyframes) : FindingPlace s source k.pos

/-- An issue under one of the given rules, at a place of the sheet. -/
structure Issue.Reports (rules : List String) (s : Sheet) (source : Option String) (i : Issue) :
    Prop where
  rule_mem : i.rule ∈ rules
  place : ∃ p, FindingPlace s source p ∧ i.location = s.locate p

theorem Sheet.mem_declarations {s : Sheet} {p : Rule × Declaration} (h : p ∈ s.declarations) :
    p.1 ∈ s.rules ∧ p.2 ∈ p.1.declarations := by
  obtain ⟨r, hr, hp⟩ := List.mem_flatMap.1 ((Repeats.firsts_sublist _ _).subset h)
  obtain ⟨d, hd, rfl⟩ := List.mem_map.1 hp
  exact ⟨hr, hd⟩

variable {s : Sheet} {source : Option String} {i : Issue}

/-! ### Naming -/

namespace Naming

def ruleNames : List String :=
  ["naming/non-canonical-variable", "naming/literal-color-name", "naming/category-prefix",
    "naming/duplicate-variable", "naming/non-canonical-class", "naming/utility-prefix"]

theorem reports_of_variable {settings : NamingSettings} {v : Variable}
    (hv : v ∈ s.customProperties) (h : i ∈ variableIssues settings s v) :
    i.Reports ruleNames s source := by
  have hplace : ∃ p, FindingPlace s source p ∧ s.locate v.pos = s.locate p :=
    ⟨_, .customProperty hv, rfl⟩
  simp only [variableIssues, List.mem_append, Option.mem_toList] at h
  rcases h with (h | h) | h
  · simp only [misspelled, Option.ite_none_left_eq_some] at h
    obtain ⟨-, h⟩ := h
    obtain rfl := Option.some.inj h
    exact ⟨by simp [ruleNames], hplace⟩
  · simp only [namedByLook, Option.ite_none_left_eq_some, Option.map_eq_some_iff] at h
    obtain ⟨-, word, -, rfl⟩ := h
    exact ⟨by simp [ruleNames], hplace⟩
  · rw [unprefixed] at h
    split at h
    · simp at h
    · simp only [Option.ite_none_left_eq_some] at h
      obtain ⟨-, h⟩ := h
      obtain rfl := Option.some.inj h
      exact ⟨by simp [ruleNames], hplace⟩

theorem reports_of_class {c : StyledClass} (hc : c ∈ s.classes) (h : i ∈ classIssues s c) :
    i.Reports ruleNames s source := by
  have hplace : ∃ p, FindingPlace s source p ∧ s.locate c.pos = s.locate p :=
    ⟨_, .class hc, rfl⟩
  simp only [classIssues, List.mem_append, Option.mem_toList] at h
  rcases h with h | h
  · simp only [misspelledClass, Option.ite_none_left_eq_some] at h
    obtain ⟨-, h⟩ := h
    obtain rfl := Option.some.inj h
    exact ⟨by simp [ruleNames], hplace⟩
  · simp only [offPattern, Option.ite_none_left_eq_some, Option.map_eq_some_iff] at h
    obtain ⟨-, pattern, -, rfl⟩ := h
    exact ⟨by simp [ruleNames], hplace⟩

theorem reports {settings : NamingSettings} (h : i ∈ check settings s) :
    i.Reports ruleNames s source := by
  simp only [check, List.mem_append, List.mem_flatMap] at h
  rcases h with (⟨v, hv, h⟩ | h) | ⟨c, hc, h⟩
  · exact reports_of_variable ((Repeats.firsts_sublist _ _).subset hv) h
  · obtain ⟨v, hv, rfl⟩ := List.mem_map.1 h
    exact ⟨by simp [ruleNames], _, .customProperty (Repeats.mem_of_mem_repeats hv), rfl⟩
  · exact reports_of_class ((Repeats.firsts_sublist _ _).subset hc) h

end Naming

/-! ### Theming -/

namespace Theming

/-- The rules on whole classes and on the whole sheet. -/
def ruleNames : List String :=
  ["color/low-contrast", "color/missing-dark-mode", "color/missing-dark-override"]

theorem reports_of_contrast {settings : ColorSettings} (h : i ∈ lowContrast settings s) :
    i.Reports ruleNames s source := by
  obtain ⟨c, hc, h⟩ := List.mem_filterMap.1 h
  split at h
  · simp at h
  · split at h
    · obtain rfl := Option.some.inj h
      exact ⟨by simp [ruleNames], _, .class hc, rfl⟩
    · simp at h

theorem reports_of_dark (h : i ∈ darkMode s) : i.Reports ruleNames s source := by
  simp only [darkMode] at h
  split at h
  · exact absurd h List.not_mem_nil
  split at h
  · obtain rfl := List.mem_singleton.1 h
    exact ⟨by simp [missingDarkMode, ruleNames], _, .start, rfl⟩
  · obtain ⟨v, hv, rfl⟩ := List.mem_map.1 h
    have hlight := (List.mem_filter.1 ((Repeats.firsts_sublist _ _).subset hv)).1
    have hv : v ∈ s.customProperties := (List.mem_filter.1 (List.mem_filter.1 hlight).1).1
    exact ⟨by simp [missingOverride, ruleNames], _, .customProperty hv, rfl⟩

end Theming

/-! ### Motion and focus -/

namespace Motion

/-- The rules on keyframes and on reduced motion. -/
def ruleNames : List String :=
  ["animation/non-canonical-keyframes", "animation/missing-reduced-motion",
    "animation/reduced-motion-gap"]

theorem reports_of_keyframes (h : i ∈ s.keyframes.filterMap (misspelledKeyframes s)) :
    i.Reports ruleNames s source := by
  obtain ⟨k, hk, h⟩ := List.mem_filterMap.1 h
  simp only [misspelledKeyframes, Option.ite_none_left_eq_some] at h
  obtain ⟨-, h⟩ := h
  obtain rfl := Option.some.inj h
  exact ⟨by simp [ruleNames], _, .keyframes hk, rfl⟩

theorem reports_of_reduced (h : i ∈ reducedMotion s) : i.Reports ruleNames s source := by
  simp only [reducedMotion] at h
  split at h
  · exact absurd h List.not_mem_nil
  split at h
  · obtain rfl := List.mem_singleton.1 h
    exact ⟨by simp [missingReducedMotion, ruleNames], _, .start, rfl⟩
  split at h
  · exact absurd h List.not_mem_nil
  · obtain ⟨c, hc, rfl⟩ := List.mem_map.1 h
    have hgap := (List.mem_filter.1 ((Repeats.firsts_sublist _ _).subset hc)).1
    exact ⟨by simp [reducedMotionGap, ruleNames], _, .class (List.mem_filter.1 hgap).1, rfl⟩

end Motion

namespace Focus

def ruleNames : List String :=
  ["animation/missing-focus-style", "animation/focus-indicator-removed"]

theorem reports (h : i ∈ check s) : i.Reports ruleNames s source := by
  rw [check, List.mem_append] at h
  rcases h with h | h
  · obtain ⟨r, hr, rfl⟩ := List.mem_map.1 h
    have hr : r ∈ s.rules := (List.mem_filter.1 ((Repeats.firsts_sublist _ _).subset hr)).1
    exact ⟨by simp [missingStyle, ruleNames], _, .rule hr, rfl⟩
  · obtain ⟨r, hr, h⟩ := List.mem_filterMap.1 h
    have hr : r ∈ s.rules := (List.mem_filter.1 hr).1
    split at h
    · simp at h
    · next outline houtline =>
      split at h
      · simp at h
      · obtain rfl := Option.some.inj h
        exact ⟨by simp [removedOutline, ruleNames], _,
          .declaration hr (List.mem_of_find?_eq_some houtline), rfl⟩

end Focus

/-! ### Small screens -/

namespace Responsive

def ruleNames : List String :=
  ["responsive/non-standard-breakpoint", "responsive/near-duplicate-breakpoint",
    "responsive/small-touch-target", "responsive/missing-mobile-query"]

theorem reports_of_nearDuplicates {settings : ResponsiveSettings}
    {widths : List (Float × MediaQuery)} (hw : ∀ w ∈ widths, w.2 ∈ s.mediaQueries) :
    ∀ {before : List Float}, i ∈ nearDuplicatesFrom settings s before widths →
      i.Reports ruleNames s source := by
  induction widths with
  | nil => intro before h; exact absurd h List.not_mem_nil
  | cons w widths ih =>
    intro before h
    rw [nearDuplicatesFrom, List.mem_append] at h
    rcases h with h | h
    · obtain ⟨earlier, -, h⟩ := List.mem_filterMap.1 h
      simp only [nearDuplicate, Option.ite_none_left_eq_some] at h
      obtain ⟨-, h⟩ := h
      obtain rfl := Option.some.inj h
      exact ⟨by simp [ruleNames], _, .mediaQuery (hw w List.mem_cons_self), rfl⟩
    · exact ih (fun w hin => hw w (List.mem_cons_of_mem _ hin)) h

theorem mem_distinctWidths {queries : List MediaQuery} {w : Float × MediaQuery}
    (h : w ∈ distinctWidths queries) : w.2 ∈ queries := by
  obtain ⟨m, hm, hw⟩ := List.mem_flatMap.1 ((Repeats.firsts_sublist _ _).subset h)
  obtain ⟨f, -, rfl⟩ := List.mem_map.1 hw
  exact hm

theorem reports {settings : ResponsiveSettings} (h : i ∈ check settings s) :
    i.Reports ruleNames s source := by
  simp only [check, List.mem_append] at h
  rcases h with ((h | h) | h) | h
  · obtain ⟨m, hm, h⟩ := List.mem_flatMap.1 h
    obtain ⟨f, -, h⟩ := List.mem_filterMap.1 h
    obtain ⟨nearest, -, h⟩ := Option.bind_eq_some_iff.1 h
    rw [Option.ite_none_left_eq_some] at h
    obtain rfl := Option.some.inj h.2
    exact ⟨by simp [ruleNames], _, .mediaQuery hm, rfl⟩
  · exact reports_of_nearDuplicates (fun _ => mem_distinctWidths) h
  · obtain ⟨t, ht, rfl⟩ := List.mem_map.1 h
    obtain ⟨c, hc, ht⟩ := List.mem_flatMap.1 ((Repeats.firsts_sublist _ _).subset ht)
    obtain ⟨d, hd, ht⟩ := List.mem_filterMap.1 ht
    obtain ⟨pixels, -, rfl⟩ := Option.map_eq_some_iff.1 ht
    exact ⟨by simp [smallTarget, ruleNames], _, .ofClass (List.mem_filter.1 hc).1 hd, rfl⟩
  · simp only [mobileQuery] at h
    split at h
    · exact absurd h List.not_mem_nil
    · obtain rfl := List.mem_singleton.1 h
      exact ⟨by simp [ruleNames], _, .start, rfl⟩

end Responsive

/-! ### Layout -/

/-- A separator that differs from the first stands on the line of a comment. -/
theorem exists_comment_of_firstChange {cs : List Comment} {change : Separator}
    (h : firstChange (separators cs) = some change) : ∃ c ∈ cs, change.line = c.line := by
  have hmem : change ∈ separators cs := by
    cases hs : separators cs with
    | nil => simp [hs, firstChange] at h
    | cons first rest =>
      rw [hs, firstChange] at h
      exact List.mem_cons_of_mem _ (List.mem_of_find?_eq_some h)
  obtain ⟨c, hc, hchange⟩ := List.mem_filterMap.1 hmem
  obtain ⟨mark, -, rfl⟩ := Option.map_eq_some_iff.1 hchange
  exact ⟨c, hc, rfl⟩

namespace Layout

def ruleNames : List String :=
  ["organization/missing-file-header", "organization/missing-section-separators",
    "organization/inconsistent-separators", "organization/variables-not-grouped",
    "organization/scattered-media-queries", "organization/dark-mode-not-grouped"]

theorem reports_of_sections {text : String} (h : i ∈ sections s text.toList) :
    i.Reports ruleNames s (some text) := by
  simp only [sections, List.mem_append, Option.mem_toList] at h
  rcases h with (h | h) | h
  · rw [missingHeader, Option.ite_none_left_eq_some] at h
    obtain rfl := Option.some.inj h.2
    exact ⟨by simp [finding, ruleNames], _, .start, rfl⟩
  · simp only [missingSeparators, Option.ite_none_left_eq_some] at h
    obtain rfl := Option.some.inj h.2
    exact ⟨by simp [finding, ruleNames], _, .start, rfl⟩
  · obtain ⟨change, hchange, rfl⟩ := Option.map_eq_some_iff.1 h
    obtain ⟨c, hc, hline⟩ := exists_comment_of_firstChange hchange
    exact ⟨by simp [finding, ruleNames], _, .comment rfl hc, by rw [← hline]; rfl⟩

/-- The second of two neighbors is a member. -/
theorem mem_of_mem_neighbors {α : Type} {xs : List α} {p : α × α} (h : p ∈ neighbors xs) :
    p.2 ∈ xs :=
  List.mem_of_mem_drop (List.of_mem_zip h).2

/-- Dark styles begin at media queries and rules. -/
theorem finding_of_mem_darkPlaces {p : Pos} (h : p ∈ darkPlaces s) : FindingPlace s source p := by
  rw [darkPlaces, List.mem_mergeSort, List.mem_append] at h
  rcases h with h | h
  · obtain ⟨m, hm, rfl⟩ := List.mem_map.1 h
    exact .mediaQuery (List.mem_filter.1 hm).1
  · obtain ⟨r, hr, rfl⟩ := List.mem_map.1 h
    exact .rule (List.mem_filter.1 hr).1

theorem reports (h : i ∈ check s source) : i.Reports ruleNames s source := by
  simp only [check, List.mem_append, Option.mem_toList] at h
  rcases h with ((h | h) | h) | h
  · cases source with
    | none => exact absurd h List.not_mem_nil
    | some text => exact reports_of_sections h
  · obtain ⟨line, -, h⟩ := Option.bind_eq_some_iff.1 h
    obtain ⟨v, hv, rfl⟩ := Option.map_eq_some_iff.1 h
    exact ⟨by simp [finding, ruleNames], _, .customProperty (List.mem_of_find?_eq_some hv), rfl⟩
  · obtain ⟨q, hq, h⟩ := List.mem_filterMap.1 h
    rw [Option.ite_none_left_eq_some] at h
    obtain rfl := Option.some.inj h.2
    have hm : q.2 ∈ s.mediaQueries := List.mem_mergeSort.1 (mem_of_mem_neighbors hq)
    exact ⟨by simp [finding, ruleNames], _, .mediaQuery hm, rfl⟩
  · obtain ⟨q, hq, rfl⟩ := Option.map_eq_some_iff.1 h
    have hdark := mem_of_mem_neighbors (List.mem_of_find?_eq_some hq)
    exact ⟨by simp [finding, ruleNames], _, finding_of_mem_darkPlaces hdark, rfl⟩

end Layout

/-! ### Quality -/

namespace Quality

/-- The rules on selectors and on classes that say the same. -/
def ruleNames : List String :=
  ["quality/utility-specificity", "quality/deep-nesting", "quality/id-selector",
    "quality/duplicate-pattern"]

theorem reports_of_heavyUtilities {settings : QualitySettings}
    (h : i ∈ heavyUtilities settings s) : i.Reports ruleNames s source := by
  obtain ⟨c, hc, h⟩ := List.mem_filterMap.1 h
  simp only [heavyUtility, Option.ite_none_left_eq_some] at h
  obtain rfl := Option.some.inj h.2
  exact ⟨by simp [ruleNames], _, .class hc, rfl⟩

theorem reports_of_selectors {settings : QualitySettings} (h : i ∈ selectors settings s) :
    i.Reports ruleNames s source := by
  obtain ⟨r, hr, h⟩ := List.mem_flatMap.1 h
  simp only [List.mem_append, Option.mem_toList] at h
  rcases h with h | h
  · simp only [deepNesting, Option.ite_none_left_eq_some] at h
    obtain rfl := Option.some.inj h.2
    exact ⟨by simp [ruleNames], _, .rule hr, rfl⟩
  · simp only [idSelector, Option.ite_none_left_eq_some] at h
    obtain rfl := Option.some.inj h.2
    exact ⟨by simp [ruleNames], _, .rule hr, rfl⟩

theorem reports_of_duplicates (h : i ∈ duplicates s) : i.Reports ruleNames s source := by
  obtain ⟨⟨⟨_, first⟩, ⟨sig, c⟩⟩, hp, h⟩ := List.mem_filterMap.1 h
  dsimp only at h
  rw [Option.ite_none_left_eq_some] at h
  obtain rfl := Option.some.inj h.2
  obtain ⟨c', hc, heq⟩ := List.mem_map.1 (Repeats.mem_of_mem_repeats hp)
  obtain rfl : c' = c := (Prod.mk.inj heq).2
  exact ⟨by simp [duplicate, ruleNames], _, .class (List.mem_filter.1 hc).1, rfl⟩

end Quality

/-! ### Documentation -/

namespace Documentation

def ruleNames : List String :=
  ["comments/missing-header", "comments/short-header", "comments/missing-separators",
    "comments/inconsistent-separators", "comments/malformed-requirement-ref",
    "comments/mixed-language", "comments/mixed-styles"]

variable {text : String}

theorem reports_of_header {settings : CommentSettings}
    (h : header settings s text.toList = some i) : i.Reports ruleNames s (some text) := by
  rw [header] at h
  split at h
  · obtain ⟨c, -, h⟩ := Option.bind_eq_some_iff.1 h
    simp only [shortHeader, Option.ite_none_left_eq_some] at h
    obtain rfl := Option.some.inj h.2
    exact ⟨by simp [finding, ruleNames], _, .start, rfl⟩
  · obtain rfl := Option.some.inj h
    exact ⟨by simp [missingHeader, finding, ruleNames], _, .start, rfl⟩

theorem reports_of_sections {settings : CommentSettings}
    (h : sections settings s text.toList = some i) : i.Reports ruleNames s (some text) := by
  simp only [sections, Option.ite_none_left_eq_some] at h
  obtain ⟨-, h⟩ := h
  split at h
  · obtain rfl := Option.some.inj h
    exact ⟨by simp [missingSeparators, finding, ruleNames], _, .start, rfl⟩
  · next first rest hs =>
    obtain ⟨change, hchange, rfl⟩ := Option.map_eq_some_iff.1 h
    obtain ⟨c, hc, hline⟩ := exists_comment_of_firstChange (hs ▸ hchange)
    exact ⟨by simp [inconsistentSeparators, finding, ruleNames], _, .comment rfl hc,
      by rw [← hline]; rfl⟩

theorem reports_of_languages (h : i ∈ languages s (comments text.toList)) :
    i.Reports ruleNames s (some text) := by
  simp only [languages] at h
  split at h
  · exact absurd h List.not_mem_nil
  · split at h
    · exact absurd h List.not_mem_nil
    · obtain ⟨w, hw, rfl⟩ := List.mem_map.1 h
      obtain ⟨c, hc, hw⟩ := List.mem_filterMap.1 (List.mem_filter.1 hw).1
      rw [Option.ite_none_left_eq_some] at hw
      obtain ⟨script, -, rfl⟩ := Option.map_eq_some_iff.1 hw.2
      exact ⟨by simp [foreignComment, finding, ruleNames], _, .comment rfl hc, rfl⟩

theorem reports_of_styles (h : styles s (comments text.toList) = some i) :
    i.Reports ruleNames s (some text) := by
  simp only [styles, Option.ite_none_left_eq_some] at h
  obtain ⟨-, h⟩ := h
  obtain ⟨c, hc, rfl⟩ := Option.map_eq_some_iff.1 h
  exact ⟨by simp [finding, ruleNames], _, .comment rfl (List.mem_of_find?_eq_some hc), rfl⟩

theorem reports {settings : CommentSettings} (h : i ∈ check settings s text) :
    i.Reports ruleNames s (some text) := by
  simp only [check, List.mem_append, Option.mem_toList] at h
  rcases h with (((h | h) | h) | h) | h
  · exact reports_of_header h
  · exact reports_of_sections h
  · obtain ⟨c, hc, h⟩ := List.mem_flatMap.1 h
    obtain ⟨r, -, rfl⟩ := List.mem_map.1 h
    exact ⟨by simp [malformedReference, finding, ruleNames], _, .comment rfl hc, rfl⟩
  · exact reports_of_languages h
  · exact reports_of_styles h

end Documentation

/-! ### All families -/

theorem Checker.run_standard (settings : Settings) (s : Sheet) (source : Option String) :
    run (standard settings) s source =
      Naming.check settings.naming s ++ (Theming.check settings.color s ++ (Spacing.check s ++
        ((Motion.check s ++ Focus.check s) ++
          ((Responsive.check settings.responsive s ++ Layout.check s source) ++
            (Quality.check settings.quality s ++
              (source.elim [] (Documentation.check settings.comments s) ++ [])))))) :=
  rfl

end SheetAudit
