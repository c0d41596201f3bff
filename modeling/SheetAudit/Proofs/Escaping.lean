import Mathlib.Data.List.Basic
import SheetAudit.Render.Html

/-!
# Text in an HTML report stays text

File names, messages and code samples come from the style sheets that were audited, and may hold
anything.  In an HTML report they are escaped, so that what makes markup comes from the report's
own stock of fragments, and how much of it there is depends on the shape of the report alone.

## Main definitions

* `entities`, `unescape` — the entities that an escaped text holds, and reading them back.
* `replaceChar` — one character replaced all over a text.
* `specimen` — a document that shows everything a report can show, and no text.
* `Report.shape` — what a report shows, apart from its texts and places.
* `strokes` — the characters of a document that can begin or end a tag or an attribute value.

## Main results

* `escapeChars_eq_replacements` — escaping is replacing the five characters one after the other.
* `unescapeChars_escapeChars` — an escaped text is read back as it was.
* `markups_report` — the markup of every report is that of the specimen.
* `text_stays_text` — **whatever their texts are, reports of one shape have the same strokes.**
-/

namespace SheetAudit
namespace Html

open Fragment

/-! ### Escaped text -/

/-- The characters that mean something in markup. -/
def special : List Char := ['&', '<', '>', '"', '\'']

/-- What stands for them in an escaped text. -/
def entities : List String := ["&amp;", "&lt;", "&gt;", "&quot;", "&#39;"]

/-- Begins or ends a tag or an attribute value. -/
def isStroke (c : Char) : Bool := c == '<' || c == '>' || c == '"' || c == '\''

/-- The text with its entities read. -/
def unescapeChars : List Char → List Char
  | '&' :: 'a' :: 'm' :: 'p' :: ';' :: cs => '&' :: unescapeChars cs
  | '&' :: 'l' :: 't' :: ';' :: cs => '<' :: unescapeChars cs
  | '&' :: 'g' :: 't' :: ';' :: cs => '>' :: unescapeChars cs
  | '&' :: 'q' :: 'u' :: 'o' :: 't' :: ';' :: cs => '"' :: unescapeChars cs
  | '&' :: '#' :: '3' :: '9' :: ';' :: cs => '\'' :: unescapeChars cs
  | c :: cs => c :: unescapeChars cs
  | [] => []

def unescape (s : String) : String := String.ofList (unescapeChars s.toList)

/-- The text with every `c` replaced. -/
def replaceChar (c : Char) (replacement : String) (cs : List Char) : List Char :=
  cs.flatMap fun d => if d == c then replacement.toList else [d]

theorem escapeChars_cons (c : Char) (cs : List Char) :
    escapeChars (c :: cs) = escapeChar c ++ escapeChars cs :=
  List.flatMap_cons

theorem ne_of_not_mem_special {c d : Char} (h : c ∉ special) (hd : d ∈ special) : c ≠ d := by
  rintro rfl
  exact h hd

/-- Other characters are left alone. -/
theorem escapeChar_of_not_mem {c : Char} (h : c ∉ special) : escapeChar c = [c] := by
  simp only [special, List.mem_cons, List.not_mem_nil, or_false, not_or] at h
  simp [escapeChar, h]

theorem cases_of_mem_special {c : Char} (h : c ∈ special) :
    c = '&' ∨ c = '<' ∨ c = '>' ∨ c = '"' ∨ c = '\'' := by
  simpa [special] using h

theorem escapeChar_of_mem {c : Char} (h : c ∈ special) :
    ∃ e ∈ entities, escapeChar c = e.toList := by
  rcases cases_of_mem_special h with rfl | rfl | rfl | rfl | rfl <;> decide

theorem isStroke_of_not_mem {c : Char} (h : c ∉ special) : isStroke c = false := by
  simp_all [special, isStroke]

/-- Escaping is replacing the five characters one after the other, the ampersand first: the later
replacements leave the entities alone that the earlier ones put in. -/
theorem escapeChars_eq_replacements (cs : List Char) :
    escapeChars cs =
      replaceChar '\'' "&#39;" (replaceChar '"' "&quot;" (replaceChar '>' "&gt;"
        (replaceChar '<' "&lt;" (replaceChar '&' "&amp;" cs)))) := by
  have hspecial : ∀ c ∈ special, escapeChar c =
      replaceChar '\'' "&#39;" (replaceChar '"' "&quot;" (replaceChar '>' "&gt;"
        (replaceChar '<' "&lt;" (replaceChar '&' "&amp;" [c])))) := by
    intro c hc
    rcases cases_of_mem_special hc with rfl | rfl | rfl | rfl | rfl <;> decide
  have happend (d : Char) (e : String) (xs ys : List Char) :
      replaceChar d e (xs ++ ys) = replaceChar d e xs ++ replaceChar d e ys :=
    List.flatMap_append
  have hother {c d : Char} (h : c ≠ d) (e : String) : replaceChar d e [c] = [c] := by
    simp [replaceChar, h]
  induction cs with
  | nil => rfl
  | cons c cs ih =>
    rw [escapeChars_cons, ih, ← List.singleton_append]
    simp only [happend]
    congr 1
    by_cases h : c ∈ special
    · exact hspecial c h
    · have hne {d : Char} (hd : d ∈ special) : c ≠ d := ne_of_not_mem_special h hd
      rw [escapeChar_of_not_mem h, hother (hne (by decide)), hother (hne (by decide)),
        hother (hne (by decide)), hother (hne (by decide)), hother (hne (by decide))]

/-- An escaped text holds no stroke. -/
theorem isStroke_of_mem_escapeChars {cs : List Char} {c : Char} (h : c ∈ escapeChars cs) :
    isStroke c = false := by
  have hentities : ∀ e ∈ entities, e.toList.any isStroke = false := by decide
  obtain ⟨d, -, hc⟩ := List.mem_flatMap.1 h
  by_cases hd : d ∈ special
  · obtain ⟨e, he, hde⟩ := escapeChar_of_mem hd
    simpa using List.any_eq_false.1 (hentities e he) c (hde ▸ hc)
  · rw [escapeChar_of_not_mem hd, List.mem_singleton] at hc
    rw [hc, isStroke_of_not_mem hd]

/-- An ampersand in an escaped text begins an entity. -/
theorem entity_of_ampersand {cs before after : List Char}
    (h : escapeChars cs = before ++ '&' :: after) :
    ∃ e ∈ entities, e.toList <+: '&' :: after := by
  induction cs generalizing before with
  | nil => simp [escapeChars] at h
  | cons c cs ih =>
    rw [escapeChars_cons] at h
    rcases List.append_eq_append_iff.1 h with ⟨mid, -, hmid⟩ | ⟨mid, hc, hmid⟩
    · exact ih hmid
    cases mid with
    | nil =>
      have hrest : escapeChars cs = [] ++ '&' :: after := hmid.symm
      exact ih hrest
    | cons d mid =>
      rw [List.cons_append, List.cons.injEq] at hmid
      obtain ⟨rfl, rfl⟩ := hmid
      by_cases hspecial : c ∈ special
      · -- within an entity only the first character is an ampersand
        have hfirst : ∀ e ∈ entities, '&' ∉ e.toList.tail := by decide
        obtain ⟨e, he, hce⟩ := escapeChar_of_mem hspecial
        rw [hce] at hc
        cases before with
        | nil => exact ⟨e, he, hc ▸ List.prefix_append ('&' :: mid) _⟩
        | cons b before =>
          refine absurd ?_ (hfirst e he)
          rw [hc]
          simp
      · have hin : '&' ∈ escapeChar c := hc ▸ by simp
        rw [escapeChar_of_not_mem hspecial, List.mem_singleton] at hin
        exact absurd (by decide) (hin ▸ hspecial)

theorem unescapeChars_cons {c : Char} (h : c ≠ '&') (cs : List Char) :
    unescapeChars (c :: cs) = c :: unescapeChars cs := by
  rw [unescapeChars.eq_def]
  split <;> simp_all

/-- An escaped text is read back as it was. -/
theorem unescapeChars_escapeChars (cs : List Char) : unescapeChars (escapeChars cs) = cs := by
  have hspecial : ∀ c ∈ special, ∀ cs,
      unescapeChars (escapeChar c ++ cs) = c :: unescapeChars cs := by
    simp only [special, List.forall_mem_cons]
    exact ⟨fun _ => rfl, fun _ => rfl, fun _ => rfl, fun _ => rfl, fun _ => rfl, by simp⟩
  induction cs with
  | nil => rfl
  | cons c cs ih =>
    rw [escapeChars_cons]
    by_cases h : c ∈ special
    · rw [hspecial c h, ih]
    · have hne : c ≠ '&' := ne_of_not_mem_special h (by decide)
      rw [escapeChar_of_not_mem h, List.singleton_append, unescapeChars_cons hne, ih]

/-! ### The stock of markup -/

def Fragment.isMarkup : Fragment → Bool
  | markup _ => true
  | _ => false

/-- The fragments that are markup, and neither numbers nor text. -/
def markups (fragments : List Fragment) : List Fragment := fragments.filter Fragment.isMarkup

/-- An issue with all its parts, which say nothing. -/
def specimenIssue (s : Severity) (c : Category) : Issue where
  rule := ""
  severity := s
  category := c
  message := ""
  location := .fileStart ""
  suggestion := "-"
  sample := some ⟨"-", ""⟩

/-- A summary with a row for everything that is counted. -/
def specimenSummary : Summary where
  total := 0
  bySeverity := Severity.all.map fun s => (s, 0)
  byCategory := Category.all.map fun c => (c, 1)
  filesWithIssues := 0
  filesScanned := 0

/-- A document that shows everything a report can show, and no text. -/
def specimen : List Fragment :=
  [fixed header] ++ summary specimenSummary ++
  [fixed ["        <p class=\"no-results\">No issues found.</p>"]] ++ categories specimenSummary ++
  [fixed ["        <h2>Issues</h2>"]] ++ filters ++
  group ("", Severity.all.flatMap fun s => Category.all.map (specimenIssue s)) ++
  recommendations [""] ++ [fixed footer]

theorem mem_all_severity (s : Severity) : s ∈ Severity.all := by cases s <;> decide

theorem mem_all_category (c : Category) : c ∈ Category.all := by cases c <;> decide

theorem markups_append (xs ys : List Fragment) : markups (xs ++ ys) = markups xs ++ markups ys :=
  List.filter_append ..

theorem markups_flatMap {α : Type} (xs : List α) (f : α → List Fragment) :
    markups (xs.flatMap f) = xs.flatMap fun x => markups (f x) :=
  List.filter_flatMap ..

theorem markups_subset (xs : List Fragment) : markups xs ⊆ xs :=
  List.filter_sublist.subset

theorem markups_card (kind label : String) (n : Nat) :
    markups (card kind n label) ⊆ card kind 0 label :=
  markups_subset (card kind 0 label)

theorem markups_summary (s : Summary) : markups (summary s) ⊆ summary specimenSummary := by
  intro f hf
  simp only [summary, markups_append, markups_flatMap, List.mem_append, List.mem_flatMap] at hf ⊢
  rcases hf with (((h | h) | h) | ⟨x, -, h⟩) | h
  · exact .inl (.inl (.inl (.inl h)))
  · exact .inl (.inl (.inl (.inr (markups_card _ _ _ h))))
  · exact .inl (.inl (.inr (markups_card _ _ _ h)))
  · have hmem : (x.1, 0) ∈ specimenSummary.bySeverity := List.mem_map_of_mem (mem_all_severity x.1)
    exact .inl (.inr ⟨_, hmem, markups_card _ _ _ h⟩)
  · exact .inr h

theorem markups_categories (s : Summary) :
    markups (categories s) ⊆ categories specimenSummary := by
  intro f hf
  simp only [categories, markups_append, markups_flatMap, List.mem_append, List.mem_flatMap] at hf ⊢
  rcases hf with (h | ⟨x, -, h⟩) | h
  · exact .inl (.inl h)
  · have hmem : (x.1, 1) ∈ specimenSummary.byCategory.filter fun c => c.2 > 0 :=
      List.mem_filter.2 ⟨List.mem_map_of_mem (mem_all_category x.1), rfl⟩
    exact .inl (.inr ⟨_, hmem, markups_subset _ h⟩)
  · exact .inr h

theorem markups_sample (e : Example) : markups (sample e) ⊆ sample ⟨"-", ""⟩ := by
  intro f hf
  simp only [sample, markups_append, List.mem_append] at hf ⊢
  rcases hf with (h | h) | h
  · exact .inl (.inl h)
  · split at h
    · exact absurd h List.not_mem_nil
    · exact .inl (.inr (markups_subset _ h))
  · exact .inr (markups_subset _ h)

theorem markups_issue (i : Issue) :
    markups (issue i) ⊆ issue (specimenIssue i.severity i.category) := by
  intro f hf
  simp only [issue, markups_append, List.mem_append] at hf ⊢
  rcases hf with ((h | h) | h) | h
  · exact .inl (.inl (.inl (markups_subset _ h)))
  · split at h
    · exact absurd h List.not_mem_nil
    · exact .inl (.inl (.inr (markups_subset _ h)))
  · cases hs : i.sample with
    | none =>
      rw [hs] at h
      exact absurd h List.not_mem_nil
    | some e =>
      rw [hs] at h
      exact .inl (.inr (markups_sample e h))
  · exact .inr h

theorem markups_group (g : String × List Issue) :
    markups (group g) ⊆
      group ("", Severity.all.flatMap fun s => Category.all.map (specimenIssue s)) := by
  intro f hf
  simp only [group, markups_append, markups_flatMap, List.mem_append, List.mem_flatMap] at hf ⊢
  rcases hf with h | ⟨i, -, h⟩
  · exact .inl (markups_subset _ h)
  · refine .inr ⟨_, ⟨i.severity, mem_all_severity _, ?_⟩, markups_issue i h⟩
    exact List.mem_map_of_mem (mem_all_category _)

theorem markups_recommendations (advice : List String) :
    markups (recommendations advice) ⊆ recommendations [""] := by
  intro f hf
  rw [recommendations] at hf
  split at hf
  · exact absurd hf List.not_mem_nil
  · simp only [markups_append, markups_flatMap, List.mem_append, List.mem_flatMap] at hf
    rcases hf with (h | ⟨a, -, h⟩) | h
    · exact List.mem_append_left _ (List.mem_append_left _ h)
    · exact List.mem_append_left _ (List.mem_append_right _ (markups_subset _ h))
    · exact List.mem_append_right _ h

/-- The markup of every report is that of the specimen. -/
theorem markups_report (r : Report) (grouping : Grouping) :
    markups (report r grouping) ⊆ specimen := by
  intro f hf
  simp only [report, markups_append, List.mem_append] at hf
  simp only [specimen, List.mem_append]
  rcases hf with (((h | h) | h) | h) | h
  · simp [markups_subset _ h]
  · simp [markups_summary _ h]
  · split at h
    · simp [markups_subset _ h]
    · simp only [markups_append, markups_flatMap, List.mem_append, List.mem_flatMap] at h
      rcases h with ((h | h) | h) | ⟨g, -, h⟩
      · simp [markups_categories _ h]
      · simp [markups_subset _ h]
      · simp [markups_subset _ h]
      · simp [markups_group _ h]
  · simp [markups_recommendations _ h]
  · simp [markups_subset _ h]

/-- What a report is made of. -/
theorem cases_of_mem_report {r : Report} {grouping : Grouping} {f : Fragment}
    (h : f ∈ report r grouping) :
    (f.isMarkup = true ∧ f ∈ specimen) ∨ (∃ n, f = number n) ∨ ∃ s, f = text s := by
  cases f with
  | markup s => exact .inl ⟨rfl, markups_report r grouping (List.mem_filter.2 ⟨h, rfl⟩)⟩
  | number n => exact .inr (.inl ⟨n, rfl⟩)
  | text s => exact .inr (.inr ⟨s, rfl⟩)

/-! ### The shape of a report -/

end Html

/-- What a report shows of an issue, apart from its texts and its place. -/
structure IssueShape where
  severity : Severity
  category : Category
  /-- There is nothing to say about what to do. -/
  unadvised : Bool
  /-- Whether there is a sample, and then whether the part before the fix is empty. -/
  sample : Option Bool
  deriving Repr, DecidableEq

def Issue.shape (i : Issue) : IssueShape where
  severity := i.severity
  category := i.category
  unadvised := i.suggestion.isEmpty
  sample := i.sample.map fun e => e.before.isEmpty

/-- What a report shows, apart from its texts and places. -/
structure ReportShape where
  counts : Summary
  groups : List (List IssueShape)
  recommendations : Nat
  deriving Repr, DecidableEq

def Report.shape (r : Report) (grouping : Grouping) : ReportShape where
  counts := r.summary
  groups := (r.groups grouping).map fun g => g.2.map Issue.shape
  recommendations := r.recommendations.length

namespace Html

/-- The fragment with what it tells left out. -/
def Fragment.bare : Fragment → Fragment
  | markup s => markup s
  | number _ => number 0
  | text _ => text ""

theorem map_eq_of_shape {α β : Type} {f : α → β} {F : α → List Fragment}
    (h : ∀ x y, f x = f y → (F x).map Fragment.bare = (F y).map Fragment.bare) {xs ys : List α}
    (hxs : xs.map f = ys.map f) :
    (xs.flatMap F).map Fragment.bare = (ys.flatMap F).map Fragment.bare := by
  induction xs generalizing ys with
  | nil =>
    obtain rfl := List.map_eq_nil_iff.1 hxs.symm
    rfl
  | cons x xs ih =>
    cases ys with
    | nil => simp at hxs
    | cons y ys =>
      rw [List.map_cons, List.map_cons, List.cons.injEq] at hxs
      rw [List.flatMap_cons, List.flatMap_cons, List.map_append, List.map_append, h x y hxs.1,
        ih hxs.2]

theorem bare_sample {e e' : Example} (h : e.before.isEmpty = e'.before.isEmpty) :
    (sample e).map Fragment.bare = (sample e').map Fragment.bare := by
  rw [sample, sample, h]
  cases e'.before.isEmpty <;> rfl

theorem bare_issue {i j : Issue} (h : i.shape = j.shape) :
    (issue i).map Fragment.bare = (issue j).map Fragment.bare := by
  simp only [Issue.shape, IssueShape.mk.injEq] at h
  obtain ⟨hseverity, hcategory, hsuggestion, hsample⟩ := h
  have hs : ((i.sample.map sample).getD []).map Fragment.bare =
      ((j.sample.map sample).getD []).map Fragment.bare := by
    cases hi : i.sample with
    | none =>
      cases hj : j.sample with
      | none => rfl
      | some e' => simp [hi, hj] at hsample
    | some e =>
      cases hj : j.sample with
      | none => simp [hi, hj] at hsample
      | some e' => exact bare_sample (by simpa [hi, hj] using hsample)
  simp only [issue, List.map_append, hseverity, hcategory, hsuggestion, hs]
  cases j.suggestion.isEmpty <;> rfl

theorem bare_group {g g' : String × List Issue} (h : g.2.map Issue.shape = g'.2.map Issue.shape) :
    (group g).map Fragment.bare = (group g').map Fragment.bare := by
  rw [group, group, List.map_append, List.map_append, map_eq_of_shape (fun _ _ => bare_issue) h]
  rfl

theorem bare_recommendations {advice advice' : List String} (h : advice.length = advice'.length) :
    (recommendations advice).map Fragment.bare = (recommendations advice').map Fragment.bare := by
  have hmap : advice.map (fun _ => ()) = advice'.map fun _ => () := by
    rw [List.map_const', List.map_const', h]
  have hempty : advice.isEmpty = advice'.isEmpty := by
    cases advice <;> cases advice' <;> simp_all
  rw [recommendations, recommendations, hempty]
  split
  · rfl
  · simp only [List.map_append]
    rw [map_eq_of_shape (fun _ _ _ => rfl) hmap]

/-- Reports of one shape are made of the same markup, with numbers and texts in the same places. -/
theorem bare_report {r r' : Report} {grouping grouping' : Grouping}
    (h : r.shape grouping = r'.shape grouping') :
    (report r grouping).map Fragment.bare = (report r' grouping').map Fragment.bare := by
  simp only [Report.shape, ReportShape.mk.injEq] at h
  obtain ⟨hcounts, hgroups, hrecommendations⟩ := h
  simp only [report, hcounts, List.map_append, bare_recommendations hrecommendations]
  split
  · rfl
  · simp only [List.map_append, map_eq_of_shape (fun _ _ => bare_group) hgroups]

/-! ### Strokes -/

/-- The characters of a document that can begin or end a tag or an attribute value, in order. -/
def strokes (document : String) : List Char := document.toList.filter isStroke

theorem strokes_number (n : Nat) : strokes (Fragment.number n).render = [] := by
  rw [strokes, List.filter_eq_nil_iff]
  intro c hc hstroke
  have hdigit : c.isDigit = true := by
    refine Nat.isDigit_of_mem_toDigits (by decide) (by decide) (n := n) (b := 10) ?_
    rwa [Fragment.render, Nat.toString_eq_ofList_toDigits, String.toList_ofList] at hc
  simp only [isStroke, Bool.or_eq_true, beq_iff_eq] at hstroke
  rcases hstroke with ((rfl | rfl) | rfl) | rfl <;> exact absurd hdigit (by decide)

theorem strokes_text (s : String) : strokes (Fragment.text s).render = [] := by
  rw [strokes, List.filter_eq_nil_iff]
  intro c hc
  rw [Fragment.render, escape, String.toList_ofList] at hc
  rw [isStroke_of_mem_escapeChars hc]
  exact Bool.false_ne_true

theorem strokes_bare (f : Fragment) : strokes f.bare.render = strokes f.render := by
  cases f with
  | markup s => rfl
  | number n => exact (strokes_number 0).trans (strokes_number n).symm
  | text s => exact (strokes_text "").trans (strokes_text s).symm

theorem strokes_render (fragments : List Fragment) :
    strokes (render fragments) = fragments.flatMap fun f => strokes f.render := by
  have hjoin (init : String) (ss : List String) :
      (ss.foldl (· ++ ·) init).toList = init.toList ++ ss.flatMap String.toList := by
    induction ss generalizing init with
    | nil => simp
    | cons s ss ih => simp [ih]
  have hrender : (render fragments).toList = fragments.flatMap fun f => f.render.toList := by
    rw [render, String.join, hjoin, List.flatMap_map]
    rfl
  rw [strokes, hrender, List.filter_flatMap]
  rfl

theorem strokes_render_bare (fragments : List Fragment) :
    strokes (render fragments) = strokes (render (fragments.map Fragment.bare)) := by
  simp only [strokes_render, List.flatMap_map, strokes_bare]

/-! ### The whole report -/

/-- **Text in a report stays text.**  A report is put together from markup in stock, numbers and
escaped text; escaped text holds no strokes, its ampersands begin entities, and it is read back as
it was.  So whatever their texts are, reports of one shape have the same strokes. -/
theorem text_stays_text :
    (∀ r grouping,
      render (report r grouping) = String.join ((report r grouping).map Fragment.render) ∧
      ∀ f ∈ report r grouping, (f.isMarkup = true ∧ f ∈ specimen) ∨ (∃ n, f = .number n) ∨
        ∃ s, f = .text s ∧ f.render = escape s) ∧
    (∀ s,
      (escape s).toList = replaceChar '\'' "&#39;" (replaceChar '"' "&quot;"
        (replaceChar '>' "&gt;" (replaceChar '<' "&lt;" (replaceChar '&' "&amp;" s.toList)))) ∧
      (∀ c ∈ (escape s).toList, c ≠ '<' ∧ c ≠ '>' ∧ c ≠ '"' ∧ c ≠ '\'') ∧
      (∀ before after, (escape s).toList = before ++ '&' :: after →
        ∃ e ∈ entities, e.toList <+: '&' :: after) ∧
      unescape (escape s) = s) ∧
    ∀ r r' grouping grouping', Report.shape r grouping = Report.shape r' grouping' →
      strokes (render (report r grouping)) = strokes (render (report r' grouping')) := by
  refine ⟨fun r grouping => ⟨rfl, fun f hf => ?_⟩,
    fun s => ⟨?_, fun c hc => ?_, fun before after h => ?_, ?_⟩,
    fun r r' grouping grouping' h => ?_⟩
  · rcases cases_of_mem_report hf with h | h | ⟨s, rfl⟩
    · exact .inl h
    · exact .inr (.inl h)
    · exact .inr (.inr ⟨s, rfl, rfl⟩)
  · rw [escape, String.toList_ofList, escapeChars_eq_replacements]
  · rw [escape, String.toList_ofList] at hc
    simpa [isStroke, and_assoc] using isStroke_of_mem_escapeChars hc
  · rw [escape, String.toList_ofList] at h
    exact entity_of_ampersand h
  · rw [unescape, escape, String.toList_ofList, unescapeChars_escapeChars, String.ofList_toList]
  · rw [strokes_render_bare, bare_report h, ← strokes_render_bare]

/-- One report is about a file with a tag in its name, with a message that would close an
attribute; the other is about a harmless one. -/
theorem text_stays_text_of_tags :
    let plain : Report := .of [⟨"a", .minor, .naming, "b", ⟨"c", .start⟩, "d", some ⟨"e", "f"⟩⟩] 1
    let hostile : Report :=
      .of [⟨"<a>", .minor, .naming, "'\"><script>", ⟨"</h3>", ⟨7, 12⟩⟩, "&lt;", some ⟨"<", "'"⟩⟩] 1
    plain.shape .file = hostile.shape .file ∧
      strokes (render (report plain .file)) = strokes (render (report hostile .file)) := by
  intro plain hostile
  have hshape : plain.shape .file = hostile.shape .file := by decide
  exact ⟨hshape, text_stays_text.2.2 plain hostile .file .file hshape⟩

end Html
end SheetAudit
