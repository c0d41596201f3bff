import Mathlib.Data.List.Basic
import SheetAudit.Render.Format

/-!
# Paint on a report for the terminal

A terminal takes paint from control sequences within the text.  They are all that painting adds to
a report: without them the painted report reads as the plain one, and every paint is taken off
before the next one is put on.

## Main definitions

* `Token`, `tokens` — a text as a terminal reads it, in characters and control sequences.
* `unpainted`, `sequences` — the text without its control sequences, and these alone.
* `Paired` — after every color or style comes the reset, and no reset stands alone.
* `Report.texts` — the texts of a report, which are told by whoever found the issues.

## Main results

* `tokens_render` — painted spans are read span by span.
* `clear_report` — a report shows control characters only where its texts hold them.
* `export_unpainted` — **painting a report adds control sequences, in pairs, and nothing else.**
-/

namespace SheetAudit
namespace Terminal

/-! ### Control sequences -/

/-- What a terminal reads: a character, or a sequence that sets a color or a style. -/
inductive Token where
  | char (c : Char)
  /-- ESC, a square bracket, these digits and an `m`. -/
  | sequence (digits : List Char)
  deriving Repr, DecidableEq

def Token.char? : Token → Option Char
  | char c => some c
  | sequence _ => none

def Token.digits? : Token → Option (List Char)
  | char _ => none
  | sequence digits => some digits

/-- The digits of the sequence that begins a text, and what follows the sequence. -/
def takeSequence? : List Char → Option (List Char × List Char)
  | '\x1b' :: '[' :: cs =>
    match cs.takeWhile Char.isDigit, cs.dropWhile Char.isDigit with
    | d :: ds, 'm' :: rest => some (d :: ds, rest)
    | _, _ => none
  | _ => none

theorem length_of_takeSequence? {cs digits rest : List Char}
    (h : takeSequence? cs = some (digits, rest)) : rest.length < cs.length := by
  rw [takeSequence?.eq_def] at h
  split at h
  · next cs =>
    split at h
    · next hdrop =>
      obtain ⟨-, rfl⟩ := Prod.mk.inj (Option.some.inj h)
      have hle := (List.dropWhile_sublist Char.isDigit (l := cs)).length_le
      rw [hdrop, List.length_cons] at hle
      simp only [List.length_cons]
      omega
    · cases h
  · cases h

/-- A text as a terminal reads it, from left to right. -/
def tokens : List Char → List Token
  | [] => []
  | c :: cs =>
    match _h : takeSequence? (c :: cs) with
    | some (digits, rest) => .sequence digits :: tokens rest
    | none => .char c :: tokens cs
termination_by cs => cs.length
decreasing_by
  · exact length_of_takeSequence? _h
  · exact Nat.lt_succ_self _

/-- The text without its control sequences. -/
def unpainted (text : String) : String :=
  String.ofList ((tokens text.toList).filterMap Token.char?)

/-- The control sequences of a text in order, each told by its digits. -/
def sequences (text : String) : List (List Char) := (tokens text.toList).filterMap Token.digits?

/-- The digits of the reset. -/
def resetDigits : List Char := ['0']

/-- Every color or style is followed by the reset that ends it; nothing else is reset. -/
inductive Paired : List (List Char) → Prop where
  | nil : Paired []
  | cons {digits : List Char} {rest : List (List Char)} :
    digits ≠ resetDigits → Paired rest → Paired (digits :: resetDigits :: rest)

theorem Paired.append {l m : List (List Char)} (hl : Paired l) (hm : Paired m) :
    Paired (l ++ m) := by
  induction hl with
  | nil => exact hm
  | cons hdigits _ ih => exact .cons hdigits ih

/-! ### Reading tokens -/

theorem tokens_nil : tokens [] = [] := by rw [tokens]

theorem tokens_cons_of_ne {c : Char} (h : c ≠ '\x1b') (cs : List Char) :
    tokens (c :: cs) = .char c :: tokens cs := by
  have hnone : takeSequence? (c :: cs) = none := by
    rw [takeSequence?.eq_def]
    split
    · next heq => exact absurd (List.cons.inj heq).1 h
    · rfl
  rw [tokens]
  split
  · next heq => rw [hnone] at heq; cases heq
  · rfl

/-- Text without control characters is read as it is. -/
theorem tokens_append {text : List Char} (h : '\x1b' ∉ text) (rest : List Char) :
    tokens (text ++ rest) = text.map .char ++ tokens rest := by
  induction text with
  | nil => rfl
  | cons c text ih =>
    rw [List.mem_cons, not_or] at h
    rw [List.cons_append, tokens_cons_of_ne (Ne.symm h.1), ih h.2, List.map_cons, List.cons_append]

theorem tokens_sequence {digits : List Char} (hne : digits ≠ [])
    (hdigits : ∀ c ∈ digits, c.isDigit = true) (rest : List Char) :
    tokens ('\x1b' :: '[' :: (digits ++ 'm' :: rest)) = .sequence digits :: tokens rest := by
  have htake : (digits ++ 'm' :: rest).takeWhile Char.isDigit = digits := by
    rw [List.takeWhile_append_of_pos hdigits, List.takeWhile_cons_of_neg (by decide),
      List.append_nil]
  have hdrop : (digits ++ 'm' :: rest).dropWhile Char.isDigit = 'm' :: rest := by
    rw [List.dropWhile_append_of_pos hdigits, List.dropWhile_cons_of_neg (by decide)]
  obtain ⟨d, ds, rfl⟩ := List.exists_cons_of_ne_nil hne
  have hsome : takeSequence? ('\x1b' :: '[' :: (d :: ds ++ 'm' :: rest)) =
      some (d :: ds, rest) := by
    rw [takeSequence?, htake, hdrop]
    rfl
  rw [tokens]
  split
  · next heq =>
    obtain ⟨rfl, rfl⟩ := Prod.mk.inj (Option.some.inj (hsome.symm.trans heq))
    rfl
  · next heq => rw [hsome] at heq; cases heq

/-! ### Spans -/

/-- The digits of the sequence that puts the paint on. -/
def Paint.digits : Paint → List Char
  | red => ['3', '1']
  | yellow => ['3', '3']
  | cyan => ['3', '6']
  | bold => ['1']
  | dim => ['2']

theorem Paint.digits_ne_reset (p : Paint) : p.digits ≠ resetDigits := by cases p <;> decide

theorem tokens_code (p : Paint) (rest : List Char) :
    tokens (p.code.toList ++ rest) = .sequence p.digits :: tokens rest := by
  have hcode : p.code.toList = '\x1b' :: '[' :: (p.digits ++ ['m']) := by cases p <;> rfl
  have hne : p.digits ≠ [] := by cases p <;> decide
  have hdigits : p.digits.all Char.isDigit = true := by cases p <;> rfl
  rw [hcode, List.cons_append, List.cons_append, List.append_assoc, List.singleton_append]
  exact tokens_sequence hne (List.all_eq_true.1 hdigits) rest

theorem tokens_reset (rest : List Char) :
    tokens (reset.toList ++ rest) = .sequence resetDigits :: tokens rest := by
  have hne : resetDigits ≠ [] := by decide
  have hdigits : resetDigits.all Char.isDigit = true := rfl
  exact tokens_sequence hne (List.all_eq_true.1 hdigits) rest

/-- A text without the character that begins a control sequence. -/
def Clear (s : String) : Prop := '\x1b' ∉ s.toList

instance (s : String) : Decidable (Clear s) := inferInstanceAs (Decidable ('\x1b' ∉ s.toList))

namespace Span

/-- The text that is painted, or not. -/
def text : Span → String
  | plain s => s
  | painted _ s => s

/-- The digits of the control sequences of a painted span. -/
def sequences : Span → List (List Char)
  | plain _ => []
  | painted p _ => [p.digits, resetDigits]

/-- A painted span as a terminal reads it. -/
def tokens : Span → List Token
  | plain s => s.toList.map .char
  | painted p s => .sequence p.digits :: (s.toList.map .char ++ [.sequence resetDigits])

theorem filterMap_char?_tokens (s : Span) : s.tokens.filterMap Token.char? = s.text.toList := by
  have hchars (cs : List Char) : (cs.map Token.char).filterMap Token.char? = cs := by
    rw [List.filterMap_map]
    exact List.filterMap_some
  cases s with
  | plain s => exact hchars s.toList
  | painted p s =>
    rw [tokens, List.filterMap_cons_none rfl, List.filterMap_append, hchars]
    exact List.append_nil _

theorem filterMap_digits?_tokens (s : Span) :
    s.tokens.filterMap Token.digits? = s.sequences := by
  have hchars (cs : List Char) : (cs.map Token.char).filterMap Token.digits? = [] := by
    rw [List.filterMap_map]
    exact List.filterMap_eq_nil_iff.2 fun _ _ => rfl
  cases s with
  | plain s => exact hchars s.toList
  | painted p s =>
    rw [tokens, List.filterMap_cons, List.filterMap_append, hchars]
    rfl

theorem tokens_render {s : Span} (h : Clear s.text) (rest : List Char) :
    Terminal.tokens ((s.render true).toList ++ rest) = s.tokens ++ Terminal.tokens rest := by
  cases s with
  | plain s => exact tokens_append h rest
  | painted p s =>
    have hs := tokens_append h (reset.toList ++ rest)
    rw [text, tokens_reset] at hs
    rw [render, if_pos rfl, String.toList_append, String.toList_append, List.append_assoc,
      List.append_assoc, tokens_code, hs, tokens, List.cons_append, List.append_assoc,
      List.singleton_append]

end Span

theorem toList_render (colors : Bool) (spans : List Span) :
    (render colors spans).toList = spans.flatMap fun s => (s.render colors).toList := by
  rw [render, String.toList_join, List.flatMap_map]

theorem toList_render_plain (spans : List Span) :
    (render false spans).toList = spans.flatMap fun s => s.text.toList := by
  rw [toList_render]
  exact congrArg (fun f => spans.flatMap f) (funext fun s => by cases s <;> rfl)

/-- Painted spans are read span by span. -/
theorem tokens_render {spans : List Span} (h : ∀ s ∈ spans, Clear s.text) :
    tokens (render true spans).toList = spans.flatMap Span.tokens := by
  rw [toList_render]
  induction spans with
  | nil => exact tokens_nil
  | cons s spans ih =>
    rw [List.flatMap_cons, List.flatMap_cons, Span.tokens_render (h s List.mem_cons_self),
      ih fun t ht => h t (List.mem_cons_of_mem _ ht)]

theorem unpainted_render {spans : List Span} (h : ∀ s ∈ spans, Clear s.text) :
    unpainted (render true spans) = render false spans := by
  rw [unpainted, tokens_render h, List.filterMap_flatMap, ← String.toList_inj, String.toList_ofList,
    toList_render_plain]
  simp only [Span.filterMap_char?_tokens]

theorem sequences_render {spans : List Span} (h : ∀ s ∈ spans, Clear s.text) :
    sequences (render true spans) = spans.flatMap Span.sequences := by
  rw [sequences, tokens_render h, List.filterMap_flatMap]
  simp only [Span.filterMap_digits?_tokens]

theorem paired_sequences (spans : List Span) : Paired (spans.flatMap Span.sequences) := by
  induction spans with
  | nil => exact .nil
  | cons s spans ih =>
    rw [List.flatMap_cons]
    refine Paired.append ?_ ih
    cases s with
    | plain s => exact .nil
    | painted p s => exact .cons p.digits_ne_reset .nil

theorem clear_render {spans : List Span} (h : ∀ s ∈ spans, Clear s.text) :
    Clear (render false spans) := by
  rw [Clear, toList_render_plain, List.mem_flatMap]
  rintro ⟨s, hs, hmem⟩
  exact h s hs hmem

/-! ### Clear texts -/

@[simp] theorem clear_append {s t : String} : Clear (s ++ t) ↔ Clear s ∧ Clear t := by
  rw [Clear, String.toList_append, List.mem_append, not_or, Clear, Clear]

@[simp] theorem clear_toString {s : String} : Clear (toString s) ↔ Clear s := Iff.rfl

@[simp] theorem clear_repr (n : Nat) : Clear n.repr := by
  intro h
  rw [Nat.repr_eq_ofList_toDigits, String.toList_ofList] at h
  exact absurd (Nat.isDigit_of_mem_toDigits (by decide) (by decide) h) (by decide)

theorem clear_intercalate {separator : String} (hseparator : Clear separator) {l : List String}
    (h : ∀ s ∈ l, Clear s) : Clear (separator.intercalate l) := by
  rw [Clear, String.toList_intercalate]
  induction l with
  | nil => exact List.not_mem_nil
  | cons s l ih =>
    obtain ⟨hs, hl⟩ := List.forall_mem_cons.1 h
    cases l with
    | nil => rwa [List.map_singleton, List.intercalate_singleton]
    | cons t l =>
      rw [List.map_cons, List.map_cons, List.intercalate_cons_cons, List.mem_append,
        List.mem_append, not_or, not_or]
      exact ⟨⟨hs, hseparator⟩, ih hl⟩

theorem clear_location {l : Location} (h : Clear l.file) : Clear l.text := by
  have hfile : Clear l.shownFile := by
    intro hmem
    rw [Location.shownFile, forwardSlashes, String.toList_map, List.mem_map] at hmem
    obtain ⟨c, hc, heq⟩ := hmem
    split at heq
    · exact absurd heq (by decide)
    · exact h (heq ▸ hc)
  simp +decide [Location.text, hfile]

/-! ### Lines -/

theorem subset_of_mem_splitOn {p : Char → Bool} {cs l : List Char} (h : l ∈ Text.splitOn p cs) :
    l ⊆ cs := by
  induction cs generalizing l with
  | nil =>
    rw [Text.splitOn, List.mem_singleton] at h
    exact h ▸ List.Subset.refl _
  | cons c cs ih =>
    rw [Text.splitOn] at h
    split at h
    · rcases List.mem_cons.1 h with rfl | h
      · exact List.nil_subset _
      · exact List.subset_cons_of_subset c (ih h)
    split at h
    · rw [List.mem_singleton.1 h]
      exact List.cons_subset_cons c (List.nil_subset cs)
    · next w ws heq =>
      rw [heq] at ih
      rcases List.mem_cons.1 h with rfl | h
      · exact List.cons_subset_cons c (ih List.mem_cons_self)
      · exact List.subset_cons_of_subset c (ih (List.mem_cons_of_mem _ h))

theorem dropReturn_subset (l : List Char) : Text.dropReturn l ⊆ l := by
  rw [Text.dropReturn]
  split
  · next rest heq =>
    intro c hc
    rw [← List.mem_reverse, heq]
    exact List.mem_cons_of_mem _ (List.mem_reverse.1 hc)
  · exact List.Subset.refl l

/-- A line holds characters of its text. -/
theorem subset_of_mem_lines {cs l : List Char} (h : l ∈ Text.lines cs) : l ⊆ cs := by
  rw [Text.lines] at h
  split at h
  · cases h
  · next last ended heq =>
    have hpieces : ∀ w, w = last ∨ w ∈ ended → w ⊆ cs := by
      intro w hw
      rw [← List.mem_cons, ← heq, List.mem_reverse] at hw
      exact subset_of_mem_splitOn hw
    have hended : l ∈ (ended.map Text.dropReturn).reverse → l ⊆ cs := by
      intro hl
      obtain ⟨w, hw, rfl⟩ := List.mem_map.1 (List.mem_reverse.1 hl)
      exact List.Subset.trans (dropReturn_subset w) (hpieces w (.inr hw))
    dsimp only at h
    split at h
    · exact hended h
    · rcases List.mem_append.1 h with h | h
      · exact hended h
      · exact hpieces l (.inl (List.mem_singleton.1 h))

/-! ### Clear spans -/

/-- No span of the list has a control character in its text. -/
def AllClear (spans : List Span) : Prop := ∀ s ∈ spans, Clear s.text

@[simp] theorem allClear_nil : AllClear [] := List.forall_mem_nil _

@[simp] theorem allClear_plain {s : String} {spans : List Span} :
    AllClear (.plain s :: spans) ↔ Clear s ∧ AllClear spans := List.forall_mem_cons

@[simp] theorem allClear_painted {p : Paint} {s : String} {spans : List Span} :
    AllClear (.painted p s :: spans) ↔ Clear s ∧ AllClear spans := List.forall_mem_cons

@[simp] theorem allClear_append {l m : List Span} :
    AllClear (l ++ m) ↔ AllClear l ∧ AllClear m := List.forall_mem_append

theorem allClear_flatMap {α : Type} {f : α → List Span} {l : List α}
    (h : ∀ x ∈ l, AllClear (f x)) : AllClear (l.flatMap f) := by
  intro s hs
  obtain ⟨x, hx, hmem⟩ := List.mem_flatMap.1 hs
  exact h x hx s hmem

theorem allClear_joinSpans {separator : String} (hseparator : Clear separator) {spans : List Span}
    (h : AllClear spans) : AllClear (joinSpans separator spans) := by
  fun_induction joinSpans separator spans with
  | case1 => exact h
  | case2 => exact h
  | case3 s t rest ih =>
    obtain ⟨hs, hrest⟩ := List.forall_mem_cons.1 h
    exact List.forall_mem_cons.2 ⟨hs, allClear_plain.2 ⟨hseparator, ih hrest⟩⟩

theorem allClear_markedLines {mark text : String} (hmark : Clear mark) (htext : Clear text) :
    AllClear (markedLines mark text) := by
  intro s hs
  obtain ⟨l, hl, rfl⟩ := List.mem_map.1 hs
  have hline : Clear (String.ofList l) := by
    rw [Clear, String.toList_ofList]
    exact fun hmem => htext (subset_of_mem_lines hl hmem)
  simp +decide [Span.text, hmark, hline]

theorem allClear_numbered {indent : String} (hindent : Clear indent) (n : Nat) {l : List String}
    (h : ∀ s ∈ l, Clear s) : AllClear (numbered indent n l) := by
  induction l generalizing n with
  | nil => exact allClear_nil
  | cons s l ih =>
    obtain ⟨hs, hl⟩ := List.forall_mem_cons.1 h
    simp +decide [numbered, hindent, hs, ih (n + 1) hl]

/-! ### The texts of a report -/

end Terminal

/-- What an issue says. -/
def Issue.texts (i : Issue) : List String :=
  [i.rule, i.message, i.location.file, i.suggestion] ++
    (i.sample.map fun e => [e.before, e.after]).getD []

/-- What a report says, in whichever arrangement. -/
def Report.texts (r : Report) : List String :=
  ([.category, .severity, .file].flatMap fun grouping =>
    (r.groups grouping).flatMap fun g => g.1 :: g.2.flatMap Issue.texts) ++ r.recommendations

namespace Terminal

theorem allClear_issue {i : Issue} (h : ∀ s ∈ i.texts, Clear s) : AllClear (issue i) := by
  have hicon : Clear (icon i.severity) := by cases i.severity <;> decide
  have hshout : Clear (shout i.severity) := by cases i.severity <;> decide
  have hlabel : Clear i.category.label := by cases i.category <;> decide
  simp only [Issue.texts, List.forall_mem_append, List.forall_mem_cons] at h
  obtain ⟨⟨hrule, hmessage, hfile, hsuggestion, -⟩, hsample⟩ := h
  have hlocation := clear_location hfile
  simp +decide only [issue, allClear_append, allClear_plain, allClear_painted, allClear_nil,
    clear_append, clear_toString, hicon, hshout, hlabel, hrule, hmessage, hlocation, and_true,
    true_and]
  constructor
  · split
    · exact allClear_nil
    · simp +decide [hsuggestion]
  · cases hi : i.sample with
    | none => exact allClear_nil
    | some e =>
      rw [hi] at hsample
      have hbefore : Clear e.before := hsample _ List.mem_cons_self
      have hafter : Clear e.after := hsample _ (List.mem_cons_of_mem _ List.mem_cons_self)
      exact allClear_append.2 ⟨allClear_markedLines (by decide) hbefore,
        allClear_markedLines (by decide) hafter⟩

theorem allClear_group {g : String × List Issue} (hlabel : Clear g.1)
    (h : ∀ i ∈ g.2, ∀ s ∈ i.texts, Clear s) : AllClear (group g) := by
  have hissues := allClear_flatMap fun i hi => allClear_issue (h i hi)
  simp +decide [group, hlabel, hissues]

theorem allClear_summary (s : Summary) : AllClear (summary s) := by
  have hseverities : AllClear (s.bySeverity.map fun c =>
      Span.painted (paintOf c.1) s!"{c.2} {c.1.label}") := by
    rw [AllClear, List.forall_mem_map]
    rintro ⟨severity, n⟩ -
    have hlabel : Clear severity.label := by cases severity <;> decide
    simp +decide [Span.text, hlabel]
  have hcategories : Clear (", ".intercalate ((s.byCategory.filter fun c => c.2 > 0).map
      fun c => s!"{c.1.label}={c.2}")) := by
    refine clear_intercalate (by decide) ?_
    rw [List.forall_mem_map]
    rintro ⟨category, n⟩ -
    have hlabel : Clear category.label := by cases category <;> decide
    simp +decide [hlabel]
  have hcomma : Clear ", " := by decide
  have hjoined := allClear_joinSpans hcomma hseverities
  rw [summary]
  refine allClear_append.2 ⟨allClear_append.2 ⟨allClear_append.2 ⟨?_, hjoined⟩, ?_⟩, ?_⟩
  · simp +decide
  · simp +decide
  · split
    · exact allClear_nil
    · exact allClear_plain.2 ⟨by simpa +decide using hcategories, allClear_nil⟩

theorem allClear_recommendations {advice : List String} (h : ∀ s ∈ advice, Clear s) :
    AllClear (recommendations advice) := by
  have hindent : Clear "  " := by decide
  have hnumbered := allClear_numbered hindent 1 h
  rw [recommendations]
  split
  · exact allClear_nil
  · simp +decide [hnumbered]

/-- A report shows control characters only where its texts hold them. -/
theorem allClear_report {r : Report} (h : ∀ s ∈ r.texts, Clear s) (grouping : Grouping) :
    AllClear (report r grouping) := by
  obtain ⟨hgroups, hadvice⟩ := List.forall_mem_append.1 h
  have hgrouping : grouping ∈ [Grouping.category, .severity, .file] := by
    cases grouping <;> decide
  have hall : ∀ g ∈ r.groups grouping, ∀ s ∈ g.1 :: g.2.flatMap Issue.texts, Clear s :=
    fun g hg s hs => hgroups s
      (List.mem_flatMap_of_mem hgrouping (List.mem_flatMap_of_mem hg hs))
  have hshown : AllClear ((r.groups grouping).flatMap group) :=
    allClear_flatMap fun g hg => allClear_group (hall g hg _ List.mem_cons_self)
      fun i hi s hs => hall g hg s (List.mem_cons_of_mem _ (List.mem_flatMap_of_mem hi hs))
  rw [report, allClear_append, allClear_append]
  exact ⟨⟨hshown, allClear_summary r.summary⟩, allClear_recommendations hadvice⟩

/-- **Painting a report adds control sequences, in pairs, and nothing else.** -/
theorem export_unpainted (r : Report) (grouping : Grouping) (h : ∀ s ∈ r.texts, Clear s) :
    unpainted (ReportFormat.text.render r grouping true) =
        ReportFormat.text.render r grouping false ∧
      Clear (ReportFormat.text.render r grouping false) ∧
      Paired (sequences (ReportFormat.text.render r grouping true)) := by
  have hclear := allClear_report h grouping
  refine ⟨unpainted_render hclear, clear_render hclear, ?_⟩
  rw [ReportFormat.render, sequences_render hclear]
  exact paired_sequences _

/-- A message may hold what follows the first character of a sequence, and a sample many lines. -/
theorem export_unpainted_bracket :
    let r : Report :=
      .of [⟨"a/b", .critical, .accessibility, "[31m", ⟨"c\\d.css", ⟨7, 12⟩⟩, "e",
          some ⟨"f\r\ng", "[0m"⟩⟩,
        ⟨"h/hardcoded-i", .minor, .naming, "[", ⟨"j.css", .start⟩, "", none⟩] 3
    (∀ s ∈ r.texts, Clear s) ∧
      unpainted (ReportFormat.text.render r .file true) = ReportFormat.text.render r .file false ∧
      Clear (ReportFormat.text.render r .file false) ∧
      Paired (sequences (ReportFormat.text.render r .file true)) := by
  intro r
  have hclear : ∀ s ∈ r.texts, Clear s := by decide +kernel
  exact ⟨hclear, export_unpainted r .file hclear⟩

end Terminal
end SheetAudit
