import Mathlib
import SheetAudit.Proofs.Spans

/-!
# Which bytes are comments

A reading of the bytes of a source text from its start tells what is a comment: the offsets that it
comes to outside strings and comments are described here by an inductive predicate, without the
scan.  A comment begins at such an offset, and exactly the bytes of comments are blanked out.

## Main definitions

* `Has`, `First`, `LineEnds` — where bytes stand, where they stand first, where a line ends.
* `StringEnds`, `Outside` — the end of a string, and the offsets outside strings and comments.
* `IsComment` — the range of a comment.
* `Unclosed` — a block comment opens that is never closed.
* `Blanked` — some bytes with spaces in some ranges, newlines kept.
* `Tells` — what a comment says, and where.
* `Accounted` — the ranges of the comments of a text, with the blanked text and its comments.

## Main results

* `mem_commentSpans_iff` — the scan finds the comments and nothing else.
* `commentSpans_eq_error_iff` — it fails exactly where a block comment is never closed.
* `Outside.blank_before` — on a line without code there are blanks and comments only.
* `comments_blanked` — **exactly the comments are blanked out and listed, unless one is never
  closed.**
-/

namespace SheetAudit
namespace Offsets

open Source

/-! ### Where bytes stand -/

/-- Some bytes stand at an offset. -/
def Has (bs : List UInt8) (i : Nat) (word : List UInt8) : Prop := word <+: bs.drop i

/-- What opens a block comment. -/
def opener : List UInt8 := ['/'.toUInt8, '*'.toUInt8]

/-- What closes a block comment. -/
def closer : List UInt8 := ['*'.toUInt8, '/'.toUInt8]

/-- What opens a line comment. -/
def slashes : List UInt8 := ['/'.toUInt8, '/'.toUInt8]

def newline : UInt8 := '\n'.toUInt8

/-- The first offset from `start` on at which some bytes stand. -/
structure First (bs : List UInt8) (start : Nat) (word : List UInt8) (n : Nat) : Prop where
  le : start ≤ n
  has : Has bs n word
  least : ∀ m, start ≤ m → m < n → ¬ Has bs m word

/-- A line goes on from `start` to the newline or the end of the text at `n`. -/
structure LineEnds (bs : List UInt8) (start n : Nat) : Prop where
  le : start ≤ n
  inside : ∀ m, start ≤ m → m < n → bs[m]? ≠ some newline
  ends : n = bs.length ∨ bs[n]? = some newline

theorem has_pair_iff {bs : List UInt8} {i : Nat} {a b : UInt8} :
    Has bs i [a, b] ↔ bs[i]? = some a ∧ bs[i + 1]? = some b := by
  rw [Has, ← List.head?_drop, ← List.head?_drop, ← List.drop_drop]
  rcases bs.drop i with _ | ⟨c, _ | ⟨d, cs⟩⟩
  · simp
  · simp [List.cons_prefix_cons]
  · simp [List.cons_prefix_cons, eq_comm (a := a), eq_comm (a := b)]

theorem has_singleton_iff {bs : List UInt8} {i : Nat} {a : UInt8} :
    Has bs i [a] ↔ bs[i]? = some a := by
  rw [Has, ← List.head?_drop]
  rcases bs.drop i with _ | ⟨c, cs⟩
  · simp
  · simp [List.cons_prefix_cons, eq_comm (a := a)]

theorem Has.lt {bs word : List UInt8} {i : Nat} (h : Has bs i word) (hne : word ≠ []) :
    i + word.length ≤ bs.length := by
  have hle := h.length_le
  have hpos := List.length_pos_iff.2 hne
  rw [List.length_drop] at hle
  omega

theorem findFrom_eq_some {offset n : Nat} {word bs : List UInt8}
    (h : findFrom offset word bs = some n) : ∃ k, n = offset + k ∧ First bs 0 word k := by
  induction bs generalizing offset with
  | nil => cases h
  | cons b bs ih =>
    rw [findFrom] at h
    split at h
    · next hhere =>
      refine ⟨0, (Option.some.inj h).symm, Nat.le_refl 0, List.isPrefixOf_iff_prefix.1 hhere, ?_⟩
      exact fun m _ hm => absurd hm (Nat.not_lt_zero m)
    · next hhere =>
      obtain ⟨k, rfl, hk⟩ := ih h
      refine ⟨k + 1, by omega, Nat.zero_le _, hk.has, fun m _ hm => ?_⟩
      cases m with
      | zero => exact fun hhas => hhere (List.isPrefixOf_iff_prefix.2 hhas)
      | succ m => exact hk.least m (Nat.zero_le m) (Nat.lt_of_succ_lt_succ hm)

theorem findFrom_eq_none {offset : Nat} {word bs : List UInt8} (hne : word ≠ [])
    (h : findFrom offset word bs = none) (k : Nat) : ¬ Has bs k word := by
  induction bs generalizing offset k with
  | nil =>
    rw [Has, List.drop_nil, List.prefix_nil]
    exact hne
  | cons b bs ih =>
    rw [findFrom] at h
    split at h
    · cases h
    · next hhere =>
      cases k with
      | zero => exact fun hhas => hhere (List.isPrefixOf_iff_prefix.2 hhas)
      | succ k => exact ih h k

theorem find?_eq_some {bs word : List UInt8} {start n : Nat} (h : find? bs start word = some n) :
    First bs start word n := by
  obtain ⟨k, rfl, hk⟩ := findFrom_eq_some h
  refine ⟨Nat.le_add_right _ _, ?_, fun m hle hlt hhas => ?_⟩
  · rw [Has, ← List.drop_drop]
    exact hk.has
  · obtain ⟨j, rfl⟩ := Nat.exists_eq_add_of_le hle
    rw [Has, ← List.drop_drop] at hhas
    exact hk.least j (Nat.zero_le j) (Nat.lt_of_add_lt_add_left hlt) hhas

theorem find?_eq_none {bs word : List UInt8} {start : Nat} (hne : word ≠ [])
    (h : find? bs start word = none) : ∀ n, start ≤ n → ¬ Has bs n word := by
  intro n hle hhas
  obtain ⟨j, rfl⟩ := Nat.exists_eq_add_of_le hle
  rw [Has, ← List.drop_drop] at hhas
  exact findFrom_eq_none hne h j hhas

theorem First.find?_eq {bs word : List UInt8} {start n : Nat} (h : First bs start word n)
    (hne : word ≠ []) : find? bs start word = some n := by
  cases hfind : find? bs start word with
  | none => exact absurd h.has (find?_eq_none hne hfind n h.le)
  | some m =>
    have hm := find?_eq_some hfind
    rcases Nat.lt_trichotomy m n with hlt | rfl | hlt
    · exact absurd hm.has (h.least m hm.le hlt)
    · rfl
    · exact absurd h.has (hm.least n h.le hlt)

theorem find?_eq_none_of_not {bs word : List UInt8} {start : Nat}
    (h : ∀ n, start ≤ n → ¬ Has bs n word) : find? bs start word = none := by
  cases hfind : find? bs start word with
  | none => rfl
  | some n => exact absurd (find?_eq_some hfind).has (h n (find?_eq_some hfind).le)

/-- The end of a line is where a search for the next newline ends. -/
theorem lineEnds_iff {bs : List UInt8} {start n : Nat} (hstart : start ≤ bs.length) :
    LineEnds bs start n ↔ (find? bs start [newline]).getD bs.length = n := by
  have hne : [newline] ≠ [] := List.cons_ne_nil _ _
  cases hfind : find? bs start [newline] with
  | none =>
    have hnone : ∀ m, start ≤ m → bs[m]? ≠ some newline := fun m hm hhas =>
      find?_eq_none hne hfind m hm (has_singleton_iff.2 hhas)
    constructor
    · intro h
      exact (h.ends.resolve_right (hnone n h.le)).symm
    · rintro rfl
      exact ⟨hstart, fun m hm _ => hnone m hm, .inl rfl⟩
  | some k =>
    have hk := find?_eq_some hfind
    have hlt := hk.has.lt hne
    constructor
    · intro h
      rcases Nat.lt_trichotomy k n with hkn | rfl | hnk
      · exact absurd (has_singleton_iff.1 hk.has) (h.inside k hk.le hkn)
      · rfl
      · rcases h.ends with rfl | hn
        · rw [List.length_singleton] at hlt
          omega
        · exact absurd (has_singleton_iff.2 hn) (hk.least n h.le hnk)
    · rintro rfl
      exact ⟨hk.le, fun m hm hmk hhas => hk.least m hm hmk (has_singleton_iff.2 hhas),
        .inr (has_singleton_iff.1 hk.has)⟩

/-! ### Outside strings and comments -/

/-- A string that `q` has opened goes on at `i` and ends right before `j`: at the next `q` or
newline that no backslash escapes. -/
inductive StringEnds (bs : List UInt8) (q : UInt8) : (i j : Nat) → Prop where
  | close {i : Nat} {b : UInt8} (byte : bs[i]? = some b) (bare : b ≠ '\\'.toUInt8)
      (ends : b = q ∨ b = newline) : StringEnds bs q i (i + 1)
  | pass {i j : Nat} {b : UInt8} (byte : bs[i]? = some b) (bare : b ≠ '\\'.toUInt8)
      (inside : ¬ (b = q ∨ b = newline)) (rest : StringEnds bs q (i + 1) j) : StringEnds bs q i j
  | escape {i j : Nat} (byte : bs[i]? = some '\\'.toUInt8) (rest : StringEnds bs q (i + 2) j) :
      StringEnds bs q i j

/-- The offsets that a reading from the start comes to outside strings and comments; `code` tells
whether the line holds code already. -/
inductive Outside (bs : List UInt8) : (i : Nat) → (code : Bool) → Prop where
  | start : Outside bs 0 false
  | plain {i : Nat} {code : Bool} {b : UInt8} (before : Outside bs i code) (byte : bs[i]? = some b)
      (noQuote : isQuoteByte b = false) (noNewline : b ≠ newline) (noBlock : ¬ Has bs i opener)
      (noLine : ¬ (Has bs i slashes ∧ code = false)) : Outside bs (i + 1) (code || !isSpaceByte b)
  | newline {i : Nat} {code : Bool} (before : Outside bs i code)
      (byte : bs[i]? = some Offsets.newline) : Outside bs (i + 1) false
  | string {i j : Nat} {code : Bool} {q : UInt8} (before : Outside bs i code)
      (byte : bs[i]? = some q) (quote : isQuoteByte q = true) (ends : StringEnds bs q (i + 1) j) :
      Outside bs j true
  | block {i n : Nat} {code : Bool} (before : Outside bs i code) (opens : Has bs i opener)
      (closes : First bs (i + 2) closer n) : Outside bs (n + 2) code
  | line {i n : Nat} (before : Outside bs i false) (opens : Has bs i slashes)
      (ends : LineEnds bs i n) : Outside bs n false

/-- The range of a comment: from `/*` to right behind the next `*/` that does not overlap it, or
from `//` on a line without code to the end of the line. -/
inductive IsComment (bs : List UInt8) : Span → Prop where
  | block {i n : Nat} {code : Bool} (met : Outside bs i code) (opens : Has bs i opener)
      (closes : First bs (i + 2) closer n) : IsComment bs ⟨i, n + 2, true⟩
  | line {i n : Nat} (met : Outside bs i false) (opens : Has bs i slashes)
      (ends : LineEnds bs i n) : IsComment bs ⟨i, n, false⟩

/-- A block comment opens that is never closed. -/
structure Unclosed (bs : List UInt8) (i : Nat) : Prop where
  met : ∃ code, Outside bs i code
  opens : Has bs i opener
  open' : ∀ n, i + 2 ≤ n → ¬ Has bs n closer

/-- The range covers an offset. -/
def Span.Covers (s : Span) (i : Nat) : Prop := s.start ≤ i ∧ i < s.stop

instance (s : Span) (i : Nat) : Decidable (s.Covers i) := inferInstanceAs (Decidable (_ ∧ _))

theorem IsComment.bounds {bs : List UInt8} {s : Span} (h : IsComment bs s) :
    s.start + 2 ≤ s.stop ∧ s.stop ≤ bs.length := by
  cases h with
  | block _ _ closes =>
    have := closes.le
    have := closes.has.lt (List.cons_ne_nil _ _)
    simp only [closer, List.length_cons, List.length_nil] at this
    constructor <;> dsimp only <;> omega
  | @line i n met opens ends =>
    obtain ⟨h₀, h₁⟩ := has_pair_iff.1 opens
    have hlt := opens.lt (List.cons_ne_nil _ _)
    simp only [slashes, List.length_cons, List.length_nil] at hlt
    have hne : some '/'.toUInt8 ≠ some newline := by decide
    have hle := ends.le
    -- neither slash ends the line
    have hn₀ : n ≠ i := by
      rintro rfl
      exact ends.ends.elim (fun h => by omega) fun h => hne (h₀.symm.trans h)
    have hn₁ : n ≠ i + 1 := by
      rintro rfl
      exact ends.ends.elim (fun h => by omega) fun h => hne (h₁.symm.trans h)
    have hn : n ≤ bs.length := by
      rcases ends.ends with h | h
      · exact Nat.le_of_eq h
      · exact Nat.le_of_lt (List.getElem?_eq_some_iff.1 h).1
    constructor <;> dsimp only <;> omega

/-- On a line without code there are blanks and comments only. -/
theorem Outside.blank_before {bs : List UInt8} {i : Nat} (h : Outside bs i false) :
    ∀ k, k < i → (∀ m, k ≤ m → m < i → bs[m]? ≠ some Offsets.newline) →
      (∃ b, bs[k]? = some b ∧ isSpaceByte b = true) ∨ ∃ s, IsComment bs s ∧ s.Covers k := by
  generalize hcode : false = code at h
  induction h with
  | start => exact fun k hk => absurd hk (Nat.not_lt_zero k)
  | @plain i code b before byte _ _ _ _ ih =>
    obtain ⟨rfl, hspace⟩ : code = false ∧ isSpaceByte b = true := by simpa using hcode.symm
    intro k hk hline
    rcases Nat.lt_succ_iff_lt_or_eq.1 hk with hlt | rfl
    · exact ih rfl k hlt fun m hm hmi => hline m hm (Nat.lt_succ_of_lt hmi)
    · exact .inl ⟨b, byte, hspace⟩
  | @newline i code before byte ih =>
    exact fun k hk hline => absurd byte (hline i (Nat.lt_succ_iff.1 hk) (Nat.lt_succ_self i))
  | string => cases hcode
  | @block i n code before opens closes ih =>
    subst hcode
    intro k hk hline
    have hle := closes.le
    rcases Nat.lt_or_ge k i with hlt | hge
    · exact ih rfl k hlt fun m hm hmi => hline m hm (by omega)
    · exact .inr ⟨_, .block before opens closes, hge, hk⟩
  | @line i n before opens ends ih =>
    intro k hk hline
    have hle := ends.le
    rcases Nat.lt_or_ge k i with hlt | hge
    · exact ih rfl k hlt fun m hm hmi => hline m hm (by omega)
    · exact .inr ⟨_, .line before opens ends, hge, hk⟩

/-! ### The scan, step by step -/

section

variable {bs : List UInt8} {i j n : Nat} {code : Bool}

theorem StringEnds.commentSpansFrom_eq {q : UInt8} (h : StringEnds bs q i j) (code : Bool) :
    commentSpansFrom bs i (some q) code = commentSpansFrom bs j none code := by
  induction h with
  | close byte bare ends =>
    rw [commentSpansFrom_quoted byte, if_neg (by simpa using bare),
      if_pos (by simpa [newline] using ends)]
  | pass byte bare inside _ ih =>
    rw [commentSpansFrom_quoted byte, if_neg (by simpa using bare),
      if_neg (by simpa [newline] using inside), ih]
  | escape byte _ ih => rw [commentSpansFrom_quoted byte, if_pos (beq_self_eq_true _), ih]

theorem commentSpansFrom_opener (h : Has bs i opener) (code : Bool) :
    commentSpansFrom bs i none code =
      match find? bs (i + 2) closer with
      | none => do throw (.broken (.unterminatedComment (← lineOf bs i)))
      | some stop =>
        (commentSpansFrom bs (stop + 2) none code).map (⟨i, stop + 2, true⟩ :: ·) := by
  obtain ⟨h₀, h₁⟩ := has_pair_iff.1 h
  rw [commentSpansFrom_none h₀, if_neg (by decide), h₁, if_pos (by decide)]
  rfl

/-- The scan goes on behind a block comment. -/
theorem First.commentSpansFrom_eq (closes : First bs (i + 2) closer n) (opens : Has bs i opener)
    (code : Bool) :
    commentSpansFrom bs i none code =
      (commentSpansFrom bs (n + 2) none code).map (⟨i, n + 2, true⟩ :: ·) := by
  rw [commentSpansFrom_opener opens, closes.find?_eq (List.cons_ne_nil _ _)]

/-- The scan goes on behind a line comment. -/
theorem LineEnds.commentSpansFrom_eq (ends : LineEnds bs i n) (opens : Has bs i slashes) :
    commentSpansFrom bs i none false =
      (commentSpansFrom bs n none false).map (⟨i, n, false⟩ :: ·) := by
  obtain ⟨h₀, h₁⟩ := has_pair_iff.1 opens
  have hi : i ≤ bs.length := Nat.le_of_add_right_le (opens.lt (List.cons_ne_nil _ _))
  obtain rfl := (lineEnds_iff hi).1 ends
  rw [commentSpansFrom_none h₀, if_neg (by decide), h₁, if_neg (by decide), if_pos (by decide)]
  rfl

theorem commentSpansFrom_other {b : UInt8} (byte : bs[i]? = some b)
    (noQuote : isQuoteByte b = false) (noNewline : b ≠ newline) (noBlock : ¬ Has bs i opener)
    (noLine : ¬ (Has bs i slashes ∧ code = false)) :
    commentSpansFrom bs i none code =
      commentSpansFrom bs (i + 1) none (code || !isSpaceByte b) := by
  have hblock : ¬ (b == '/'.toUInt8 && bs[i + 1]? == some '*'.toUInt8) = true := by
    rw [Bool.and_eq_true, beq_iff_eq, beq_iff_eq]
    rintro ⟨rfl, hnext⟩
    exact noBlock (has_pair_iff.2 ⟨byte, hnext⟩)
  have hline : ¬ (b == '/'.toUInt8 && bs[i + 1]? == some '/'.toUInt8 && !code) = true := by
    rw [Bool.and_eq_true, Bool.and_eq_true, beq_iff_eq, beq_iff_eq, Bool.not_eq_true']
    rintro ⟨⟨rfl, hnext⟩, hcode⟩
    exact noLine ⟨has_pair_iff.2 ⟨byte, hnext⟩, hcode⟩
  rw [commentSpansFrom_none byte, noQuote, if_neg Bool.false_ne_true, if_neg hblock,
    if_neg hline, if_neg (by simpa [newline] using noNewline)]

/-- The number of the line of an offset. -/
def lineAt (bs : List UInt8) (i : Nat) : Nat := (bs.take i).count newline + 1

theorem lineOf_eq (h : i ≤ bs.length) : lineOf bs i = .ok (lineAt bs i) := by
  rw [lineOf, bytesBefore, Nat.min_eq_left h, if_pos h]
  rfl

theorem Unclosed.commentSpansFrom_eq (h : Unclosed bs i) (code : Bool) :
    commentSpansFrom bs i none code =
      .error (.broken (.unterminatedComment (lineAt bs i))) := by
  have hlt := h.opens.lt (List.cons_ne_nil _ _)
  rw [commentSpansFrom_opener h.opens, find?_eq_none_of_not h.open', lineOf_eq (by omega)]
  rfl

end

/-! ### What the scan finds -/

/-- Where the scan stands: outside strings and comments, or in a string behind which it will. -/
def Standing (bs : List UInt8) (i : Nat) (code : Bool) : Option UInt8 → Prop
  | none => Outside bs i code
  | some q => ∀ j, StringEnds bs q i j → Outside bs j code

/-- Ranges that lie apart from each other, in order, none before an offset. -/
structure Apart (i : Nat) (spans : List Span) : Prop where
  le : ∀ s ∈ spans, i ≤ s.start
  pairwise : spans.Pairwise fun s t => s.stop ≤ t.start

theorem Apart.cons {i : Nat} {s : Span} {spans : List Span} (hi : i ≤ s.start)
    (hs : s.start ≤ s.stop) (h : Apart s.stop spans) : Apart i (s :: spans) where
  le := List.forall_mem_cons.2 ⟨hi, fun t ht => by have := h.le t ht; omega⟩
  pairwise := List.pairwise_cons.2 ⟨h.le, h.pairwise⟩

theorem Apart.mono {i j : Nat} {spans : List Span} (h : Apart j spans) (hij : i ≤ j) :
    Apart i spans :=
  ⟨fun s hs => Nat.le_trans hij (h.le s hs), h.pairwise⟩

/-- What a scan from an offset on leads to: comments that lie apart, or one that is never closed. -/
def Finds (bs : List UInt8) (i : Nat) : Except Halt (List Span) → Prop
  | .ok spans => (∀ s ∈ spans, IsComment bs s) ∧ Apart i spans
  | .error e => ∃ k, Unclosed bs k ∧ e = .broken (.unterminatedComment (lineAt bs k))

theorem Finds.mono {bs : List UInt8} {i j : Nat} {found : Except Halt (List Span)}
    (h : Finds bs j found) (hij : i ≤ j) : Finds bs i found := by
  cases found with
  | ok spans => exact ⟨h.1, h.2.mono hij⟩
  | error e => exact h

theorem Finds.cons {bs : List UInt8} {s : Span} {found : Except Halt (List Span)}
    (hs : IsComment bs s) (h : Finds bs s.stop found) : Finds bs s.start (found.map (s :: ·)) := by
  have hbounds := hs.bounds
  cases found with
  | ok spans =>
    exact ⟨List.forall_mem_cons.2 ⟨hs, h.1⟩, h.2.cons (Nat.le_refl _) (by omega)⟩
  | error e => exact h

/-- A scan that stands at an offset finds comments behind it only. -/
theorem finds_commentSpansFrom {bs : List UInt8} {i : Nat} {quote : Option UInt8} {code : Bool}
    (h : Standing bs i code quote) : Finds bs i (commentSpansFrom bs i quote code) := by
  induction hn : bs.length - i using Nat.strongRecOn generalizing i quote code with
  | _ n ih =>
    cases hbyte : bs[i]? with
    | none =>
      rw [commentSpansFrom_of_le (List.getElem?_eq_none_iff.1 hbyte)]
      exact ⟨fun s hs => absurd hs List.not_mem_nil, fun s hs => absurd hs List.not_mem_nil, .nil⟩
    | some b =>
      have hi := (List.getElem?_eq_some_iff.1 hbyte).1
      cases quote with
      | some q =>
        rw [commentSpansFrom_quoted hbyte]
        split
        · next hb =>
          rw [eq_of_beq hb] at hbyte
          refine (ih _ (by omega) ?_ rfl).mono (Nat.le_add_right i 2)
          exact fun j hj => h j (.escape hbyte hj)
        · next hb =>
          have hb : b ≠ '\\'.toUInt8 := by simpa using hb
          refine (ih _ (by omega) ?_ rfl).mono (Nat.le_add_right i 1)
          by_cases hends : b = q ∨ b = newline
          · rw [if_pos (by simpa [newline] using hends)]
            exact h _ (.close hbyte hb hends)
          · rw [if_neg (by simpa [newline] using hends)]
            exact fun j hj => h j (.pass hbyte hb hends hj)
      | none =>
        have h : Outside bs i code := h
        have next {j : Nat} {code : Bool} (hj : i < j) (h : Outside bs j code) :
            Finds bs j (commentSpansFrom bs j none code) :=
          ih (bs.length - j) (by omega) h rfl
        by_cases hquote : isQuoteByte b = true
        · rw [commentSpansFrom_none hbyte, if_pos hquote]
          refine (ih _ (by omega) ?_ rfl).mono (Nat.le_add_right i 1)
          exact fun j hj => h.string hbyte hquote hj
        by_cases hopener : Has bs i opener
        · cases hfind : find? bs (i + 2) closer with
          | none =>
            have hopen : Unclosed bs i :=
              ⟨⟨code, h⟩, hopener, find?_eq_none (List.cons_ne_nil _ _) hfind⟩
            rw [hopen.commentSpansFrom_eq]
            exact ⟨i, hopen, rfl⟩
          | some stop =>
            have hfirst := find?_eq_some hfind
            have hlt : i < stop + 2 := by
              have hle := hfirst.le
              omega
            rw [hfirst.commentSpansFrom_eq hopener]
            exact Finds.cons (.block h hopener hfirst) (next hlt (h.block hopener hfirst))
        by_cases hslashes : Has bs i slashes ∧ code = false
        · obtain ⟨hslashes, rfl⟩ := hslashes
          have hends := (lineEnds_iff (Nat.le_of_lt hi)).2 rfl
          have hcomment : IsComment bs _ := .line h hslashes hends
          have hlt : i < _ := Nat.lt_of_succ_lt hcomment.bounds.1
          rw [hends.commentSpansFrom_eq hslashes]
          exact Finds.cons hcomment (next hlt (h.line hslashes hends))
        by_cases hnewline : b = newline
        · subst hnewline
          have hstep : commentSpansFrom bs i none code = commentSpansFrom bs (i + 1) none false := by
            rw [commentSpansFrom_none hbyte]
            rfl
          rw [hstep]
          exact (next (Nat.lt_succ_self i) (h.newline hbyte)).mono (Nat.le_add_right i 1)
        · have hquote : isQuoteByte b = false := by simpa using hquote
          rw [commentSpansFrom_other hbyte hquote hnewline hopener hslashes]
          exact (next (Nat.lt_succ_self i) (h.plain hbyte hquote hnewline hopener hslashes)).mono
            (Nat.le_add_right i 1)

theorem map_append_cons (front : List Span) (s : Span) (found : Except Halt (List Span)) :
    (found.map (s :: ·)).map (front ++ ·) = found.map fun more => front ++ s :: more := by
  cases found <;> rfl

/-- The scan comes to every offset outside strings and comments, whatever it has found before. -/
theorem Outside.exists_map {bs : List UInt8} {i : Nat} {code : Bool} (h : Outside bs i code) :
    ∃ front, commentSpans bs = (commentSpansFrom bs i none code).map (front ++ ·) := by
  induction h with
  | start =>
    refine ⟨[], ?_⟩
    rw [commentSpans]
    cases commentSpansFrom bs 0 none false <;> rfl
  | plain before byte noQuote noNewline noBlock noLine ih =>
    rwa [← commentSpansFrom_other byte noQuote noNewline noBlock noLine]
  | newline before byte ih =>
    rw [commentSpansFrom_none byte] at ih
    exact ih
  | string before byte quote ends ih =>
    rwa [commentSpansFrom_none byte, if_pos quote, ends.commentSpansFrom_eq] at ih
  | block before opens closes ih =>
    obtain ⟨front, hfront⟩ := ih
    rw [closes.commentSpansFrom_eq opens, map_append_cons] at hfront
    exact ⟨front ++ [_], by simpa using hfront⟩
  | line before opens ends ih =>
    obtain ⟨front, hfront⟩ := ih
    rw [ends.commentSpansFrom_eq opens, map_append_cons] at hfront
    exact ⟨front ++ [_], by simpa using hfront⟩

/-- The scan comes to a comment, finds it and goes on. -/
theorem IsComment.exists_map {bs : List UInt8} {s : Span} (h : IsComment bs s) :
    ∃ front rest, commentSpans bs = Except.map (fun more => front ++ s :: more) rest := by
  cases h with
  | block met opens closes =>
    obtain ⟨front, hfront⟩ := met.exists_map
    rw [closes.commentSpansFrom_eq opens, map_append_cons] at hfront
    exact ⟨front, _, hfront⟩
  | line met opens ends =>
    obtain ⟨front, hfront⟩ := met.exists_map
    rw [ends.commentSpansFrom_eq opens, map_append_cons] at hfront
    exact ⟨front, _, hfront⟩

/-- The scan finds the comments and nothing else. -/
theorem mem_commentSpans_iff {bs : List UInt8} {spans : List Span}
    (h : commentSpans bs = .ok spans) (s : Span) : s ∈ spans ↔ IsComment bs s := by
  have hfinds : Finds bs 0 (commentSpans bs) := finds_commentSpansFrom .start
  constructor
  · rw [h] at hfinds
    exact hfinds.1 s
  · intro hs
    obtain ⟨front, rest, hrest⟩ := hs.exists_map
    rw [h] at hrest
    cases rest with
    | error e => cases hrest
    | ok rest =>
      rw [Except.ok.inj hrest]
      exact List.mem_append_right _ List.mem_cons_self

/-- The scan fails exactly where a block comment is never closed. -/
theorem commentSpans_eq_error_iff {bs : List UInt8} {e : Halt} :
    commentSpans bs = .error e ↔
      ∃ i, Unclosed bs i ∧ e = .broken (.unterminatedComment (lineAt bs i)) := by
  have hfinds : Finds bs 0 (commentSpans bs) := finds_commentSpansFrom .start
  constructor
  · intro h
    rw [h] at hfinds
    exact hfinds
  · rintro ⟨i, hopen, rfl⟩
    obtain ⟨code, met⟩ := hopen.met
    obtain ⟨front, hfront⟩ := met.exists_map
    rw [hfront, hopen.commentSpansFrom_eq]
    rfl

/-! ### Blanking ranges -/

theorem blankByte_blankByte (b : UInt8) : blankByte (blankByte b) = blankByte b := by
  by_cases h : (b == '\n'.toUInt8) = true
  · simp only [blankByte, if_pos h]
  · simp only [blankByte, if_neg h]
    rfl

theorem getElem?_blankBytes {bs out : List UInt8} {start stop : Nat}
    (h : blankBytes bs start stop = .ok out) (i : Nat) :
    out[i]? = if start ≤ i ∧ i < stop then bs[i]?.map blankByte else bs[i]? := by
  rw [blankBytes] at h
  split at h
  · next hle =>
    obtain rfl := Except.ok.inj h
    have hstart : (bs.take start).length = start := List.length_take_of_le (by omega)
    have hinner : (((bs.take (min stop bs.length)).drop start).map blankByte).length =
        min stop bs.length - start := by
      rw [List.length_map, List.length_drop, List.length_take_of_le (by omega)]
    rw [List.append_assoc, List.getElem?_append, hstart]
    by_cases h₁ : i < start
    · rw [if_pos h₁, if_neg (by omega), List.getElem?_take_of_lt h₁]
    rw [if_neg h₁, List.getElem?_append, hinner]
    by_cases h₂ : i < min stop bs.length
    · rw [if_pos (by omega), if_pos (by omega), List.getElem?_map, List.getElem?_drop,
        Nat.add_sub_cancel' (by omega), List.getElem?_take_of_lt h₂]
    · rw [if_neg (by omega), List.getElem?_drop,
        show min stop bs.length + (i - start - (min stop bs.length - start)) = i by omega]
      split
      · rw [List.getElem?_eq_none (by omega)]
        rfl
      · rfl
  · cases h

/-- Some bytes with spaces in some ranges, newlines kept. -/
structure Blanked (bs : List UInt8) (spans : List Span) (out : List UInt8) : Prop where
  length_eq : out.length = bs.length
  newlines : ∀ i : Nat, bs[i]? = some newline → out[i]? = some newline
  outside : ∀ i : Nat, (∀ s ∈ spans, ¬ s.Covers i) → out[i]? = bs[i]?
  inside : ∀ (i : Nat) (b : UInt8), bs[i]? = some b → b ≠ newline → (∃ s ∈ spans, s.Covers i) →
    out[i]? = some ' '.toUInt8

/-- Which bytes are blanked out by the ranges together. -/
theorem getElem?_blankSpans {bs out : List UInt8} {spans : List Span}
    (h : blankSpans bs spans = .ok out) (i : Nat) :
    ((∃ s ∈ spans, s.Covers i) → out[i]? = bs[i]?.map blankByte) ∧
      ((∀ s ∈ spans, ¬ s.Covers i) → out[i]? = bs[i]?) := by
  induction spans generalizing bs with
  | nil =>
    obtain rfl := Except.ok.inj h
    exact ⟨fun ⟨s, hs, _⟩ => absurd hs List.not_mem_nil, fun _ => rfl⟩
  | cons s spans ih =>
    rw [blankSpans, List.foldlM_cons] at h
    obtain ⟨mid, hmid, hrest⟩ := exists_of_bind_eq_ok h
    have hbyte : mid[i]? = if s.Covers i then _ else _ := getElem?_blankBytes hmid i
    obtain ⟨hin, hout⟩ := ih hrest
    constructor
    · intro hcovers
      by_cases hs : s.Covers i
      · rw [if_pos hs] at hbyte
        by_cases hspans : ∃ t ∈ spans, t.Covers i
        · -- blanks are not changed by another range
          rw [hin hspans, hbyte, Option.map_map]
          exact congrFun (congrArg Option.map (funext blankByte_blankByte)) _
        · rw [hout fun t ht hc => hspans ⟨t, ht, hc⟩, hbyte]
      · rw [if_neg hs] at hbyte
        obtain ⟨t, ht, hc⟩ := hcovers
        rcases List.mem_cons.1 ht with rfl | ht
        · exact absurd hc hs
        · rw [hin ⟨t, ht, hc⟩, hbyte]
    · intro hnone
      obtain ⟨hs, hspans⟩ := List.forall_mem_cons.1 hnone
      rw [hout hspans, hbyte, if_neg hs]

theorem blanked_of_blankSpans {bs out : List UInt8} {spans : List Span}
    (h : blankSpans bs spans = .ok out) : Blanked bs spans out := by
  have hbyte := getElem?_blankSpans h
  have hnone (i : Nat) : out[i]? = none ↔ bs[i]? = none := by
    by_cases hcovers : ∃ s ∈ spans, s.Covers i
    · rw [(hbyte i).1 hcovers, Option.map_eq_none_iff]
    · rw [(hbyte i).2 fun s hs hc => hcovers ⟨s, hs, hc⟩]
  refine ⟨?_, fun i hi => ?_, fun i => (hbyte i).2, fun i b hb hne hcovers => ?_⟩
  · -- an index lies behind both or behind neither
    exact Nat.le_antisymm (List.getElem?_eq_none_iff.1 ((hnone _).2 (by simp)))
      (List.getElem?_eq_none_iff.1 ((hnone _).1 (by simp)))
  · by_cases hcovers : ∃ s ∈ spans, s.Covers i
    · rw [(hbyte i).1 hcovers, hi]
      rfl
    · rw [(hbyte i).2 fun s hs hc => hcovers ⟨s, hs, hc⟩, hi]
  · rw [(hbyte i).1 hcovers, hb, Option.map_some, blankByte, if_neg (by simpa [newline] using hne)]

/-! ### The comments of a text -/

/-- What a comment says, trimmed, and the line and the kind of its range. -/
structure Tells (source : List Char) (s : Span) (c : Comment) : Prop where
  text : ∃ inner, slice source (s.start + 2) (if s.block then s.stop - 2 else s.stop) = .ok inner ∧
    c.text = Text.trim inner
  line : c.line = lineAt (encode source) s.start
  block : c.block = s.block

theorem tells_of_commentAt {source : List Char} {s : Span} {c : Comment}
    (h : commentAt source s = .ok c) (hs : IsComment (encode source) s) : Tells source s c := by
  have hbounds := hs.bounds
  have hline : lineOf (encode source) s.start = .ok (lineAt (encode source) s.start) :=
    lineOf_eq (by omega)
  have heq : commentAt source s =
      slice source (s.start + 2) (if s.block then s.stop - 2 else s.stop) >>= fun inner =>
        .ok ⟨Text.trim inner, lineAt (encode source) s.start, s.block⟩ := by
    rw [commentAt, minus_of_le (by omega), ok_bind, hline]
    cases s.block <;> rfl
  rw [heq] at h
  obtain ⟨inner, hinner, h⟩ := exists_of_bind_eq_ok h
  obtain rfl := Except.ok.inj h
  exact ⟨⟨inner, hinner, rfl⟩, rfl, rfl⟩

theorem forall₂_of_mapM {α β : Type} {f : α → Except Fault β} {as : List α} {bs : List β}
    (h : as.mapM f = .ok bs) : List.Forall₂ (fun a b => a ∈ as ∧ f a = .ok b) as bs := by
  induction as generalizing bs with
  | nil =>
    obtain rfl := Except.ok.inj h
    exact .nil
  | cons a as ih =>
    rw [List.mapM_cons] at h
    obtain ⟨b, hb, h⟩ := exists_of_bind_eq_ok h
    obtain ⟨rest, hrest, h⟩ := exists_of_bind_eq_ok h
    obtain rfl := Except.ok.inj h
    exact .cons ⟨List.mem_cons_self, hb⟩
      ((ih hrest).imp fun c d hc => ⟨List.mem_cons_of_mem a hc.1, hc.2⟩)

/-- The ranges of the comments of a text, with the blanked text and the comments that are listed. -/
structure Accounted (source : List Char) (spans : List Span) (stripped : List Char)
    (comments : List Comment) : Prop where
  /-- The ranges are those of the comments. -/
  comments_iff : ∀ s, s ∈ spans ↔ IsComment (encode source) s
  /-- They lie apart and in order. -/
  apart : spans.Pairwise fun s t => s.stop ≤ t.start
  /-- The blanked text has these bytes. -/
  blanked : Blanked (encode source) spans (encode stripped)
  /-- The comments are listed in order. -/
  tells : List.Forall₂ (Tells source) spans comments
  /-- Before a line comment its line holds blanks and comments only. -/
  first : ∀ s ∈ spans, s.block = false → ∀ k, k < s.start →
    (∀ m, k ≤ m → m < s.start → (encode source)[m]? ≠ some newline) →
    (∃ b, (encode source)[k]? = some b ∧ isSpaceByte b = true) ∨ ∃ t ∈ spans, t.Covers k

/-- The ranges are found and blanked out where the comments are. -/
theorem commentSpans_of_strip_ok {source : List Char} {xs : List Cell}
    (h : Source.strip (cells source) = .ok xs) :
    ∃ spans, commentSpans (encode source) = .ok spans ∧
      blankSpans (encode source) spans = .ok (encode (chars xs)) := by
  have hflat : (pieces (cells source)).flatMap Piece.cells = cells source :=
    flatMap_cells_piecesFrom none false _
  have hblank := blankSpans_spansOf (pieces (cells source)) []
  rw [hflat, chars_cells] at hblank
  rw [Source.strip] at h
  rw [commentSpans_eq, spanned]
  cases hunclosed : unclosedLine (pieces (cells source)) with
  | some line =>
    simp only [hunclosed] at h
    cases h
  | none =>
    simp only [hunclosed] at h
    obtain rfl := Except.ok.inj h
    exact ⟨_, rfl, hblank⟩

theorem commentSpans_of_strip_error {source : List Char} {line : Nat}
    (h : Source.strip (cells source) = .error line) :
    commentSpans (encode source) = .error (.broken (.unterminatedComment line)) := by
  rw [Source.strip] at h
  rw [commentSpans_eq, spanned]
  cases hunclosed : unclosedLine (pieces (cells source)) with
  | some line' =>
    simp only [hunclosed] at h
    obtain rfl := Except.error.inj h
    rfl
  | none =>
    simp only [hunclosed] at h
    cases h

/-- Comments cannot be taken away exactly where a block comment is never closed. -/
theorem strip_eq_error_iff (source : List Char) (line : Nat) :
    Source.strip (cells source) = .error line ↔
      ∃ i, Unclosed (encode source) i ∧ line = lineAt (encode source) i := by
  constructor
  · intro h
    obtain ⟨i, hopen, heq⟩ := commentSpans_eq_error_iff.1 (commentSpans_of_strip_error h)
    exact ⟨i, hopen, by simpa using heq⟩
  · rintro ⟨i, hopen, rfl⟩
    have herror := commentSpans_eq_error_iff.2 ⟨i, hopen, rfl⟩
    cases hstrip : Source.strip (cells source) with
    | error line =>
      rw [commentSpans_of_strip_error hstrip] at herror
      exact congrArg Except.error (by simpa using herror)
    | ok xs =>
      obtain ⟨spans, hspans, -⟩ := commentSpans_of_strip_ok hstrip
      rw [hspans] at herror
      cases herror

theorem comments_of_strip_error {source : List Char} {line : Nat}
    (h : Source.strip (cells source) = .error line) : Source.comments source = [] := by
  have hcomments := comments_eq source
  rw [comments, commentSpans_of_strip_error h] at hcomments
  exact (Except.ok.inj hcomments).symm

theorem mapM_commentAt_of_commentSpans {source : List Char} {spans : List Span}
    (h : commentSpans (encode source) = .ok spans) :
    spans.mapM (commentAt source) = .ok (Source.comments source) := by
  have hcomments := comments_eq source
  rwa [comments, h] at hcomments

/-- The ranges that the scan finds account for the comments. -/
theorem accounted_of_commentSpans {source : List Char} {spans : List Span} {stripped : List Char}
    (hspans : commentSpans (encode source) = .ok spans)
    (hblank : blankSpans (encode source) spans = .ok (encode stripped)) :
    Accounted source spans stripped (Source.comments source) := by
  have hmem := mem_commentSpans_iff hspans
  have hcomments := mapM_commentAt_of_commentSpans hspans
  have hfinds : Finds (encode source) 0 (commentSpans (encode source)) :=
    finds_commentSpansFrom .start
  rw [hspans] at hfinds
  refine ⟨hmem, hfinds.2.pairwise, blanked_of_blankSpans hblank, ?_, ?_⟩
  · exact (forall₂_of_mapM hcomments).imp fun s c h => tells_of_commentAt h.2 ((hmem s).1 h.1)
  · intro s hs hblock k hk hline
    cases (hmem s).1 hs with
    | block => cases hblock
    | line met opens ends =>
      refine (met.blank_before k hk hline).imp_right ?_
      rintro ⟨t, ht, hc⟩
      exact ⟨t, (hmem t).2 ht, hc⟩

/-- **Exactly the comments of a text are blanked out and listed, from the same ranges, unless a
block comment is never closed, whose line is told then.** -/
theorem comments_blanked (source : List Char) :
    (∀ line, Source.strip (cells source) = .error line ↔
      ∃ i, Unclosed (encode source) i ∧ line = lineAt (encode source) i) ∧
    (∀ line, Source.strip (cells source) = .error line → Source.comments source = []) ∧
    ∀ xs, Source.strip (cells source) = .ok xs →
      ∃ spans, commentSpans (encode source) = .ok spans ∧
        blankSpans (encode source) spans = .ok (encode (chars xs)) ∧
        spans.mapM (commentAt source) = .ok (Source.comments source) ∧
        Accounted source spans (chars xs) (Source.comments source) := by
  refine ⟨strip_eq_error_iff source, fun line h => comments_of_strip_error h, fun xs h => ?_⟩
  obtain ⟨spans, hspans, hblank⟩ := commentSpans_of_strip_ok h
  exact ⟨spans, hspans, hblank, mapM_commentAt_of_commentSpans hspans,
    accounted_of_commentSpans hspans hblank⟩

/-- What looks like a comment in a string or behind code is none; `/*/` opens one only. -/
theorem comments_blanked_of_mixed :
    (∃ spans, commentSpans (encode "'/*' /*é*/ // b\n // c".toList) = .ok spans ∧
      Accounted "'/*' /*é*/ // b\n // c".toList spans "'/*'        // b\n     ".toList
        (Source.comments "'/*' /*é*/ // b\n // c".toList)) ∧
    (∃ i, Unclosed (encode "'/*'\n/*/".toList) i ∧ 2 = lineAt (encode "'/*'\n/*/".toList) i) ∧
    Source.comments "'/*'\n/*/".toList = [] := by
  have hok : (Source.strip (cells "'/*' /*é*/ // b\n // c".toList)).map chars =
      .ok "'/*'        // b\n     ".toList := by cbv
  have herror : Source.strip (cells "'/*'\n/*/".toList) = .error 2 := by cbv
  refine ⟨?_, ((comments_blanked _).1 2).1 herror, (comments_blanked _).2.1 2 herror⟩
  cases hstrip : Source.strip (cells "'/*' /*é*/ // b\n // c".toList) with
  | error line =>
    rw [hstrip] at hok
    cases hok
  | ok xs =>
    rw [hstrip] at hok
    obtain ⟨spans, hspans, -, -, haccounted⟩ := (comments_blanked _).2.2 xs hstrip
    rw [← Except.ok.inj hok]
    exact ⟨spans, hspans, haccounted⟩

end Offsets
end SheetAudit
