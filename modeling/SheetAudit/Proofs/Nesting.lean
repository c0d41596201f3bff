import Mathlib
import SheetAudit.Proofs.Braces
import SheetAudit.Sheet.Reading

/-!
# Balanced braces and nested blocks

A style sheet is refused when its blocks do not nest.  The measure a writer has in mind is the
running count of braces outside comments and strings.  The reader does not keep that count: it
passes over braces in parentheses when it looks for the end of a statement, and counts them when
it looks for the end of a block.  The two agree unless braces in parentheses are out of step.

## Main definitions

* `outsideStrings` — the characters of a text outside its strings.
* `Unbalanced` — the running count of braces drops below zero or does not end there.
* `Broken` — a source text with an unterminated comment or with unbalanced braces.
* `Crosses` — a brace outside parentheses closes none that was opened outside parentheses.
* `Misread` — the count and the reader disagree about the braces in parentheses.

## Main results

* `reads_or_crosses` — a text whose count of braces ends at zero is read, or braces cross in it.
* `parse_fails_iff_broken` — **a parse fails exactly on broken texts, unless they are misread.**
-/

namespace SheetAudit

open Source Text

/-! ### Running counts -/

/-- The characters of a text outside its strings.  A string runs from a quote to the next quote
of its kind that no backslash stands before, or to the end. -/
def outsideStrings : (quote : Option Char) → List Char → List Char
  | _, [] => []
  | none, c :: cs =>
    if c == '"' || c == '\'' then outsideStrings (some c) cs else c :: outsideStrings none cs
  | some q, '\\' :: _ :: cs => outsideStrings (some q) cs
  | some q, c :: cs => outsideStrings (if c == q then none else some q) cs

/-- The count of opening less closing braces drops below zero somewhere or is not zero at the
end. -/
def Unbalanced (cs : List Char) : Prop :=
  (∃ p, p <+: cs ∧ p.count '{' < p.count '}') ∨ cs.count '{' ≠ cs.count '}'

/-- The characters of the cells outside strings. -/
def code (xs : List Cell) : List Char := chars (xs.filter fun x => !x.quoted)

@[simp] theorem code_nil : code [] = [] := rfl

theorem code_cons_of_quoted {x : Cell} (h : x.quoted = true) (xs : List Cell) :
    code (x :: xs) = code xs := by
  simp [code, h]

theorem code_cons {x : Cell} (h : x.quoted = false) (xs : List Cell) :
    code (x :: xs) = x.char :: code xs := by
  simp [code, chars, h]

/-- Marking the strings of a text finds the characters outside them. -/
theorem code_markFrom (quote : Option Char) (xs : List Cell) :
    code (markFrom quote xs) = outsideStrings quote (chars xs) := by
  fun_induction markFrom quote xs with
  | case1 quote => simp [chars, outsideStrings]
  | case2 x xs q ih₂ ih₁ =>
    rw [code_cons_of_quoted rfl]
    by_cases hx : x.char = '\\'
    · -- the character after a backslash is part of the string whatever it is
      rw [if_pos (by simpa using hx)]
      cases xs with
      | nil => simp [chars, outsideStrings]
      | cons y ys =>
        rw [code_cons_of_quoted rfl, ih₂]
        simp [chars, outsideStrings, hx]
    · rw [if_neg (by simpa using hx), ih₁]
      simp [chars, outsideStrings, hx]
  | case3 x xs hx ih =>
    rw [code_cons_of_quoted rfl, ih]
    simp [chars, outsideStrings, hx]
  | case4 x xs hx ih =>
    rw [code_cons rfl, ih]
    simp [chars, outsideStrings, hx]

/-- A prefix of a list with a head is empty or begins with it. -/
theorem forall_prefix_cons {P : List Char → Prop} {c : Char} {cs : List Char} (h : P []) :
    (∀ p, p <+: c :: cs → P p) ↔ ∀ p, p <+: cs → P (c :: p) := by
  constructor
  · intro hp p hpre
    exact hp _ (List.cons_prefix_cons.2 ⟨rfl, hpre⟩)
  · intro hp p hpre
    rcases List.prefix_cons_iff.1 hpre with rfl | ⟨q, rfl, hq⟩
    · exact h
    · exact hp q hq

/-- The count that the end of a block is found with is the running count of the characters
outside strings. -/
theorem bracesAfter?_eq_some_iff {xs : List Cell} {depth n : Nat} :
    bracesAfter? depth xs = some n ↔
      (∀ p, p <+: code xs → p.count '}' ≤ depth + p.count '{') ∧
        depth + (code xs).count '{' = n + (code xs).count '}' := by
  induction xs generalizing depth with
  | nil => simp
  | cons x xs ih =>
    rw [bracesAfter?_cons, Cell.braces?]
    cases hq : x.quoted with
    | true => simp [Cell.is, hq, code_cons_of_quoted hq, ih]
    | false =>
      -- every longer beginning has `x` in front, which changes both counts by what it counts for
      rw [code_cons hq, forall_prefix_cons (by simp)]
      have hne : ¬ '{' = '}' := by decide
      by_cases ho : x.char = '{'
      · rw [if_pos (by simp [Cell.is, hq, ho]), Option.bind_some, ih, ho]
        simp only [List.count_cons_self, List.count_cons_of_ne hne]
        refine and_congr (forall_congr' fun p => imp_congr_right fun _ => ?_) ?_ <;> omega
      by_cases hc : x.char = '}'
      · rw [if_neg (by simp [Cell.is, ho]), if_pos (by simp [Cell.is, hq, hc]), hc]
        simp only [List.count_cons_self, List.count_cons_of_ne (Ne.symm hne)]
        split
        · next h0 =>
          -- the beginning that is `x` alone is one too low
          constructor
          · simp
          · intro h
            have := h.1 [] (List.nil_prefix)
            simp [h0] at this
        · rw [Option.bind_some, ih]
          refine and_congr (forall_congr' fun p => imp_congr_right fun _ => ?_) ?_ <;> omega
      · simp [Cell.is, hq, ho, hc, ih]

theorem unbalanced_iff {xs : List Cell} :
    Unbalanced (code xs) ↔ ¬ bracesAfter? 0 xs = some 0 := by
  rw [bracesAfter?_eq_some_iff]
  constructor
  · rintro (⟨p, hp, hlt⟩ | hne) ⟨hle, heq⟩
    · have := hle p hp
      omega
    · omega
  · intro h
    by_cases hle : ∀ p, p <+: code xs → p.count '}' ≤ 0 + p.count '{'
    · exact .inr fun heq => h ⟨hle, by omega⟩
    · obtain ⟨p, hp⟩ := Classical.not_forall.1 hle
      obtain ⟨hpre, hlt⟩ := Classical.not_imp.1 hp
      exact .inl ⟨p, hpre, by omega⟩

/-! ### Braces that cross parentheses -/

/-- In some body of the text a brace outside parentheses closes no block: what it takes the count
back from, if anything, is a brace that was opened in parentheses. -/
inductive Crosses : List Cell → Prop where
  | here {text rest : List Cell} {closing : Cell} (unbroken : parensAfter? 0 text = some 0)
      (closes : closing.is '}' = true) : Crosses (text ++ closing :: rest)
  | afterStatement {text rest : List Cell} {semicolon : Cell}
      (unbroken : parensAfter? 0 text = some 0) (ends : semicolon.is ';' = true)
      (tail : Crosses rest) : Crosses (text ++ semicolon :: rest)
  | inside {before content rest : List Cell} {opening closing : Cell}
      (unbroken : parensAfter? 0 before = some 0) (opens : opening.is '{' = true)
      (balanced : bracesAfter? 0 content = some 0) (closes : closing.is '}' = true)
      (holds : holdsNodes (chars (preludeOf before)) = true) (inner : Crosses content) :
      Crosses (before ++ opening :: (content ++ closing :: rest))
  | afterBlock {before content rest : List Cell} {opening closing : Cell}
      (unbroken : parensAfter? 0 before = some 0) (opens : opening.is '{' = true)
      (balanced : bracesAfter? 0 content = some 0) (closes : closing.is '}' = true)
      (tail : Crosses rest) : Crosses (before ++ opening :: (content ++ closing :: rest))

/-- A text in which braces cross is not read. -/
theorem Crosses.readNodes_ne {xs : List Cell} (h : Crosses xs) (nodes : List Node) :
    readNodes xs ≠ .ok nodes := by
  induction h generalizing nodes with
  | here ht hc =>
    rw [readNodes_append_closing ht hc]
    simp
  | afterStatement ht hs _ ih =>
    rw [readNodes_append_statement ht hs]
    intro hok
    cases hrest : readNodes _ with
    | error e => rw [hrest] at hok; simp [Except.map] at hok
    | ok tail => exact ih tail hrest
  | inside ht ho hb hc hh _ ih =>
    rw [readNodes_append_block ht ho hb hc, readBody, if_pos hh]
    intro hok
    cases hbody : readNodes _ with
    | error e => rw [hbody] at hok; simp [Except.bind] at hok
    | ok body => exact ih body hbody
  | @afterBlock before content _ _ _ ht ho hb hc _ ih =>
    rw [readNodes_append_block ht ho hb hc]
    intro hok
    cases hbody : readBody (preludeOf before) content with
    | error e => rw [hbody] at hok; simp [Except.bind] at hok
    | ok body =>
      cases hrest : readNodes _ with
      | error e => rw [hbody, hrest] at hok; simp [Except.bind, Except.map] at hok
      | ok tail => exact ih tail hrest

/-- Where a count of braces comes back to what it was before `k + 1` of them were opened, the last
of these is closed. -/
theorem exists_closing {k l : Nat} {xs : List Cell} (h : bracesAfter? (k + 1 + l) xs = some 0) :
    ∃ content closing rest, xs = content ++ closing :: rest ∧ closing.is '}' = true ∧
      bracesAfter? k content = some 0 ∧ bracesAfter? l rest = some 0 := by
  induction xs generalizing k with
  | nil => simp at h
  | cons x xs ih =>
    rw [bracesAfter?_cons] at h
    obtain ⟨d, hd, h⟩ := Option.bind_eq_some_iff.1 h
    by_cases hc : x.is '}' = true
    · obtain rfl : k + l = d := by
        rw [Cell.braces?_of_closes hc] at hd
        split at hd
        · simp at hd
        · simp only [Option.some.injEq] at hd
          omega
      cases k with
      | zero => exact ⟨[], x, xs, rfl, hc, rfl, by simpa using h⟩
      | succ k =>
        obtain ⟨content, closing, rest, rfl, hcl, hcontent, hrest⟩ := ih h
        refine ⟨x :: content, closing, rest, rfl, hcl, ?_, hrest⟩
        rw [bracesAfter?_cons, Cell.braces?_of_closes hc]
        simpa using hcontent
    · -- any other cell belongs to what the brace closes
      obtain ⟨e, he, heq⟩ : ∃ e, x.braces? k = some e ∧ d = e + 1 + l := by
        have hc : x.is '}' = false := by simpa using hc
        cases ho : x.is '{' with
        | true =>
          refine ⟨k + 1, by simp [Cell.braces?, ho], ?_⟩
          have : k + 1 + l + 1 = d := by simpa [Cell.braces?, ho] using hd
          omega
        | false =>
          refine ⟨k, Cell.braces?_of_not ho hc k, ?_⟩
          rw [Cell.braces?_of_not ho hc] at hd
          exact (Option.some.inj hd).symm
      rw [heq] at h
      obtain ⟨content, closing, rest, rfl, hcl, hcontent, hrest⟩ := ih h
      refine ⟨x :: content, closing, rest, rfl, hcl, ?_, hrest⟩
      rw [bracesAfter?_cons, he]
      exact hcontent

/-- **A text whose count of braces ends at zero is read, or braces cross in it.** -/
theorem reads_or_crosses {xs : List Cell} {depth : Nat} (h : bracesAfter? depth xs = some 0) :
    (∃ nodes, Reads xs nodes) ∨ Crosses xs := by
  -- The count at the start is left free: the braces in the parentheses of a statement may have
  -- changed it before the text that follows is read.
  induction hn : xs.length using Nat.strongRecOn generalizing xs depth with
  | _ n ih =>
    by_cases hne : xs = []
    · exact .inl ⟨[], hne ▸ .nil⟩
    rcases cut_cases xs with ⟨text, x, rest, rfl, ht, hx, -⟩ | ⟨d, hd, -⟩
    · rw [bracesAfter?_append] at h
      obtain ⟨e, -, h⟩ := Option.bind_eq_some_iff.1 h
      rw [bracesAfter?_cons] at h
      simp only [List.length_append, List.length_cons] at hn
      rcases Cell.delimits_cases hx with ho | hc | hs
      · -- a block, which has an end because the count comes back to zero
        rw [Cell.braces?, if_pos ho, Option.bind_some, show e + 1 = 0 + 1 + e by omega] at h
        obtain ⟨content, closing, tail, rfl, hcl, hcontent, htail⟩ := exists_closing h
        simp only [List.length_append, List.length_cons] at hn
        rcases ih tail.length (by omega) htail rfl with ⟨nodes, hnodes⟩ | hcross
        · cases hh : holdsNodes (chars (preludeOf text)) with
          | false => exact .inl ⟨_, .kept ht ho hcontent hcl hh hnodes⟩
          | true =>
            rcases ih content.length (by omega) hcontent rfl with ⟨body, hbody⟩ | hcross
            · exact .inl ⟨_, .block ht ho hcontent hcl hh hbody hnodes⟩
            · exact .inr (.inside ht ho hcontent hcl hh hcross)
        · exact .inr (.afterBlock ht ho hcontent hcl hcross)
      · exact .inr (.here ht hc)
      · -- a statement
        rw [Cell.braces?_of_not (Cell.is_eq_false hs (by decide)) (Cell.is_eq_false hs (by decide)),
          Option.bind_some] at h
        rcases ih rest.length (by omega) h rfl with ⟨nodes, hnodes⟩ | hcross
        · exact .inl ⟨_, .statement ht hs hnodes⟩
        · exact .inr (.afterStatement ht hs hcross)
    · exact .inl ⟨_, .last hne hd⟩

/-! ### Braces clear of parentheses -/

/-- No brace stands in parentheses; `depth` of them are open already. -/
def clearOfParens : (depth : Nat) → List Char → Bool
  | _, [] => true
  | depth, c :: cs =>
    ((c != '{' && c != '}') || depth == 0) &&
      clearOfParens (if c == '(' then depth + 1 else if c == ')' then depth - 1 else depth) cs

theorem clearOfParens_cons {x : Cell} {depth : Nat} {xs : List Cell}
    (h : clearOfParens depth (code (x :: xs)) = true) :
    (x.is '{' = true ∨ x.is '}' = true → depth = 0) ∧
      clearOfParens (x.parens depth) (code xs) = true := by
  cases hq : x.quoted with
  | true =>
    rw [code_cons_of_quoted hq] at h
    simpa [Cell.is, Cell.parens, hq] using h
  | false =>
    rw [code_cons hq, clearOfParens, Bool.and_eq_true] at h
    refine ⟨?_, by simpa [Cell.is, Cell.parens, hq] using h.2⟩
    intro hx
    have := h.1
    simp only [Cell.is, hq, Bool.not_false, Bool.true_and, beq_iff_eq] at hx
    rcases hx with hx | hx <;> simpa [hx] using this

/-- Where no brace stands in parentheses, a statement has no braces at all. -/
theorem clearOfParens_append {text : List Cell} {depth d : Nat}
    (ht : parensAfter? depth text = some d) {xs : List Cell}
    (h : clearOfParens depth (code (text ++ xs)) = true) :
    (∀ n, bracesAfter? n text = some n) ∧ clearOfParens d (code xs) = true := by
  induction text generalizing depth with
  | nil =>
    obtain rfl : depth = d := by simpa [parensAfter?] using ht
    exact ⟨fun _ => rfl, h⟩
  | cons x text ih =>
    rw [parensAfter?] at ht
    split at ht
    · simp at ht
    · next hx =>
      obtain ⟨hzero, hrest⟩ := clearOfParens_cons h
      have hnone : x.is '{' = false ∧ x.is '}' = false := by
        -- a brace would stand outside parentheses and end the statement
        constructor
        · cases ho : x.is '{' with
          | false => rfl
          | true => simp [Cell.delimits, ho, hzero (.inl ho)] at hx
        · cases hc : x.is '}' with
          | false => rfl
          | true => simp [Cell.delimits, hc, hzero (.inr hc)] at hx
      obtain ⟨hbraces, hclear⟩ := ih ht hrest
      refine ⟨fun n => ?_, hclear⟩
      rw [bracesAfter?_cons, Cell.braces?_of_not hnone.1 hnone.2, Option.bind_some, hbraces]

/-- Both sides of a brace are clear of parentheses. -/
theorem clearOfParens_closing {xs : List Cell} {closing : Cell} (hc : closing.is '}' = true)
    {depth : Nat} {rest : List Cell}
    (h : clearOfParens depth (code (xs ++ closing :: rest)) = true) :
    clearOfParens depth (code xs) = true ∧ clearOfParens 0 (code rest) = true := by
  induction xs generalizing depth with
  | nil =>
    obtain ⟨hzero, hrest⟩ := clearOfParens_cons h
    obtain rfl := hzero (.inr hc)
    have hp : closing.parens 0 = 0 := by
      simp [Cell.parens, Cell.is_eq_false hc (show '}' ≠ '(' by decide)]
    exact ⟨rfl, by simpa [hp] using hrest⟩
  | cons x xs ih =>
    obtain ⟨hzero, hrest⟩ := clearOfParens_cons h
    obtain ⟨hxs, hrest⟩ := ih hrest
    refine ⟨?_, hrest⟩
    cases hq : x.quoted with
    | true =>
      rw [code_cons_of_quoted hq]
      simpa [Cell.is, Cell.parens, hq] using hxs
    | false =>
      simp only [Cell.is, hq, Bool.not_false, Bool.true_and, beq_iff_eq] at hzero
      rw [code_cons hq, clearOfParens, Bool.and_eq_true]
      refine ⟨?_, by simpa [Cell.is, Cell.parens, hq] using hxs⟩
      by_cases hx : x.char = '{' ∨ x.char = '}'
      · simp [hzero hx]
      · simp [not_or.1 hx]

theorem clearOfParens_block {before content rest : List Cell} {opening closing : Cell}
    (ht : parensAfter? 0 before = some 0) (ho : opening.is '{' = true)
    (hc : closing.is '}' = true)
    (h : clearOfParens 0 (code (before ++ opening :: (content ++ closing :: rest))) = true) :
    (∀ n, bracesAfter? n before = some n) ∧ clearOfParens 0 (code content) = true ∧
      clearOfParens 0 (code rest) = true := by
  obtain ⟨hbefore, h⟩ := clearOfParens_append ht h
  have h := (clearOfParens_cons h).2
  rw [Cell.parens, Cell.is_eq_false ho (show '{' ≠ '(' by decide),
    Cell.is_eq_false ho (show '{' ≠ ')' by decide)] at h
  exact ⟨hbefore, clearOfParens_closing hc h⟩

theorem clearOfParens_statement {text rest : List Cell} {semicolon : Cell}
    (ht : parensAfter? 0 text = some 0) (hs : semicolon.is ';' = true)
    (h : clearOfParens 0 (code (text ++ semicolon :: rest)) = true) :
    (∀ n, bracesAfter? n text = some n) ∧ clearOfParens 0 (code rest) = true := by
  obtain ⟨htext, h⟩ := clearOfParens_append ht h
  have h := (clearOfParens_cons h).2
  rw [Cell.parens, Cell.is_eq_false hs (show ';' ≠ '(' by decide),
    Cell.is_eq_false hs (show ';' ≠ ')' by decide)] at h
  exact ⟨htext, h⟩

/-- Where no brace stands in parentheses, what is read is balanced. -/
theorem Reads.balanced {xs : List Cell} {nodes : List Node} (h : Reads xs nodes)
    (hclear : clearOfParens 0 (code xs) = true) : bracesAfter? 0 xs = some 0 := by
  induction h with
  | nil => rfl
  | @last text d _ ht =>
    have hclear : clearOfParens 0 (code (text ++ [])) = true := by rwa [List.append_nil]
    exact (clearOfParens_append ht hclear).1 0
  | statement ht hs _ ih =>
    obtain ⟨htext, hrest⟩ := clearOfParens_statement ht hs hclear
    rw [bracesAfter?_append, htext, Option.bind_some, bracesAfter?_cons,
      Cell.braces?_of_not (Cell.is_eq_false hs (by decide)) (Cell.is_eq_false hs (by decide))]
    exact ih hrest
  | block ht ho hb hc _ _ _ _ ih =>
    obtain ⟨hbefore, -, hrest⟩ := clearOfParens_block ht ho hc hclear
    rw [bracesAfter?_append, hbefore, Option.bind_some, bracesAfter?_block ho hb hc]
    exact ih hrest
  | kept ht ho hb hc _ _ ih =>
    obtain ⟨hbefore, -, hrest⟩ := clearOfParens_block ht ho hc hclear
    rw [bracesAfter?_append, hbefore, Option.bind_some, bracesAfter?_block ho hb hc]
    exact ih hrest

/-- Where no brace stands in parentheses, braces cross in unbalanced texts only. -/
theorem Crosses.unbalanced {xs : List Cell} (h : Crosses xs)
    (hclear : clearOfParens 0 (code xs) = true) : bracesAfter? 0 xs ≠ some 0 := by
  induction h with
  | here ht hc =>
    obtain ⟨htext, -⟩ := clearOfParens_append ht hclear
    rw [bracesAfter?_append, htext, Option.bind_some, bracesAfter?_cons,
      Cell.braces?_of_closes hc]
    simp
  | afterStatement ht hs _ ih =>
    obtain ⟨htext, hrest⟩ := clearOfParens_statement ht hs hclear
    rw [bracesAfter?_append, htext, Option.bind_some, bracesAfter?_cons,
      Cell.braces?_of_not (Cell.is_eq_false hs (by decide)) (Cell.is_eq_false hs (by decide))]
    exact ih hrest
  | inside ht ho hb hc _ _ ih =>
    obtain ⟨-, hcontent, -⟩ := clearOfParens_block ht ho hc hclear
    exact absurd hb (ih hcontent)
  | afterBlock ht ho hb hc _ ih =>
    obtain ⟨hbefore, -, hrest⟩ := clearOfParens_block ht ho hc hclear
    rw [bracesAfter?_append, hbefore, Option.bind_some, bracesAfter?_block ho hb hc]
    exact ih hrest

/-! ### Where a parse fails -/

theorem Reads.unbalanced_iff {xs : List Cell} {nodes : List Node} (h : Reads xs nodes) :
    Unbalanced (code (nodes.flatMap Node.outer)) ↔ Unbalanced (code xs) := by
  rw [SheetAudit.unbalanced_iff, SheetAudit.unbalanced_iff, h.bracesAfter?_outer]

theorem Crosses.not_reads {xs : List Cell} (h : Crosses xs) : ¬ ∃ nodes, Reads xs nodes := by
  rintro ⟨nodes, hnodes⟩
  exact h.readNodes_ne nodes (readNodes_of_reads hnodes)

/-- A text goes unread exactly when it is unbalanced, unless its braces in parentheses are out of
step with its blocks. -/
theorem not_reads_iff_unbalanced (xs : List Cell) :
    ((¬ ∃ nodes, Reads xs nodes) ↔ Unbalanced (code xs)) ↔
      ¬ ((∃ nodes, Reads xs nodes ∧ Unbalanced (code (nodes.flatMap Node.outer))) ∨
        (¬ Unbalanced (code xs) ∧ Crosses xs)) := by
  by_cases hread : ∃ nodes, Reads xs nodes
  · -- read: the texts outside the blocks have the braces of the whole
    have hcross : ¬ Crosses xs := fun h => h.not_reads hread
    have houter : (∃ nodes, Reads xs nodes ∧ Unbalanced (code (nodes.flatMap Node.outer))) ↔
        Unbalanced (code xs) := by
      constructor
      · rintro ⟨nodes, hnodes, hun⟩
        exact hnodes.unbalanced_iff.1 hun
      · intro hun
        obtain ⟨nodes, hnodes⟩ := hread
        exact ⟨nodes, hnodes, hnodes.unbalanced_iff.2 hun⟩
    rw [houter]
    simp [hread, hcross]
  · -- not read: balanced braces must cross
    have hcross : ¬ Unbalanced (code xs) → Crosses xs := by
      intro hbal
      rw [unbalanced_iff, Classical.not_not] at hbal
      exact (reads_or_crosses hbal).resolve_left hread
    have hnone : ¬ ∃ nodes, Reads xs nodes ∧ Unbalanced (code (nodes.flatMap Node.outer)) := by
      rintro ⟨nodes, hnodes, -⟩
      exact hread ⟨nodes, hnodes⟩
    simp only [hread, hnone, not_false_eq_true, true_iff, false_or, not_and]
    constructor
    · intro hun hbal
      exact absurd hun hbal
    · intro h
      exact Classical.not_not.1 fun hbal => h hbal (hcross hbal)

/-- A comment is not terminated, or the braces outside comments and strings are unbalanced. -/
def Broken (source : String) : Prop :=
  (∃ line, strip (cells source.toList) = .error line) ∨
    ∃ xs, strip (cells source.toList) = .ok xs ∧ Unbalanced (outsideStrings none (chars xs))

/-- The braces in parentheses are out of step with the blocks: the text is read although, outside
all blocks, they are unbalanced; or the braces are balanced in number but cross parentheses. -/
def Misread (source : String) : Prop :=
  ∃ xs, strip (cells source.toList) = .ok xs ∧
    ((∃ nodes, Reads (markStrings xs) nodes ∧ Unbalanced (code (nodes.flatMap Node.outer))) ∨
      (¬ Unbalanced (outsideStrings none (chars xs)) ∧ Crosses (markStrings xs)))

/-- No brace outside comments and strings stands in parentheses. -/
def ClearOfParens (source : String) : Prop :=
  ∀ xs, strip (cells source.toList) = .ok xs →
    clearOfParens 0 (outsideStrings none (chars xs)) = true

theorem code_markStrings (xs : List Cell) :
    code (markStrings xs) = outsideStrings none (chars xs) :=
  code_markFrom none xs

theorem parse_of_strip_error {source : String} {line : Nat}
    (h : strip (cells source.toList) = .error line) (path : String) :
    Sheet.parse path source = .error (.unterminatedComment line) := by
  rw [Sheet.parse, readTree, h]

theorem parse_of_strip_ok {source : String} {xs : List Cell}
    (h : strip (cells source.toList) = .ok xs) (path : String) :
    Sheet.parse path source = (readNodes (markStrings xs)).map (Sheet.ofNodes path) := by
  rw [Sheet.parse, readTree, h]
  dsimp only
  cases readNodes (markStrings xs) <;> rfl

/-- A source text without unterminated comments is refused when its nodes are not read. -/
theorem parse_fails_iff_not_reads {source : String} {xs : List Cell}
    (h : strip (cells source.toList) = .ok xs) (path : String) :
    (∃ e, Sheet.parse path source = .error e) ↔ ¬ ∃ nodes, Reads (markStrings xs) nodes := by
  rw [parse_of_strip_ok h]
  simp only [← readNodes_eq_ok_iff]
  cases readNodes (markStrings xs) <;> simp [Except.map]

/-- **A parse fails exactly on broken texts, unless they are misread**; and no text is misread in
which braces are clear of parentheses. -/
theorem parse_fails_iff_broken (path source : String) :
    (((∃ e, Sheet.parse path source = .error e) ↔ Broken source) ↔ ¬ Misread source) ∧
      (ClearOfParens source → ¬ Misread source) := by
  cases hs : strip (cells source.toList) with
  | error line =>
    -- the text is broken, and the reader gets no further than its comments
    have hmisread : ¬ Misread source := by
      rintro ⟨xs, hxs, -⟩
      simp [hs] at hxs
    refine ⟨iff_of_true ?_ hmisread, fun _ => hmisread⟩
    exact iff_of_true ⟨_, parse_of_strip_error hs path⟩ (.inl ⟨line, hs⟩)
  | ok xs =>
    have hbroken : Broken source ↔ Unbalanced (code (markStrings xs)) := by
      simp [Broken, hs, code_markStrings]
    have hmisread : Misread source ↔
        (∃ nodes, Reads (markStrings xs) nodes ∧ Unbalanced (code (nodes.flatMap Node.outer))) ∨
          (¬ Unbalanced (code (markStrings xs)) ∧ Crosses (markStrings xs)) := by
      simp [Misread, hs, code_markStrings]
    rw [hbroken, hmisread, parse_fails_iff_not_reads hs]
    refine ⟨not_reads_iff_unbalanced _, ?_⟩
    -- where braces are clear of parentheses neither way to be misread is open
    intro hclear
    have hclear : clearOfParens 0 (code (markStrings xs)) = true := by
      rw [code_markStrings]
      exact hclear xs hs
    rintro (⟨nodes, hnodes, hun⟩ | ⟨hbal, hcross⟩)
    · rw [hnodes.unbalanced_iff, unbalanced_iff] at hun
      exact hun (hnodes.balanced hclear)
    · rw [unbalanced_iff, Classical.not_not] at hbal
      exact hcross.unbalanced hclear hbal

/-- A closing brace in parentheses goes unnoticed, and one after them is refused although the
brace it closes stands in them. -/
theorem braces_in_parens_misread :
    ¬ ((∃ e, Sheet.parse "main.css" "(\x7d" = .error e) ↔ Broken "(\x7d") ∧
      ¬ ((∃ e, Sheet.parse "main.css" "(\x7b)\x7d" = .error e) ↔ Broken "(\x7b)\x7d") := by
  constructor
  · intro h
    have hparse : Sheet.parse "main.css" "(\x7d" = .ok { path := "main.css" } := by cbv
    have hstrip : strip (cells "(\x7d".toList) = .ok (cells "(\x7d".toList) := by cbv
    obtain ⟨e, he⟩ := h.2 (.inr ⟨_, hstrip, .inr (by decide)⟩)
    simp [hparse] at he
  · intro h
    have hparse : Sheet.parse "main.css" "(\x7b)\x7d" = .error (.unexpectedBrace 1) := by cbv
    have hstrip : strip (cells "(\x7b)\x7d".toList) = .ok (cells "(\x7b)\x7d".toList) := by cbv
    rcases h.1 ⟨_, hparse⟩ with ⟨line, hline⟩ | ⟨xs, hxs, hun⟩
    · rw [hstrip] at hline
      cases hline
    · rw [hstrip] at hxs
      obtain rfl := Except.ok.inj hxs
      rw [← code_markStrings, unbalanced_iff] at hun
      exact hun (by cbv)

end SheetAudit
