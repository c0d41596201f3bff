import Mathlib.Data.List.TakeWhile
import SheetAudit.Sheet.Tree

/-!
# The grammar of statements and blocks

What a text without comments holds, said without a scanner: the text is a concatenation of
statements and blocks, each cut out at its delimiter.  Two counts decide where.  A statement ends
at the first delimiter outside parentheses, and a block at the brace that takes the count of its
braces back to zero, parentheses or not.

## Main definitions

* `parensAfter? d xs` — the parentheses open after `xs`, unless a delimiter stands outside them.
* `bracesAfter? d xs` — the braces open after `xs`, unless one is closed that was not open.
* `Reads xs nodes` — the grammar: `xs` holds exactly these nodes.

## Main results

* `cut_cases` — what a cut leaves on its two sides.
* `takeBlock_eq_some_iff` — what taking a block leaves on its two sides.
* `readNodes_eq_ok_iff` — the reader succeeds exactly along the grammar.
-/

namespace SheetAudit

open Text

namespace Source

/-! ### Parentheses -/

/-- Ends a statement where no parenthesis is open. -/
def Cell.delimits (x : Cell) : Bool := x.is '{' || x.is '}' || x.is ';'

/-- How many parentheses are open after `x`. -/
def Cell.parens (x : Cell) (depth : Nat) : Nat :=
  if x.is '(' then depth + 1 else if x.is ')' then depth - 1 else depth

/-- How many parentheses are open after a text, if no delimiter stands outside parentheses. -/
def parensAfter? : Nat → List Cell → Option Nat
  | depth, [] => some depth
  | depth, x :: xs =>
    if x.delimits && depth == 0 then none else parensAfter? (x.parens depth) xs

/-- The end that a delimiter makes. -/
def Cell.stop (x : Cell) : Stop :=
  if x.is '{' then .openBrace x.pos else if x.is '}' then .closeBrace x.pos else .semicolon

theorem parensAfter?_append (depth : Nat) (xs ys : List Cell) :
    parensAfter? depth (xs ++ ys) = (parensAfter? depth xs).bind fun d => parensAfter? d ys := by
  induction xs generalizing depth with
  | nil => rfl
  | cons x xs ih =>
    simp only [List.cons_append, parensAfter?]
    split
    · rfl
    · exact ih _

/-- A cell stands for one character only. -/
theorem Cell.is_unique {x : Cell} {c d : Char} (hc : x.is c = true) (hd : x.is d = true) :
    c = d := by
  simp only [Cell.is, Bool.and_eq_true, beq_iff_eq] at hc hd
  exact hc.2.symm.trans hd.2

theorem Cell.is_eq_false {x : Cell} {c d : Char} (hc : x.is c = true) (hne : c ≠ d) :
    x.is d = false := by
  cases hd : x.is d with
  | false => rfl
  | true => exact absurd (Cell.is_unique hc hd) hne

theorem Cell.not_opens_of_closes {x : Cell} (hx : x.is '}' = true) : x.is '{' = false :=
  Cell.is_eq_false hx (by decide)

theorem cutFrom_of_delimits {x : Cell} (hx : x.delimits = true) (xs : List Cell) :
    cutFrom 0 (x :: xs) = ⟨[], x.stop, xs⟩ := by
  rw [cutFrom]
  by_cases h₁ : x.is '{' = true
  · simp [h₁, Cell.stop]
  by_cases h₂ : x.is '}' = true
  · simp [h₁, h₂, Cell.stop]
  · have h₃ : x.is ';' = true := by simpa [Cell.delimits, h₁, h₂] using hx
    simp [h₁, h₂, h₃, Cell.stop]

theorem cutFrom_cons {x : Cell} {depth : Nat} (hx : (x.delimits && depth == 0) = false)
    (xs : List Cell) :
    cutFrom depth (x :: xs) =
      { cutFrom (x.parens depth) xs with before := x :: (cutFrom (x.parens depth) xs).before } := by
  rw [cutFrom]
  cases depth with
  | succ d => simp [Cell.parens]
  | zero =>
    obtain ⟨⟨h₁, h₂⟩, h₃⟩ : (x.is '{' = false ∧ x.is '}' = false) ∧ x.is ';' = false := by
      simpa [Cell.delimits] using hx
    simp [h₁, h₂, h₃, Cell.parens]

/-- A cut passes over a text without delimiters outside parentheses. -/
theorem cutFrom_append {depth d : Nat} {text : List Cell} (h : parensAfter? depth text = some d)
    (xs : List Cell) :
    cutFrom depth (text ++ xs) =
      { cutFrom d xs with before := text ++ (cutFrom d xs).before } := by
  induction text generalizing depth with
  | nil =>
    obtain rfl : depth = d := by simpa [parensAfter?] using h
    rfl
  | cons x text ih =>
    rw [parensAfter?] at h
    split at h
    · simp at h
    · next hx =>
      rw [List.cons_append, cutFrom_cons (by simpa using hx), ih h]
      rfl

/-- A cut ends at a delimiter where no parenthesis is open, or at the end of the text. -/
theorem cut_cases (xs : List Cell) :
    (∃ text x rest, xs = text ++ x :: rest ∧ parensAfter? 0 text = some 0 ∧
      x.delimits = true ∧ cut xs = ⟨text, x.stop, rest⟩) ∨
    ∃ d, parensAfter? 0 xs = some d ∧ cut xs = ⟨xs, .finish, []⟩ := by
  -- the same for a text in which some parentheses are open already
  have key : ∀ (xs : List Cell) (depth : Nat),
      (∃ text x rest, xs = text ++ x :: rest ∧ parensAfter? depth text = some 0 ∧
        x.delimits = true) ∨ ∃ d, parensAfter? depth xs = some d := by
    intro xs
    induction xs with
    | nil => intro depth; exact .inr ⟨depth, rfl⟩
    | cons x xs ih =>
      intro depth
      by_cases hx : (x.delimits && depth == 0) = true
      · obtain ⟨hd, rfl⟩ : x.delimits = true ∧ depth = 0 := by simpa using hx
        exact .inl ⟨[], x, xs, rfl, rfl, hd⟩
      · rcases ih (x.parens depth) with ⟨text, y, rest, rfl, ht, hy⟩ | ⟨d, hd⟩
        · exact .inl ⟨x :: text, y, rest, rfl, by rw [parensAfter?, if_neg hx, ht], hy⟩
        · exact .inr ⟨d, by rw [parensAfter?, if_neg hx, hd]⟩
  rcases key xs 0 with ⟨text, x, rest, rfl, ht, hx⟩ | ⟨d, hd⟩
  · refine .inl ⟨text, x, rest, rfl, ht, hx, ?_⟩
    rw [cut, cutFrom_append ht, cutFrom_of_delimits hx, List.append_nil]
  · refine .inr ⟨d, hd, ?_⟩
    have h := cutFrom_append hd []
    rw [List.append_nil] at h
    rw [cut, h]
    simp [cutFrom]

theorem Cell.delimits_cases {x : Cell} (h : x.delimits = true) :
    x.is '{' = true ∨ x.is '}' = true ∨ x.is ';' = true := by
  simpa [Cell.delimits, or_assoc] using h

@[simp] theorem Cell.delimits_of_opens {x : Cell} (h : x.is '{' = true) : x.delimits = true := by
  simp [Cell.delimits, h]

@[simp] theorem Cell.delimits_of_closes {x : Cell} (h : x.is '}' = true) : x.delimits = true := by
  simp [Cell.delimits, h]

@[simp] theorem Cell.delimits_of_semicolon {x : Cell} (h : x.is ';' = true) :
    x.delimits = true := by
  simp [Cell.delimits, h]

theorem Cell.stop_of_opens {x : Cell} (h : x.is '{' = true) : x.stop = .openBrace x.pos := by
  simp [Cell.stop, h]

theorem Cell.stop_of_closes {x : Cell} (h : x.is '}' = true) : x.stop = .closeBrace x.pos := by
  simp [Cell.stop, h, Cell.not_opens_of_closes h]

theorem Cell.stop_of_semicolon {x : Cell} (h : x.is ';' = true) : x.stop = .semicolon := by
  have ho : x.is '{' = false := Cell.is_eq_false h (by decide)
  have hc : x.is '}' = false := Cell.is_eq_false h (by decide)
  simp [Cell.stop, ho, hc]

theorem cut_append {text : List Cell} (ht : parensAfter? 0 text = some 0) {x : Cell}
    (hx : x.delimits = true) (rest : List Cell) :
    cut (text ++ x :: rest) = ⟨text, x.stop, rest⟩ := by
  rw [cut, cutFrom_append ht, cutFrom_of_delimits hx, List.append_nil]

theorem cut_eq_self {text : List Cell} {d : Nat} (ht : parensAfter? 0 text = some d) :
    cut text = ⟨text, .finish, []⟩ := by
  have h := cutFrom_append ht []
  rw [List.append_nil] at h
  rw [cut, h]
  simp [cutFrom]

/-! ### Braces -/

/-- How many braces are open after `x`, if it does not close one that was not open. -/
def Cell.braces? (depth : Nat) (x : Cell) : Option Nat :=
  if x.is '{' then some (depth + 1)
  else if x.is '}' then if depth = 0 then none else some (depth - 1)
  else some depth

/-- How many braces are open after a text that follows `depth` open ones, if none is closed that
was not open. -/
def bracesAfter? (depth : Nat) (xs : List Cell) : Option Nat := xs.foldlM Cell.braces? depth

@[simp] theorem bracesAfter?_nil (depth : Nat) : bracesAfter? depth [] = some depth := rfl

@[simp] theorem bracesAfter?_cons (depth : Nat) (x : Cell) (xs : List Cell) :
    bracesAfter? depth (x :: xs) = (x.braces? depth).bind fun d => bracesAfter? d xs := rfl

theorem bracesAfter?_append (depth : Nat) (xs ys : List Cell) :
    bracesAfter? depth (xs ++ ys) = (bracesAfter? depth xs).bind fun d => bracesAfter? d ys :=
  List.foldlM_append

theorem Cell.braces?_of_not {x : Cell} (ho : x.is '{' = false) (hc : x.is '}' = false)
    (depth : Nat) : x.braces? depth = some depth := by
  simp [Cell.braces?, ho, hc]

theorem Cell.braces?_of_closes {x : Cell} (hx : x.is '}' = true) (depth : Nat) :
    x.braces? depth = if depth = 0 then none else some (depth - 1) := by
  rw [Cell.braces?, if_neg (by simp [Cell.not_opens_of_closes hx]), if_pos hx]

/-- One step inside a block: a cell that is not its end changes the count of open braces as it
does in any text. -/
theorem takeBlockFrom_cons {depth d : Nat} {x : Cell} (hx : x.braces? depth = some d)
    (xs : List Cell) :
    takeBlockFrom depth (x :: xs) = (takeBlockFrom d xs).map fun r => (x :: r.1, r.2) := by
  rw [takeBlockFrom]
  rw [Cell.braces?] at hx
  by_cases ho : x.is '{' = true
  · -- a block inside the block begins
    have hc : x.is '}' = false := Cell.is_eq_false ho (by decide)
    obtain rfl : depth + 1 = d := by simpa [ho] using hx
    simp [ho, hc]
  by_cases hc : x.is '}' = true
  · rw [if_neg ho, if_pos hc] at hx
    split at hx
    · simp at hx
    · next h0 =>
      -- and ends; at depth zero the cell would have had no count
      obtain rfl : depth - 1 = d := by simpa using hx
      simp [ho, hc, h0]
  · obtain rfl : depth = d := by simpa [ho, hc] using hx
    simp [ho, hc]

theorem takeBlockFrom_append {depth : Nat} {content : List Cell} {x : Cell}
    (h : bracesAfter? depth content = some 0) (hx : x.is '}' = true) (rest : List Cell) :
    takeBlockFrom depth (content ++ x :: rest) = some (content, rest) := by
  induction content generalizing depth with
  | nil =>
    obtain rfl : depth = 0 := by simpa using h
    simp [takeBlockFrom, hx]
  | cons y content ih =>
    rw [bracesAfter?_cons] at h
    obtain ⟨d, hd, h⟩ := Option.bind_eq_some_iff.1 h
    rw [List.cons_append, takeBlockFrom_cons hd, ih h]
    rfl

theorem bracesAfter?_of_takeBlockFrom {depth : Nat} {xs content rest : List Cell}
    (h : takeBlockFrom depth xs = some (content, rest)) :
    bracesAfter? depth content = some 0 ∧ ∃ x, x.is '}' = true ∧ xs = content ++ x :: rest := by
  induction xs generalizing depth content with
  | nil => simp [takeBlockFrom] at h
  | cons y xs ih =>
    cases hy : y.braces? depth with
    | none =>
      -- the brace that closes the block
      obtain ⟨hc, rfl⟩ : y.is '}' = true ∧ depth = 0 := by
        rw [Cell.braces?] at hy
        split at hy
        · simp at hy
        · split at hy
          · next hc => exact ⟨hc, by simpa using hy⟩
          · simp at hy
      rw [takeBlockFrom, if_pos (by simp [hc])] at h
      obtain ⟨rfl, rfl⟩ : [] = content ∧ xs = rest := by simpa using h
      exact ⟨rfl, y, hc, rfl⟩
    | some d =>
      rw [takeBlockFrom_cons hy] at h
      obtain ⟨⟨inner, tail⟩, hr, heq⟩ := Option.map_eq_some_iff.1 h
      simp only [Prod.mk.injEq] at heq
      obtain ⟨rfl, rfl⟩ := heq
      obtain ⟨hb, x, hx, rfl⟩ := ih hr
      exact ⟨by rw [bracesAfter?_cons, hy]; exact hb, x, hx, rfl⟩

/-- A block ends at the brace that takes the count of its braces back to zero. -/
theorem takeBlock_eq_some_iff {xs content rest : List Cell} :
    takeBlock xs = some (content, rest) ↔
      bracesAfter? 0 content = some 0 ∧ ∃ x, x.is '}' = true ∧ xs = content ++ x :: rest := by
  constructor
  · exact bracesAfter?_of_takeBlockFrom
  · rintro ⟨h, x, hx, rfl⟩
    exact takeBlockFrom_append h hx rest

end Source

/-! ### The grammar -/

open Source

/-- `Reads xs nodes`: the text `xs`, whose strings are marked, holds exactly these nodes. -/
inductive Reads : List Cell → List Node → Prop where
  | nil : Reads [] []
  /-- The last statement of a text needs no semicolon. -/
  | last {text : List Cell} {d : Nat} (ne_nil : text ≠ [])
      (unbroken : parensAfter? 0 text = some d) : Reads text [.statement text]
  | statement {text rest : List Cell} {nodes : List Node} {semicolon : Cell}
      (unbroken : parensAfter? 0 text = some 0) (ends : semicolon.is ';' = true)
      (tail : Reads rest nodes) :
      Reads (text ++ semicolon :: rest) (.statement text :: nodes)
  /-- A block that is read. -/
  | block {before content rest : List Cell} {body nodes : List Node} {opening closing : Cell}
      (unbroken : parensAfter? 0 before = some 0) (opens : opening.is '{' = true)
      (balanced : bracesAfter? 0 content = some 0) (closes : closing.is '}' = true)
      (holds : holdsNodes (chars (preludeOf before)) = true) (inner : Reads content body)
      (tail : Reads rest nodes) :
      Reads (before ++ opening :: (content ++ closing :: rest))
        (.block (preludeOf before) content body :: nodes)
  /-- A block that is kept as text. -/
  | kept {before content rest : List Cell} {nodes : List Node} {opening closing : Cell}
      (unbroken : parensAfter? 0 before = some 0) (opens : opening.is '{' = true)
      (balanced : bracesAfter? 0 content = some 0) (closes : closing.is '}' = true)
      (holdsNone : holdsNodes (chars (preludeOf before)) = false) (tail : Reads rest nodes) :
      Reads (before ++ opening :: (content ++ closing :: rest))
        (.block (preludeOf before) content [] :: nodes)

/-- A prelude is the text before a block without blanks at its ends. -/
theorem exists_append_preludeOf (before : List Cell) :
    ∃ left right, before = left ++ (preludeOf before ++ right) ∧
      ∀ x ∈ left ++ right, isBlank x.char = true := by
  let rest := before.dropWhile fun x => isSpace x.char
  refine ⟨before.takeWhile fun x => isSpace x.char,
    (rest.reverse.takeWhile fun x => isBlank x.char).reverse, ?_, ?_⟩
  · have h :
        preludeOf before ++ (rest.reverse.takeWhile fun x => isBlank x.char).reverse = rest := by
      rw [preludeOf, ← List.reverse_append, List.takeWhile_append_dropWhile, List.reverse_reverse]
    rw [h, List.takeWhile_append_dropWhile]
  · intro x hx
    rcases List.mem_append.1 hx with hx | hx
    · have := List.mem_takeWhile_imp hx
      exact isBlank_of_isSpace this
    · have := List.mem_takeWhile_imp (List.mem_reverse.1 hx)
      exact this

/-! ### One node at a time -/

theorem readNodes_of_finish {xs : List Cell} (hne : xs ≠ []) (h : cut xs = ⟨xs, .finish, []⟩) :
    readNodes xs = .ok [.statement xs] := by
  cases xs with
  | nil => exact absurd rfl hne
  | cons x xs =>
    rw [readNodes]
    simp only [h]
    rw [readNodes]

theorem readNodes_of_semicolon {xs text rest : List Cell} (h : cut xs = ⟨text, .semicolon, rest⟩) :
    readNodes xs = (readNodes rest).map (.statement text :: ·) := by
  cases xs with
  | nil => simp [cut, cutFrom] at h
  | cons x xs =>
    rw [readNodes]
    simp only [h]
    cases readNodes rest <;> rfl

theorem readNodes_of_closeBrace {xs text rest : List Cell} {p : Pos}
    (h : cut xs = ⟨text, .closeBrace p, rest⟩) :
    readNodes xs = .error (.unexpectedBrace p.line) := by
  cases xs with
  | nil => simp [cut, cutFrom] at h
  | cons x xs =>
    rw [readNodes]
    simp only [h]

theorem readNodes_of_unclosed {xs text rest : List Cell} {p : Pos}
    (h : cut xs = ⟨text, .openBrace p, rest⟩) (hb : takeBlock rest = none) :
    readNodes xs = .error (.unclosedBrace p.line) := by
  cases xs with
  | nil => simp [cut, cutFrom] at h
  | cons x xs =>
    rw [readNodes]
    simp only [h]
    split
    · rfl
    · next heq => simp [h, hb] at heq

/-- The nodes that a block holds. -/
def readBody (prelude content : List Cell) : Except ReadError (List Node) :=
  if holdsNodes (chars prelude) then readNodes content else .ok []

theorem readNodes_of_block {xs before after content rest : List Cell} {p : Pos}
    (h : cut xs = ⟨before, .openBrace p, after⟩) (hb : takeBlock after = some (content, rest)) :
    readNodes xs = (readBody (preludeOf before) content).bind fun body =>
      (readNodes rest).map (.block (preludeOf before) content body :: ·) := by
  cases xs with
  | nil => simp [cut, cutFrom] at h
  | cons x xs =>
    rw [readNodes]
    simp only [h]
    split
    · next heq => simp [h, hb] at heq
    · next inner tail heq =>
      obtain ⟨rfl, rfl⟩ : content = inner ∧ rest = tail := by simpa [h, hb] using heq
      rw [← readBody]
      cases readBody (preludeOf before) content with
      | error e => rfl
      | ok body => cases readNodes rest <;> rfl

theorem readNodes_append_statement {text rest : List Cell} {semicolon : Cell}
    (ht : parensAfter? 0 text = some 0) (hs : semicolon.is ';' = true) :
    readNodes (text ++ semicolon :: rest) = (readNodes rest).map (.statement text :: ·) := by
  have h := cut_append ht (Cell.delimits_of_semicolon hs) rest
  rw [Cell.stop_of_semicolon hs] at h
  exact readNodes_of_semicolon h

theorem readNodes_append_closing {text rest : List Cell} {closing : Cell}
    (ht : parensAfter? 0 text = some 0) (hc : closing.is '}' = true) :
    readNodes (text ++ closing :: rest) = .error (.unexpectedBrace closing.pos.line) := by
  have h := cut_append ht (Cell.delimits_of_closes hc) rest
  rw [Cell.stop_of_closes hc] at h
  exact readNodes_of_closeBrace h

theorem readNodes_append_block {before content rest : List Cell} {opening closing : Cell}
    (ht : parensAfter? 0 before = some 0) (ho : opening.is '{' = true)
    (hb : bracesAfter? 0 content = some 0) (hc : closing.is '}' = true) :
    readNodes (before ++ opening :: (content ++ closing :: rest)) =
      (readBody (preludeOf before) content).bind fun body =>
        (readNodes rest).map (.block (preludeOf before) content body :: ·) := by
  have h := cut_append ht (Cell.delimits_of_opens ho) (content ++ closing :: rest)
  rw [Cell.stop_of_opens ho] at h
  exact readNodes_of_block h (takeBlock_eq_some_iff.2 ⟨hb, _, hc, rfl⟩)

/-! ### The reader follows the grammar -/

theorem readNodes_of_reads {xs : List Cell} {nodes : List Node} (h : Reads xs nodes) :
    readNodes xs = .ok nodes := by
  induction h with
  | nil => rw [readNodes]
  | last hne ht => exact readNodes_of_finish hne (cut_eq_self ht)
  | statement ht hs _ ih => rw [readNodes_append_statement ht hs, ih]; rfl
  | block ht ho hb hc hh _ _ ihBody ih =>
    rw [readNodes_append_block ht ho hb hc, readBody, if_pos hh, ihBody, ih]
    rfl
  | kept ht ho hb hc hh _ ih =>
    rw [readNodes_append_block ht ho hb hc, readBody, if_neg (by simp [hh]), ih]
    rfl

theorem reads_of_readNodes {xs : List Cell} {nodes : List Node} (h : readNodes xs = .ok nodes) :
    Reads xs nodes := by
  -- on the length of the text: a block leaves what it holds and what follows it, both shorter
  induction hn : xs.length using Nat.strongRecOn generalizing xs nodes with
  | _ n ih =>
    by_cases hne : xs = []
    · subst hne
      rw [readNodes] at h
      obtain rfl : [] = nodes := by simpa using h
      exact .nil
    rcases cut_cases xs with ⟨text, x, rest, rfl, ht, hx, hcut⟩ | ⟨d, hd, hcut⟩
    · have hrest : rest.length < n := by rw [← hn]; simp; omega
      rcases Cell.delimits_cases hx with ho | hc | hs
      · -- a block
        rw [Cell.stop_of_opens ho] at hcut
        cases hb : takeBlock rest with
        | none =>
          rw [readNodes_of_unclosed hcut hb] at h
          simp at h
        | some r =>
          obtain ⟨content, tail⟩ := r
          obtain ⟨hbal, y, hy, rfl⟩ := takeBlock_eq_some_iff.1 hb
          rw [readNodes_of_block hcut hb] at h
          simp only [List.length_append, List.length_cons] at hrest
          cases hbody : readBody (preludeOf text) content with
          | error e => rw [hbody] at h; simp [Except.bind] at h
          | ok body =>
            cases htail : readNodes tail with
            | error e => rw [hbody, htail] at h; simp [Except.bind, Except.map] at h
            | ok rest =>
              obtain rfl : Node.block (preludeOf text) content body :: rest = nodes := by
                simpa [hbody, htail, Except.bind, Except.map] using h
              have hrest := ih tail.length (by omega) htail rfl
              rw [readBody] at hbody
              split at hbody
              · next hh =>
                exact .block ht ho hbal hy hh (ih content.length (by omega) hbody rfl) hrest
              · next hh =>
                obtain rfl : [] = body := by simpa using hbody
                exact .kept ht ho hbal hy (by simpa using hh) hrest
      · -- a brace that closes nothing
        rw [Cell.stop_of_closes hc] at hcut
        rw [readNodes_of_closeBrace hcut] at h
        simp at h
      · -- a statement
        rw [Cell.stop_of_semicolon hs] at hcut
        rw [readNodes_of_semicolon hcut] at h
        cases htail : readNodes rest with
        | error e => rw [htail] at h; simp [Except.map] at h
        | ok tail =>
          obtain rfl : Node.statement text :: tail = nodes := by
            simpa [htail, Except.map] using h
          exact .statement ht hs (ih rest.length hrest htail rfl)
    · rw [readNodes_of_finish hne hcut] at h
      obtain rfl : [Node.statement xs] = nodes := by simpa using h
      exact .last hne hd

/-- **The reader succeeds exactly along the grammar.** -/
theorem readNodes_eq_ok_iff {xs : List Cell} {nodes : List Node} :
    readNodes xs = .ok nodes ↔ Reads xs nodes :=
  ⟨reads_of_readNodes, readNodes_of_reads⟩

end SheetAudit
