import SheetAudit.Proofs.Grammar

/-!
# Counting the braces of what was read

A block that was read is balanced, so it leaves the count of open braces as it is.

## Main definitions

* `Node.outer` — the text of a node outside its block.

## Main results

* `bracesAfter?_block` — a balanced block leaves the count unchanged.
* `Reads.bracesAfter?_outer` — **what was read has the count of the texts outside its blocks.**
-/

namespace SheetAudit

open Source Text

/-! ### One text -/

theorem Cell.braces?_add {x : Cell} {depth d : Nat} (h : x.braces? depth = some d) (k : Nat) :
    x.braces? (depth + k) = some (d + k) := by
  rw [Cell.braces?] at h ⊢
  split at h
  · next ho =>
    obtain rfl := Option.some.inj h
    rw [if_pos ho]
    congr 1
    omega
  · next ho =>
    rw [if_neg ho]
    split at h
    · next hc =>
      rw [if_pos hc]
      split at h
      · simp at h
      · next hne =>
        obtain rfl := Option.some.inj h
        rw [if_neg (by omega)]
        congr 1
        omega
    · next hc =>
      obtain rfl := Option.some.inj h
      rw [if_neg hc]

/-- Open braces around a text change its count by as many. -/
theorem bracesAfter?_add {xs : List Cell} {depth n : Nat} (h : bracesAfter? depth xs = some n)
    (k : Nat) : bracesAfter? (depth + k) xs = some (n + k) := by
  induction xs generalizing depth with
  | nil =>
    obtain rfl : depth = n := by simpa using h
    rfl
  | cons x xs ih =>
    rw [bracesAfter?_cons] at h ⊢
    obtain ⟨d, hd, h⟩ := Option.bind_eq_some_iff.1 h
    rw [Cell.braces?_add hd, Option.bind_some]
    exact ih h

/-- A balanced block leaves the count unchanged. -/
theorem bracesAfter?_block {opening closing : Cell} {content : List Cell}
    (ho : opening.is '{' = true) (hb : bracesAfter? 0 content = some 0)
    (hc : closing.is '}' = true) (depth : Nat) (rest : List Cell) :
    bracesAfter? depth (opening :: (content ++ closing :: rest)) = bracesAfter? depth rest := by
  -- inside, the opening brace is one more that is open around the content
  have h : bracesAfter? (depth + 1) content = some (depth + 1) := by
    simpa using bracesAfter?_add hb (depth + 1)
  rw [bracesAfter?_cons, Cell.braces?, if_pos ho, Option.bind_some, bracesAfter?_append, h,
    Option.bind_some, bracesAfter?_cons, Cell.braces?_of_closes hc]
  simp

/-- Cells that are no braces leave the count unchanged. -/
theorem bracesAfter?_of_forall {xs : List Cell} (h : ∀ x ∈ xs, ∀ d, x.braces? d = some d)
    (depth : Nat) : bracesAfter? depth xs = some depth := by
  induction xs with
  | nil => rfl
  | cons x xs ih =>
    rw [bracesAfter?_cons, h x List.mem_cons_self, Option.bind_some]
    exact ih fun y hy => h y (List.mem_cons_of_mem _ hy)

theorem Cell.is_eq_false_of_isBlank {x : Cell} {c : Char} (hx : isBlank x.char = true)
    (hc : isBlank c = false) : x.is c = false := by
  cases h : x.is c with
  | false => rfl
  | true =>
    simp only [Cell.is, Bool.and_eq_true, beq_iff_eq] at h
    rw [h.2, hc] at hx
    simp at hx

theorem Cell.braces?_of_isBlank {x : Cell} (h : isBlank x.char = true) (d : Nat) :
    x.braces? d = some d :=
  Cell.braces?_of_not (Cell.is_eq_false_of_isBlank h (by decide))
    (Cell.is_eq_false_of_isBlank h (by decide)) d

theorem bracesAfter?_preludeOf (depth : Nat) (before : List Cell) :
    bracesAfter? depth (preludeOf before) = bracesAfter? depth before := by
  obtain ⟨left, right, h, hblank⟩ := exists_append_preludeOf before
  have hl : ∀ d, bracesAfter? d left = some d := bracesAfter?_of_forall fun x hx =>
    Cell.braces?_of_isBlank (hblank x (List.mem_append_left _ hx))
  have hr : ∀ d, bracesAfter? d right = some d := bracesAfter?_of_forall fun x hx =>
    Cell.braces?_of_isBlank (hblank x (List.mem_append_right _ hx))
  have hsplit : bracesAfter? depth before =
      (bracesAfter? depth (preludeOf before)).bind fun d => bracesAfter? d right := by
    calc bracesAfter? depth before
        = bracesAfter? depth (left ++ (preludeOf before ++ right)) := by rw [← h]
      _ = _ := by rw [bracesAfter?_append, hl, Option.bind_some, bracesAfter?_append]
  rw [hsplit]
  cases bracesAfter? depth (preludeOf before) with
  | none => rfl
  | some d => exact (hr d).symm

/-! ### What the blocks leave -/

/-- The text of a node outside its block. -/
def Node.outer : Node → List Cell
  | .statement text => text
  | .block prelude _ _ => prelude

/-- **The blocks that were read leave the count of braces unchanged.**  What is left to count are
the braces in the parentheses of statements and preludes. -/
theorem Reads.bracesAfter?_outer {xs : List Cell} {nodes : List Node} (h : Reads xs nodes)
    (depth : Nat) : bracesAfter? depth (nodes.flatMap Node.outer) = bracesAfter? depth xs := by
  induction h generalizing depth with
  | nil => rfl
  | last => simp [Node.outer]
  | statement _ hs _ ih =>
    rw [List.flatMap_cons, bracesAfter?_append, bracesAfter?_append]
    simp only [bracesAfter?_cons, Node.outer, ih, Option.bind_some,
      Cell.braces?_of_not (Cell.is_eq_false hs (by decide)) (Cell.is_eq_false hs (by decide))]
  | block _ ho hb hc _ _ _ _ ih =>
    rw [List.flatMap_cons, bracesAfter?_append, bracesAfter?_append, Node.outer,
      bracesAfter?_preludeOf]
    simp only [bracesAfter?_block ho hb hc, ih]
  | kept _ ho hb hc _ _ ih =>
    rw [List.flatMap_cons, bracesAfter?_append, bracesAfter?_append, Node.outer,
      bracesAfter?_preludeOf]
    simp only [bracesAfter?_block ho hb hc, ih]

end SheetAudit
