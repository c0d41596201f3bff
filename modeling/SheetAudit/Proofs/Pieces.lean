import SheetAudit.Source.Comment

/-!
# The pieces of a source text

How a source text is cut into code and comments, one step at a time.

## Main results

* `piecesFrom_escaped`, `piecesFrom_quoted`, … — one equation for each step.
* `closeComment_append` — where a comment ends.
* `flatMap_cells_piecesFrom` — **the pieces are the whole text, in order.**
-/

namespace SheetAudit
namespace Source

/-! ### One step -/

@[simp] theorem piecesFrom_nil (quote : Option Char) (code : Bool) :
    piecesFrom quote code [] = [] := by
  rw [piecesFrom]

/-- A backslash in a string takes the next character along. -/
theorem piecesFrom_escaped {x : Cell} (hx : (x.char == '\\') = true) (q : Char) (code : Bool)
    (y : Cell) (xs : List Cell) :
    piecesFrom (some q) code (x :: y :: xs) =
      .code x :: .code y :: piecesFrom (some q) code xs := by
  rw [piecesFrom]
  simp only [hx, if_true]

theorem piecesFrom_escaped_end {x : Cell} (hx : (x.char == '\\') = true) (q : Char)
    (code : Bool) : piecesFrom (some q) code [x] = [.code x] := by
  rw [piecesFrom]
  simp only [hx, if_true]

theorem piecesFrom_quoted {x : Cell} (hx : ¬ (x.char == '\\') = true) (q : Char) (code : Bool)
    (xs : List Cell) :
    piecesFrom (some q) code (x :: xs) =
      .code x :: piecesFrom (if x.char == q || x.char == '\n' then none else some q) code xs := by
  rw [piecesFrom.eq_def]
  simp [hx]

theorem piecesFrom_quote {x : Cell} (hx : (x.char == '"' || x.char == '\'') = true)
    (code : Bool) (xs : List Cell) :
    piecesFrom none code (x :: xs) = .code x :: piecesFrom (some x.char) true xs := by
  rw [piecesFrom.eq_def]
  simp only [hx, if_true]

theorem piecesFrom_newline {x : Cell} (hx : x.char = '\n') (code : Bool) (xs : List Cell) :
    piecesFrom none code (x :: xs) = .code x :: piecesFrom none false xs := by
  rw [piecesFrom.eq_def]
  simp [hx]

theorem piecesFrom_slash_end {x : Cell} (hx : x.char = '/') (code : Bool) :
    piecesFrom none code [x] = [.code x] := by
  rw [piecesFrom]
  simp [hx]

/-- A block comment runs through its `*/`. -/
theorem piecesFrom_block {x y : Cell} (hx : x.char = '/') (hy : y.char = '*')
    {xs inner rest : List Cell} (h : closeComment xs = some (inner, rest)) (code : Bool) :
    piecesFrom none code (x :: y :: xs) =
      .comment true (x :: y :: inner) :: piecesFrom none code rest := by
  rw [piecesFrom]
  simp only [hx, hy]
  simp only [Char.reduceBEq, Bool.or_self, Bool.false_eq_true, if_false, if_true]
  split
  · next heq =>
    obtain ⟨rfl, rfl⟩ : inner = _ ∧ rest = _ := by simpa [h] using heq
    rfl
  · next heq => simp [h] at heq

theorem piecesFrom_unclosed {x y : Cell} (hx : x.char = '/') (hy : y.char = '*')
    {xs : List Cell} (h : closeComment xs = none) (code : Bool) :
    piecesFrom none code (x :: y :: xs) = [.unclosed (x :: y :: xs)] := by
  rw [piecesFrom]
  simp only [hx, hy]
  simp only [Char.reduceBEq, Bool.or_self, Bool.false_eq_true, if_false, if_true]
  split
  · next heq => simp [h] at heq
  · rfl

/-- A line comment runs to the end of its line, and needs a line without code before it. -/
theorem piecesFrom_line {x y : Cell} (hx : x.char = '/') (hy : y.char = '/') (xs : List Cell) :
    piecesFrom none false (x :: y :: xs) =
      .comment false (x :: y :: xs.takeWhile (·.char != '\n')) ::
        piecesFrom none false (xs.dropWhile (·.char != '\n')) := by
  rw [piecesFrom]
  simp [hx, hy]

theorem piecesFrom_slash {x y : Cell} {code : Bool} (hx : x.char = '/') (hy : ¬ y.char = '*')
    (hline : ¬ (y.char == '/' && !code) = true) (xs : List Cell) :
    piecesFrom none code (x :: y :: xs) = .code x :: piecesFrom none true (y :: xs) := by
  rw [piecesFrom]
  simp [hx, hy, hline]

theorem piecesFrom_plain {x : Cell} (hq : ¬ (x.char == '"' || x.char == '\'') = true)
    (hn : ¬ x.char = '\n') (hs : ¬ x.char = '/') (code : Bool) (xs : List Cell) :
    piecesFrom none code (x :: xs) =
      .code x :: piecesFrom none (code || !Text.isSpace x.char) xs := by
  rw [piecesFrom.eq_def]
  simp [hq, hn, hs]

/-- A comment text without an end goes on to the end that is written after it. -/
theorem closeComment_append {text : List Cell} (h : ¬ ['*', '/'] <:+: chars text)
    {star slash : Cell} (hstar : star.char = '*') (hslash : slash.char = '/') (rest : List Cell) :
    closeComment (text ++ star :: slash :: rest) = some (text ++ [star, slash], rest) := by
  induction text with
  | nil => simp [closeComment, hstar, hslash]
  | cons x text ih =>
    have ih := ih fun hin => h (hin.trans (List.infix_cons (List.infix_refl (chars text))))
    -- what follows `x` does not end the comment together with it
    obtain ⟨y, more, hy, hxy⟩ : ∃ y more, text ++ star :: slash :: rest = y :: more ∧
        (x.char == '*' && y.char == '/') = false := by
      cases text with
      | nil => exact ⟨star, slash :: rest, rfl, by simp [hstar]⟩
      | cons y text =>
        refine ⟨y, text ++ star :: slash :: rest, rfl, Bool.eq_false_iff.2 fun hxy => ?_⟩
        rw [Bool.and_eq_true, beq_iff_eq, beq_iff_eq] at hxy
        exact h ⟨[], chars text, by simp [chars, hxy]⟩
    rw [List.cons_append, hy, closeComment, if_neg (by simp [hxy]), ← hy, ih]
    rfl

/-- **The pieces are the whole text, in order.** -/
theorem flatMap_cells_piecesFrom (quote : Option Char) (code : Bool) (xs : List Cell) :
    (piecesFrom quote code xs).flatMap Piece.cells = xs := by
  fun_induction piecesFrom quote code xs with
  | case8 code x _ _ _ y ys _ inner rest h ih =>
    rw [List.flatMap_cons, ih]
    simp [Piece.cells, append_of_closeComment h]
  | case10 code x _ _ _ y ys _ _ ih =>
    rw [List.flatMap_cons, ih]
    simp [Piece.cells]
  | _ => simp_all [Piece.cells]

end Source
end SheetAudit
