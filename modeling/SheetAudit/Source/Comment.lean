import SheetAudit.Source.Cell
import SheetAudit.Text.Blank

/-!
# Comments

A source text is cut into code and comments.  A block comment runs from `/*` to the next `*/`.
A line comment runs from `//` to the end of the line, but only where nothing except blanks and
comments stands before it on its line, so that the slashes of an address are code.  Strings are
code; a string ends at its quote or at the end of the line.

## Main definitions

* `Piece` — one character of code, a comment, or a block comment that is never closed.
* `pieces` — the pieces of a text, in order; together they are the text.
* `strip` — the text with every comment blanked out, byte by byte, newlines kept.
* `comments` — the comments of a text.
-/

namespace SheetAudit
namespace Source

inductive Piece where
  | code (cell : Cell)
  /-- A comment with its delimiters; a line comment without the newline that ends it. -/
  | comment (block : Bool) (cells : List Cell)
  /-- A block comment without an end, and all that follows it. -/
  | unclosed (cells : List Cell)
  deriving Repr

namespace Piece

def cells : Piece → List Cell
  | code c => [c]
  | comment _ cs => cs
  | unclosed cs => cs

end Piece

/-! ### Cutting a text into pieces -/

/-- The cells through the first `*/`, and the cells after it. -/
def closeComment : List Cell → Option (List Cell × List Cell)
  | x :: y :: rest =>
    if x.char == '*' && y.char == '/' then some ([x, y], rest)
    else (closeComment (y :: rest)).map fun r => (x :: r.1, r.2)
  | _ => none

theorem append_of_closeComment {xs inner rest : List Cell}
    (h : closeComment xs = some (inner, rest)) : inner ++ rest = xs := by
  fun_induction closeComment xs generalizing inner rest with
  | case1 x y tail hxy =>
    obtain ⟨rfl, rfl⟩ : [x, y] = inner ∧ tail = rest := by simpa using h
    rfl
  | case2 x y tail hxy ih =>
    obtain ⟨⟨i, r⟩, hr, heq⟩ := Option.map_eq_some_iff.1 h
    simp only [Prod.mk.injEq] at heq
    obtain ⟨rfl, rfl⟩ := heq
    simp [ih hr]
  | case3 => simp at h

theorem length_of_closeComment {xs inner rest : List Cell}
    (h : closeComment xs = some (inner, rest)) : rest.length ≤ xs.length := by
  rw [← append_of_closeComment h]; simp

/-- `quote` is the quote of the string being read, if any; `code` tells whether the current line
holds code already. -/
def piecesFrom (quote : Option Char) (code : Bool) : List Cell → List Piece
  | [] => []
  | x :: xs =>
    match quote with
    | some q =>
      if x.char == '\\' then
        match xs with
        | [] => [.code x]
        | y :: ys => .code x :: .code y :: piecesFrom quote code ys
      else
        .code x :: piecesFrom (if x.char == q || x.char == '\n' then none else quote) code xs
    | none =>
      if x.char == '"' || x.char == '\'' then .code x :: piecesFrom (some x.char) true xs
      else if x.char == '\n' then .code x :: piecesFrom none false xs
      else if x.char == '/' then
        match xs with
        | [] => [.code x]
        | y :: ys =>
          if y.char == '*' then
            match _h : closeComment ys with
            | some (inner, rest) => .comment true (x :: y :: inner) :: piecesFrom none code rest
            | none => [.unclosed (x :: y :: ys)]
          else if y.char == '/' && !code then
            .comment false (x :: y :: ys.takeWhile (·.char != '\n')) ::
              piecesFrom none code (ys.dropWhile (·.char != '\n'))
          else .code x :: piecesFrom none true (y :: ys)
      else .code x :: piecesFrom none (code || !Text.isSpace x.char) xs
termination_by xs => xs.length
decreasing_by
  all_goals simp only [List.length_cons]
  · omega
  · omega
  · omega
  · omega
  · have := length_of_closeComment _h; omega
  · have := (List.dropWhile_sublist (fun c : Cell => c.char != '\n') (l := ys)).length_le; omega
  · omega
  · omega

/-- The pieces of a text. -/
def pieces (xs : List Cell) : List Piece := piecesFrom none false xs

/-! ### Blanking comments -/

/-- A character of a comment makes way for as many spaces as it has bytes; a newline stays. -/
def blank (x : Cell) : List Cell :=
  if x.char == '\n' then [x] else List.replicate x.char.utf8Size { x with char := ' ' }

def Piece.stripped : Piece → List Cell
  | .code c => [c]
  | .comment _ cs => cs.flatMap blank
  | .unclosed cs => cs

/-- The line on which a block comment opens that is never closed. -/
def unclosedLine : List Piece → Option Nat
  | [] => none
  | .unclosed (x :: _) :: _ => some x.pos.line
  | _ :: ps => unclosedLine ps

/-- The text with its comments blanked out; an error is the line of the block comment that is
never closed. -/
def strip (xs : List Cell) : Except Nat (List Cell) :=
  let ps := pieces xs
  match unclosedLine ps with
  | some line => .error line
  | none => .ok (ps.flatMap Piece.stripped)

/-! ### The comments of a text -/

structure Comment where
  /-- What stands between the delimiters, trimmed. -/
  text : List Char
  /-- The line of the opening delimiter. -/
  line : Nat
  /-- Written between `/*` and `*/`. -/
  block : Bool
  deriving Repr, DecidableEq

def Piece.comment? : Piece → Option Comment
  | .comment block (x :: _ :: inner) =>
    some
      { text := Text.trim (chars (if block then inner.take (inner.length - 2) else inner))
        line := x.pos.line
        block }
  | _ => none

/-- The comments of a text in order; a text with an unclosed comment has none. -/
def comments (text : List Char) : List Comment :=
  let ps := pieces (cells text)
  if (unclosedLine ps).isSome then [] else ps.filterMap Piece.comment?

end Source
end SheetAudit
