/-!
# Blank space and lines

Two notions of blank space occur: `isBlank` is white space of any script, used wherever
text is trimmed or split into words; `isSpace` is the ASCII white space that the structure
of a style sheet is made of.  The vertical tab is the one ASCII character that is blank
without being a space.

## Main definitions

* `trim`, `trimLeft`, `trimRight` — without blanks at the ends.
* `words`, `collapse` — the maximal runs of non-blanks; the same joined by single spaces.
* `lines` — the lines of a text; a line end is a newline with an optional carriage return.
-/

namespace SheetAudit
namespace Text

/-- White space of any script. -/
def isBlank (c : Char) : Bool :=
  let n := c.toNat
  n == 0x20 || (0x9 ≤ n && n ≤ 0xD) || n == 0x85 || n == 0xA0 || n == 0x1680 ||
    (0x2000 ≤ n && n ≤ 0x200A) || n == 0x2028 || n == 0x2029 || n == 0x202F ||
    n == 0x205F || n == 0x3000

/-- Space, tab, newline, form feed or carriage return. -/
def isSpace (c : Char) : Bool :=
  c == ' ' || c == '\t' || c == '\n' || c == '\x0c' || c == '\r'

theorem isBlank_of_isSpace {c : Char} (h : isSpace c = true) : isBlank c = true := by
  simp only [isSpace, Bool.or_eq_true, beq_iff_eq] at h
  rcases h with (((rfl | rfl) | rfl) | rfl) | rfl <;> decide

/-! ### Trimming -/

def trimLeft (cs : List Char) : List Char := cs.dropWhile isBlank

def trimRight (cs : List Char) : List Char := (cs.reverse.dropWhile isBlank).reverse

def trim (cs : List Char) : List Char := trimRight (trimLeft cs)

/-- Without the leading and trailing characters that satisfy `p`. -/
def trimMatches (p : Char → Bool) (cs : List Char) : List Char :=
  ((cs.dropWhile p).reverse.dropWhile p).reverse

/-! ### Words -/

/-- The maximal runs of characters that do not satisfy `p`, in order. -/
def fields (p : Char → Bool) : List Char → List (List Char)
  | [] => []
  | c :: cs =>
    if p c then fields p cs
    else
      match cs with
      | [] => [[c]]
      | d :: _ =>
        if p d then [c] :: fields p cs
        else
          match fields p cs with
          | [] => [[c]]
          | w :: ws => (c :: w) :: ws

def words (cs : List Char) : List (List Char) := fields isBlank cs

/-- Every run of blanks between words becomes one space, and none is left at the ends. -/
def collapse (cs : List Char) : List Char := [' '].intercalate (words cs)

theorem length_fields (p : Char → Bool) (cs : List Char) :
    (fields p cs).flatten.length + (fields p cs).length ≤ cs.length + 1 ∧
      ∀ d ds, cs = d :: ds → p d = true →
        (fields p cs).flatten.length + (fields p cs).length ≤ cs.length := by
  induction cs with
  | nil => simp [fields]
  | cons c cs ih =>
    by_cases hc : p c = true
    · simp only [fields, hc, if_true]
      exact ⟨Nat.le_succ_of_le ih.1, fun _ _ _ _ => ih.1⟩
    · refine ⟨?_, fun d ds h hd => ?_⟩
      · cases cs with
        | nil => simp [fields, hc]
        | cons d ds =>
          rw [fields, if_neg hc]
          by_cases hd : p d = true
          · have := ih.2 d ds rfl hd
            simp only [hd, if_true, List.flatten_cons, List.length_append, List.length_cons,
              List.length_nil] at *
            omega
          · have := ih.1
            rw [if_neg hd]
            split
            · simp
            · next w ws heq =>
              rw [heq] at this
              simp only [List.flatten_cons, List.length_append, List.length_cons] at *
              omega
      · obtain ⟨rfl, rfl⟩ := List.cons.inj h
        exact absurd hd hc

theorem length_intercalate_space (ws : List (List Char)) :
    ([' '].intercalate ws).length = ws.flatten.length + (ws.length - 1) := by
  induction ws with
  | nil => rfl
  | cons w ws ih =>
    cases ws with
    | nil => simp
    | cons v vs =>
      simp only [List.intercalate_cons_cons, List.length_append, List.flatten_cons,
        List.length_cons, List.length_nil] at *
      omega

/-- Collapsing never makes a text longer. -/
theorem length_collapse (cs : List Char) : (collapse cs).length ≤ cs.length := by
  have h := (length_fields isBlank cs).1
  rw [collapse, length_intercalate_space]
  unfold words
  cases hw : fields isBlank cs with
  | nil => simp
  | cons w ws =>
    rw [hw] at h
    simp only [List.length_cons] at h ⊢
    omega

/-! ### Splitting -/

/-- The pieces between the characters that satisfy `p`; never empty, but a piece may be. -/
def splitOn (p : Char → Bool) : List Char → List (List Char)
  | [] => [[]]
  | c :: cs =>
    if p c then [] :: splitOn p cs
    else
      match splitOn p cs with
      | [] => [[c]]
      | w :: ws => (c :: w) :: ws

/-! ### Lines -/

/-- A line that was ended by a newline loses a carriage return before it. -/
def dropReturn (line : List Char) : List Char :=
  match line.reverse with
  | '\r' :: rest => rest.reverse
  | _ => line

/-- The lines of a text.  A newline at the very end begins no further line, and a carriage
return that no newline follows belongs to its line. -/
def lines (cs : List Char) : List (List Char) :=
  match (splitOn (· == '\n') cs).reverse with
  | [] => []
  | last :: ended =>
    let ended := (ended.map dropReturn).reverse
    if last.isEmpty then ended else ended ++ [last]

end Text
end SheetAudit
