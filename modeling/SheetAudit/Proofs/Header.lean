import SheetAudit.Proofs.Braces
import SheetAudit.Proofs.Relocation

/-!
# A comment at the head of a style sheet

A comment that is written before a style sheet, on lines of its own, moves the sheet down by its
lines.  When comments make way for spaces it becomes blank text before the first statement or
block, which is no part of either; all that follows is the sheet, moved.

## Main definitions

* `Relocation.down` — the relocation by some lines.

## Main results

* `cellsFrom_down` — a text that stands some lines further down is the text, moved.
* `strip_header` — blanking comments leaves blank text of a comment at the head.
* `readNodes_blank_append` — blank text at the head adds nothing to a style sheet.
* `Sheet.parse_header` — **a comment at the head moves the parts of a style sheet, and the line of
  an error, and changes nothing else.**
-/

namespace SheetAudit

open Source Text

/-! ### Moving down -/

/-- Everything is moved down by some lines. -/
def Relocation.down (lines : Nat) : Relocation where
  pos p := ⟨p.line + lines, p.column⟩
  line n := n + lines
  line_pos _ := rfl

theorem cellsFrom_append (p : Pos) (cs ds : List Char) :
    cellsFrom p (cs ++ ds) = cellsFrom p cs ++ cellsFrom (cs.foldl Pos.next p) ds := by
  induction cs generalizing p with
  | nil => rfl
  | cons c cs ih =>
    rw [List.cons_append, cellsFrom, cellsFrom, ih, List.cons_append, List.foldl_cons]

/-- A text that stands some lines further down is the text, moved. -/
theorem cellsFrom_down (lines : Nat) (p : Pos) (cs : List Char) :
    cellsFrom ⟨p.line + lines, p.column⟩ cs =
      (cellsFrom p cs).map (Relocation.down lines).onCell := by
  induction cs generalizing p with
  | nil => rfl
  | cons c cs ih =>
    have hnext : Pos.next ⟨p.line + lines, p.column⟩ c =
        ⟨(p.next c).line + lines, (p.next c).column⟩ := by
      simp only [Pos.next]
      split
      · rw [Nat.add_right_comm]
      · rfl
    rw [cellsFrom, cellsFrom, hnext, ih]
    rfl

theorem line_foldl_next (p : Pos) (cs : List Char) :
    (cs.foldl Pos.next p).line = p.line + cs.count '\n' := by
  induction cs generalizing p with
  | nil => rfl
  | cons c cs ih =>
    rw [List.foldl_cons, ih, List.count_cons, Pos.next]
    split
    · dsimp only
      omega
    · rfl

/-! ### Blanking the comment -/

/-- Blanking comments leaves blank text of a comment at the head. -/
theorem strip_header {x y star slash newline : Cell} {text : List Cell}
    (hx : x.char = '/') (hy : y.char = '*') (h : ¬ ['*', '/'] <:+: chars text)
    (hstar : star.char = '*') (hslash : slash.char = '/') (hnewline : newline.char = '\n') :
    ∃ gap : List Cell, (∀ z ∈ gap, isSpace z.char = true) ∧ ∀ xs,
      strip (x :: y :: (text ++ [star, slash]) ++ newline :: xs) =
        (strip xs).map (gap ++ ·) := by
  let comment := x :: y :: (text ++ [star, slash])
  refine ⟨comment.flatMap blank ++ [newline], fun z hz => ?_, fun xs => ?_⟩
  · rcases List.mem_append.1 hz with hz | hz
    · obtain ⟨u, -, hu⟩ := List.mem_flatMap.1 hz
      rw [blank] at hu
      split at hu
      · next hn =>
        rw [List.mem_singleton.1 hu, eq_of_beq hn]
        rfl
      · rw [List.eq_of_mem_replicate hu]
        rfl
    · rw [List.mem_singleton.1 hz, hnewline]
      rfl
  · have hclose := closeComment_append h hstar hslash (newline :: xs)
    have hpieces : pieces (comment ++ newline :: xs) =
        .comment true comment :: .code newline :: pieces xs := by
      rw [pieces, pieces, ← piecesFrom_newline hnewline false xs]
      simpa [comment] using piecesFrom_block hx hy hclose false
    simp only [strip]
    rw [hpieces]
    have hline : unclosedLine (.comment true comment :: .code newline :: pieces xs) =
        unclosedLine (pieces xs) := rfl
    rw [hline]
    cases unclosedLine (pieces xs) with
    | some line => rfl
    | none => simp [Piece.stripped, Except.map]

/-- Blank text holds no string. -/
theorem markStrings_blank_append {gap : List Cell} (h : ∀ z ∈ gap, isSpace z.char = true)
    (xs : List Cell) :
    markStrings (gap ++ xs) = (gap.map fun z => { z with quoted := false }) ++ markStrings xs := by
  rw [markStrings, markStrings]
  induction gap with
  | nil => rfl
  | cons z gap ih =>
    have hquote : (z.char == '"' || z.char == '\'') = false := by
      have hz := h z List.mem_cons_self
      simp only [isSpace, Bool.or_eq_true, beq_iff_eq] at hz
      rcases hz with (((hz | hz) | hz) | hz) | hz <;> rw [hz] <;> decide
    rw [List.cons_append, markFrom]
    simp only [hquote, Bool.false_eq_true, if_false]
    rw [ih fun u hu => h u (List.mem_cons_of_mem _ hu)]
    rfl

/-! ### Blank text at the head -/

theorem parensAfter?_of_blank {gap : List Cell} (h : ∀ z ∈ gap, isSpace z.char = true)
    (depth : Nat) : parensAfter? depth gap = some depth := by
  induction gap with
  | nil => rfl
  | cons z gap ih =>
    have hz := isBlank_of_isSpace (h z List.mem_cons_self)
    have his : ∀ c, isBlank c = false → z.is c = false := fun _ => Cell.is_eq_false_of_isBlank hz
    rw [parensAfter?, Cell.delimits, his '{' (by decide), his '}' (by decide),
      his ';' (by decide), Cell.parens, his '(' (by decide), his ')' (by decide)]
    exact ih fun u hu => h u (List.mem_cons_of_mem _ hu)

theorem preludeOf_blank_append {gap : List Cell} (h : ∀ z ∈ gap, isSpace z.char = true)
    (before : List Cell) : preludeOf (gap ++ before) = preludeOf before := by
  rw [preludeOf, preludeOf, List.dropWhile_append_of_pos h]

/-- A statement outside all rules is no part of a style sheet. -/
theorem Sheet.ofNodes_statement (path : String) (text : List Cell) (nodes : List Node) :
    ofNodes path (.statement text :: nodes) = ofNodes path nodes := by
  have hvariable : readVariable? {} text = none := by
    rw [readVariable?]
    cases readDeclaration? text with
    | none => rfl
    | some d => simp
  simp only [ofNodes, Node.customPropertiesIn, Node.customProperties, Node.rulesIn, Node.rules,
    Node.mediaQueriesIn, Node.mediaQueries, Node.keyframesIn, Node.keyframes, hvariable,
    Option.toList_none, List.nil_append]

theorem map_ofNodes_statement (path : String) (text : List Cell)
    (r : Except ReadError (List Node)) :
    (r.map (.statement text :: ·)).map (Sheet.ofNodes path) = r.map (Sheet.ofNodes path) := by
  cases r with
  | error e => rfl
  | ok nodes => simp only [Except.map, Sheet.ofNodes_statement]

/-- A text without delimiters is at most one statement, so it adds nothing to a style sheet. -/
theorem map_ofNodes_of_finish (path : String) {xs : List Cell} (h : cut xs = ⟨xs, .finish, []⟩) :
    (readNodes xs).map (Sheet.ofNodes path) = .ok (.ofNodes path []) := by
  by_cases hxs : xs = []
  · rw [hxs, readNodes]
    rfl
  · rw [readNodes_of_finish hxs h]
    simp only [Except.map, Sheet.ofNodes_statement]

/-- Blank text at the head adds nothing to a style sheet. -/
theorem readNodes_blank_append {gap : List Cell} (h : ∀ z ∈ gap, isSpace z.char = true)
    (path : String) (xs : List Cell) :
    (readNodes (gap ++ xs)).map (Sheet.ofNodes path) =
      (readNodes xs).map (Sheet.ofNodes path) := by
  have hparens {text : List Cell} {d : Nat} (ht : parensAfter? 0 text = some d) :
      parensAfter? 0 (gap ++ text) = some d := by
    rw [parensAfter?_append, parensAfter?_of_blank h, Option.bind_some, ht]
  rcases cut_cases xs with ⟨text, x, rest, rfl, ht, hx, hcut⟩ | ⟨d, hd, hcut⟩
  · -- the gap comes before the first statement or block
    have hgapCut : cut (gap ++ (text ++ x :: rest)) = ⟨gap ++ text, x.stop, rest⟩ := by
      rw [← List.append_assoc]
      exact cut_append (hparens ht) hx rest
    rcases Cell.delimits_cases hx with ho | hc | hs
    · rw [Cell.stop_of_opens ho] at hcut hgapCut
      cases hb : takeBlock rest with
      | none => rw [readNodes_of_unclosed hcut hb, readNodes_of_unclosed hgapCut hb]
      | some r =>
        obtain ⟨content, tail⟩ := r
        rw [readNodes_of_block hcut hb, readNodes_of_block hgapCut hb, preludeOf_blank_append h]
    · rw [Cell.stop_of_closes hc] at hcut hgapCut
      rw [readNodes_of_closeBrace hcut, readNodes_of_closeBrace hgapCut]
    · rw [Cell.stop_of_semicolon hs] at hcut hgapCut
      rw [readNodes_of_semicolon hcut, readNodes_of_semicolon hgapCut, map_ofNodes_statement,
        map_ofNodes_statement]
  · have hgapCut : cut (gap ++ xs) = ⟨gap ++ xs, .finish, []⟩ := cut_eq_self (hparens hd)
    rw [map_ofNodes_of_finish path hgapCut, map_ofNodes_of_finish path hcut]

/-! ### The whole reading -/

/-- The cells of a comment with the line end after it. -/
theorem cells_header (comment : List Char) : ∃ x y text star slash newline,
    cells ('/' :: '*' :: (comment ++ ['*', '/', '\n'])) =
      x :: y :: (text ++ [star, slash]) ++ [newline] ∧
    x.char = '/' ∧ y.char = '*' ∧ chars text = comment ∧ star.char = '*' ∧
    slash.char = '/' ∧ newline.char = '\n' := by
  let p := (Pos.start.next '/').next '*'
  let q := comment.foldl Pos.next p
  refine ⟨⟨'/', .start, false⟩, ⟨'*', Pos.start.next '/', false⟩, cellsFrom p comment,
    ⟨'*', q, false⟩, ⟨'/', q.next '*', false⟩, ⟨'\n', (q.next '*').next '/', false⟩, ?_, rfl, rfl,
    chars_cellsFrom p comment, rfl, rfl, rfl⟩
  rw [cells, cellsFrom, cellsFrom, cellsFrom_append, List.cons_append, List.cons_append,
    List.append_assoc]
  rfl

/-- The source below a comment is the source, moved down by the lines of the comment. -/
theorem cells_below_header (comment source : List Char) :
    cells ('/' :: '*' :: (comment ++ ['*', '/', '\n']) ++ source) =
      cells ('/' :: '*' :: (comment ++ ['*', '/', '\n'])) ++
        (cells source).map (Relocation.down (comment.count '\n' + 1)).onCell := by
  have hend : ('/' :: '*' :: (comment ++ ['*', '/', '\n'])).foldl Pos.next .start =
      ⟨1 + (comment.count '\n' + 1), 1⟩ := by
    have hnext : ∀ p : Pos, ['*', '/', '\n'].foldl Pos.next p = ⟨p.line + 1, 1⟩ := fun _ => rfl
    rw [List.foldl_cons, List.foldl_cons, List.foldl_append, hnext, line_foldl_next, Nat.add_assoc]
    rfl
  rw [cells, cellsFrom_append, hend]
  exact congrArg _ (cellsFrom_down _ .start source)

/-- **A comment at the head moves the parts of a style sheet, and the line of an error, and changes
nothing else.**  They move down by the lines of the comment. -/
theorem Sheet.parse_header (path comment source : String)
    (h : ¬ ['*', '/'] <:+: comment.toList) :
    parse path ("/*" ++ comment ++ "*/\n" ++ source) =
      ((parse path source).map (Relocation.down (comment.toList.count '\n' + 1)).onSheet).mapError
        (Relocation.down (comment.toList.count '\n' + 1)).onError := by
  have htext : ("/*" ++ comment ++ "*/\n" ++ source).toList =
      '/' :: '*' :: (comment.toList ++ ['*', '/', '\n']) ++ source.toList := by
    simp
  obtain ⟨x, y, text, star, slash, newline, hheader, hx, hy, hchars, hstar, hslash, hnewline⟩ :=
    cells_header comment.toList
  obtain ⟨gap, hgap, hstrip⟩ :=
    strip_header hx hy (by rw [hchars]; exact h) hstar hslash hnewline
  rw [parse_eq_ofCells, parse_eq_ofCells, ← ofCells_map, htext, cells_below_header, hheader,
    ofCells, ofCells, List.append_assoc, List.singleton_append, hstrip]
  cases strip ((cells source.toList).map (Relocation.down _).onCell) with
  | error line => rfl
  | ok ys =>
    dsimp only [Except.map]
    rw [markStrings_blank_append hgap]
    refine readNodes_blank_append (fun z hz => ?_) path (markStrings ys)
    obtain ⟨u, hu, rfl⟩ := List.mem_map.1 hz
    exact hgap u hu

/-- A header of two lines that looks like the start of a string and of a comment, before a brace
that closes nothing. -/
theorem Sheet.parse_header_two_lines : ¬ ['*', '/'] <:+: "\"\n/*".toList ∧
    parse "a.css" "\x7d" = .error (.unexpectedBrace 1) ∧
    parse "a.css" ("/*" ++ "\"\n/*" ++ "*/\n" ++ "\x7d") = .error (.unexpectedBrace 3) := by
  have hcomment : ¬ ['*', '/'] <:+: "\"\n/*".toList := by
    simp only [String.reduceToList]
    decide
  have hlines : "\"\n/*".toList.count '\n' + 1 = 2 := by decide
  have hsource : parse "a.css" "\x7d" = .error (.unexpectedBrace 1) := by cbv
  refine ⟨hcomment, hsource, ?_⟩
  rw [parse_header "a.css" "\"\n/*" "\x7d" hcomment, hsource, hlines]
  rfl

end SheetAudit
