import SheetAudit.Proofs.Bytes

/-!
# Comments found by offsets

The scan of the bytes of a source text finds the comments that its cells hold.  An escape jumps
over two bytes and may land inside a character; the bytes that are left of the character mean
nothing to the scan, so it arrives where a reading by cells does.

## Main definitions

* `width` — the number of bytes of some cells.
* `At` — what is left of a source text at an offset.
* `spansOf` — the ranges of the comments among pieces.

## Main results

* `commentSpansFrom_eq` — the scan of the bytes finds the comments among the pieces.
* `strip_eq` — **blanking comments by offsets is blanking them cell by cell.**
* `comments_eq` — **the comments found by offsets are the comments of the text.**
-/

namespace SheetAudit
namespace Offsets

open Source

/-! ### One step of the scan -/

theorem commentSpansFrom_of_le {bs : List UInt8} {i : Nat} (h : bs.length ≤ i)
    (quote : Option UInt8) (code : Bool) : commentSpansFrom bs i quote code = .ok [] := by
  rw [commentSpansFrom.eq_def, if_neg (Nat.not_lt.2 h)]

theorem commentSpansFrom_quoted {bs : List UInt8} {i : Nat} {b : UInt8} (hb : bs[i]? = some b)
    (q : UInt8) (code : Bool) :
    commentSpansFrom bs i (some q) code =
      if b == '\\'.toUInt8 then commentSpansFrom bs (i + 2) (some q) code
      else
        commentSpansFrom bs (i + 1)
          (if b == q || b == '\n'.toUInt8 then none else some q) code := by
  rw [commentSpansFrom.eq_def, if_pos (List.getElem?_eq_some_iff.1 hb).1]
  split
  · next heq => simp [hb] at heq
  · next c heq =>
    obtain rfl : b = c := Option.some.inj (hb.symm.trans heq)
    rfl

theorem commentSpansFrom_none {bs : List UInt8} {i : Nat} {b : UInt8} (hb : bs[i]? = some b)
    (code : Bool) :
    commentSpansFrom bs i none code =
      if isQuoteByte b then commentSpansFrom bs (i + 1) (some b) true
      else if b == '/'.toUInt8 && bs[i + 1]? == some '*'.toUInt8 then
        match find? bs (i + 2) ['*'.toUInt8, '/'.toUInt8] with
        | none => do throw (.broken (.unterminatedComment (← lineOf bs i)))
        | some stop => do
          return ⟨i, stop + 2, true⟩ :: (← commentSpansFrom bs (stop + 2) none code)
      else if b == '/'.toUInt8 && bs[i + 1]? == some '/'.toUInt8 && !code then do
        let stop := (find? bs i ['\n'.toUInt8]).getD bs.length
        return ⟨i, stop, false⟩ :: (← commentSpansFrom bs stop none code)
      else if b == '\n'.toUInt8 then commentSpansFrom bs (i + 1) none false
      else commentSpansFrom bs (i + 1) none (code || !isSpaceByte b) := by
  rw [commentSpansFrom.eq_def, if_pos (List.getElem?_eq_some_iff.1 hb).1]
  split
  · next heq => simp [hb] at heq
  · next c heq =>
    obtain rfl : b = c := Option.some.inj (hb.symm.trans heq)
    dsimp only
    split
    · rfl
    · split
      · split <;> simp_all
      · rfl


/-! ### Bytes that mean nothing -/

theorem isQuoteByte_toUInt8 {c : Char} (hc : c.utf8Size = 1) :
    isQuoteByte c.toUInt8 = (c == '"' || c == '\'') := by
  rw [isQuoteByte, toUInt8_beq hc (by decide), toUInt8_beq hc (by decide)]

theorem isSpaceByte_toUInt8 {c : Char} (hc : c.utf8Size = 1) :
    isSpaceByte c.toUInt8 = Text.isSpace c := by
  rw [isSpaceByte, Text.isSpace]
  repeat rw [toUInt8_beq hc (by decide)]

theorem isSpace_of_several {c : Char} (h : c.utf8Size ≠ 1) : Text.isSpace c = false := by
  rw [Bool.eq_false_iff]
  intro hspace
  simp only [Text.isSpace, Bool.or_eq_true, beq_iff_eq] at hspace
  rcases hspace with (((rfl | rfl) | rfl) | rfl) | rfl <;> exact h (by decide)

theorem isQuoteByte_of_le {b : UInt8} (hb : 128 ≤ b.toNat) : isQuoteByte b = false := by
  rw [isQuoteByte, beq_toUInt8_of_le hb (by decide), beq_toUInt8_of_le hb (by decide)]
  rfl

theorem isSpaceByte_of_le {b : UInt8} (hb : 128 ≤ b.toNat) : isSpaceByte b = false := by
  rw [isSpaceByte]
  repeat rw [beq_toUInt8_of_le hb (by decide)]
  rfl

theorem getElem?_of_drop {bs rest : List UInt8} {i : Nat} {b : UInt8} (h : bs.drop i = b :: rest) :
    bs[i]? = some b := by
  rw [← List.head?_drop, h, List.head?_cons]

/-- Inside a string the scan passes over bytes of larger characters. -/
theorem commentSpansFrom_pass_quoted {bs high rest : List UInt8} {i : Nat}
    (h : bs.drop i = high ++ rest) (hhigh : ∀ b ∈ high, 128 ≤ b.toNat) {q : Char}
    (hq : q.utf8Size = 1) (code : Bool) :
    commentSpansFrom bs i (some q.toUInt8) code =
      commentSpansFrom bs (i + high.length) (some q.toUInt8) code := by
  induction high generalizing i with
  | nil => rfl
  | cons b high ih =>
    have hb := hhigh b List.mem_cons_self
    have hnext : bs.drop (i + 1) = high ++ rest := drop_succ_of_drop h
    rw [commentSpansFrom_quoted (getElem?_of_drop h), beq_toUInt8_of_le hb (by decide),
      beq_toUInt8_of_le hb hq, beq_toUInt8_of_le hb (by decide)]
    rw [if_neg Bool.false_ne_true, Bool.or_self, if_neg Bool.false_ne_true,
      ih hnext fun c hc => hhigh c (List.mem_cons_of_mem _ hc), List.length_cons, Nat.add_assoc,
      Nat.add_comm 1]

/-- Outside strings such bytes are code. -/
theorem commentSpansFrom_pass {bs high rest : List UInt8} {i : Nat}
    (h : bs.drop i = high ++ rest) (hhigh : ∀ b ∈ high, 128 ≤ b.toNat) (hne : high ≠ [])
    (code : Bool) :
    commentSpansFrom bs i none code = commentSpansFrom bs (i + high.length) none true := by
  induction high generalizing i code with
  | nil => exact absurd rfl hne
  | cons b high ih =>
    have hb := hhigh b List.mem_cons_self
    have hnext : bs.drop (i + 1) = high ++ rest := drop_succ_of_drop h
    have hstep : commentSpansFrom bs i none code = commentSpansFrom bs (i + 1) none true := by
      rw [commentSpansFrom_none (getElem?_of_drop h), isQuoteByte_of_le hb, isSpaceByte_of_le hb,
        beq_toUInt8_of_le hb (by decide), beq_toUInt8_of_le hb (by decide)]
      simp
    rw [hstep]
    cases high with
    | nil => rfl
    | cons c high =>
      rw [ih hnext (fun c hc => hhigh c (List.mem_cons_of_mem _ hc)) (List.cons_ne_nil c high),
        List.length_cons (a := b), Nat.add_assoc, Nat.add_comm 1]

/-- What a scan sees next. -/
theorem head?_encode_beq {d : Char} (hd : d.utf8Size = 1) (cs : List Char) :
    ((encode cs).head? == some d.toUInt8) = (cs.head? == some d) := by
  cases cs with
  | nil => rfl
  | cons c cs =>
    rw [encode_cons, List.head?_cons]
    by_cases hc : c.utf8Size = 1
    · rw [encodeChar_of_single hc, List.singleton_append, List.head?_cons]
      exact toUInt8_beq hc hd
    · obtain ⟨b, bs, hbs⟩ := List.exists_cons_of_ne_nil (String.utf8EncodeChar_ne_nil (c := c))
      have hb := le_of_mem_encodeChar hc (hbs ▸ List.mem_cons_self)
      have hne : (c == d) = false := beq_false_of_ne fun h => hc (h ▸ hd)
      rw [hbs, List.cons_append, List.head?_cons]
      exact (beq_toUInt8_of_le hb hd).trans hne.symm

/-! ### The ends of comments -/

/-- A comment ends where its end is found. -/
theorem closeComment_cases (xs : List Cell) :
    (closeComment xs = none ∧ Text.splitAt? ['*', '/'] (chars xs) = none) ∨
      ∃ text star slash rest, xs = text ++ star :: slash :: rest ∧ star.char = '*' ∧
        slash.char = '/' ∧ closeComment xs = some (text ++ [star, slash], rest) ∧
        Text.splitAt? ['*', '/'] (chars xs) = some (chars text, chars rest) := by
  fun_induction closeComment xs with
  | case1 x y rest hxy =>
    obtain ⟨hx, hy⟩ : x.char = '*' ∧ y.char = '/' := by simpa using hxy
    refine .inr ⟨[], x, y, rest, rfl, hx, hy, rfl, ?_⟩
    simp [chars, hx, hy, Text.splitAt?, Text.splitBy?, List.isPrefixOf?]
  | case2 x y rest hxy ih =>
    have hsplit : Text.splitAt? ['*', '/'] (chars (x :: y :: rest)) =
        (Text.splitAt? ['*', '/'] (chars (y :: rest))).map fun r => (x.char :: r.1, r.2) := by
      have hstarts : ['*', '/'].isPrefixOf? (chars (x :: y :: rest)) = none := by
        by_cases hx : x.char = '*'
        · have hy : y.char ≠ '/' := fun hy => hxy (by simp [hx, hy])
          simp [chars, List.isPrefixOf?, hy.symm]
        · simp [chars, List.isPrefixOf?, Ne.symm hx]
      rw [chars, List.map_cons, ← chars] at hstarts ⊢
      rw [Text.splitAt?, Text.splitBy?, hstarts]
      rfl
    rcases ih with ⟨hnone, hs⟩ | ⟨text, star, slash, after, hxs, hstar, hslash, hclose, hs⟩
    · exact .inl ⟨by rw [hnone]; rfl, by rw [hsplit, hs]; rfl⟩
    · refine .inr ⟨x :: text, star, slash, after, by rw [hxs]; rfl, hstar, hslash, ?_, ?_⟩
      · rw [hclose]; rfl
      · rw [hsplit, hs]; rfl
  | case3 xs h =>
    refine .inl ⟨rfl, ?_⟩
    rcases xs with _ | ⟨x, _ | ⟨y, rest⟩⟩
    · rfl
    · simp [chars, Text.splitAt?, Text.splitBy?, List.isPrefixOf?]
    · exact absurd rfl (h x y rest)

/-- A text is parted at the first of a character. -/
theorem splitAt?_singleton (d : Char) (cs : List Char) :
    Text.splitAt? [d] cs =
      match cs.dropWhile fun c => c != d with
      | [] => none
      | _ :: after => some (cs.takeWhile fun c => c != d, after) := by
  rw [Text.splitAt?]
  induction cs with
  | nil => rfl
  | cons c cs ih =>
    rw [Text.splitBy?, List.dropWhile_cons, List.takeWhile_cons]
    by_cases hc : c = d
    · simp [hc, List.isPrefixOf?]
    · have hstarts : [d].isPrefixOf? (c :: cs) = none := by
        simp [List.isPrefixOf?, Ne.symm hc]
      rw [hstarts, if_pos (by simpa using hc), if_pos (by simpa using hc), ih]
      cases cs.dropWhile fun c => c != d <;> rfl

/-- What is found first of a character is the end of the text without it. -/
theorem find?_getD {bs : List UInt8} {i : Nat} {cs : List Char} (h : bs.drop i = encode cs)
    (hi : i ≤ bs.length) {d : Char} (hd : d.utf8Size = 1) :
    (find? bs i [d.toUInt8]).getD bs.length = i + size (cs.takeWhile fun c => c != d) := by
  have hlength : bs.length = i + size cs := by
    have := congrArg List.length h
    rw [List.length_drop] at this
    rw [size]
    omega
  have hword : [d.toUInt8] = encode [d] := by
    rw [encode_cons, encodeChar_of_single hd]
    rfl
  rw [find?, h, hword, findFrom_encode (List.cons_ne_nil d []) (by simpa using hd), hlength,
    splitAt?_singleton]
  cases hrest : cs.dropWhile fun c => c != d with
  | nil =>
    have hall := List.takeWhile_append_dropWhile (p := fun c => c != d) (l := cs)
    rw [hrest, List.append_nil] at hall
    rw [hall]
    rfl
  | cons c after => rfl

/-! ### One character of the scan -/

section

variable {bs : List UInt8} {i : Nat} {c : Char} {cs : List Char}

theorem drop_step (h : bs.drop i = encode (c :: cs)) : bs.drop (i + c.utf8Size) = encode cs := by
  rw [← String.length_utf8EncodeChar c]
  exact drop_add_of_drop h

theorem getElem?_of_single (h : bs.drop i = encode (c :: cs)) (hc : c.utf8Size = 1) :
    bs[i]? = some c.toUInt8 := by
  rw [encode_cons, encodeChar_of_single hc] at h
  exact getElem?_of_drop h

/-- What is seen behind a character of one byte. -/
theorem getElem?_succ_beq (h : bs.drop i = encode (c :: cs)) (hc : c.utf8Size = 1) {d : Char}
    (hd : d.utf8Size = 1) : (bs[i + 1]? == some d.toUInt8) = (cs.head? == some d) := by
  have hnext := drop_step h
  rw [hc] at hnext
  rw [← List.head?_drop, hnext, head?_encode_beq hd]

theorem commentSpansFrom_char_quoted (h : bs.drop i = encode (c :: cs)) (hc : c ≠ '\\') {q : Char}
    (hq : q.utf8Size = 1) (code : Bool) :
    commentSpansFrom bs i (some q.toUInt8) code =
      commentSpansFrom bs (i + c.utf8Size)
        ((if c == q || c == '\n' then none else some q).map Char.toUInt8) code := by
  by_cases h1 : c.utf8Size = 1
  · rw [commentSpansFrom_quoted (getElem?_of_single h h1), toUInt8_beq h1 (by decide),
      toUInt8_beq h1 hq, toUInt8_beq h1 (by decide), if_neg (by simpa using hc), h1]
    split <;> rfl
  · have hne : (c == q || c == '\n') = false := by
      rw [Bool.or_eq_false_iff]
      exact ⟨beq_false_of_ne fun h => h1 (h ▸ hq), beq_false_of_ne fun h => h1 (h ▸ by decide)⟩
    rw [commentSpansFrom_pass_quoted h (fun b => le_of_mem_encodeChar h1) hq,
      String.length_utf8EncodeChar, hne]
    rfl

/-- An escape takes a whole character along, although it jumps over two bytes only. -/
theorem commentSpansFrom_escape {d : Char} (h : bs.drop i = encode ('\\' :: d :: cs)) {q : Char}
    (hq : q.utf8Size = 1) (code : Bool) :
    commentSpansFrom bs i (some q.toUInt8) code =
      commentSpansFrom bs (i + 1 + d.utf8Size) (some q.toUInt8) code := by
  have h1 : '\\'.utf8Size = 1 := by decide
  have hnext : bs.drop (i + 1) = encode (d :: cs) := drop_step h
  rw [commentSpansFrom_quoted (getElem?_of_single h h1), if_pos (beq_self_eq_true _)]
  obtain ⟨b, high, hb⟩ := List.exists_cons_of_ne_nil (String.utf8EncodeChar_ne_nil (c := d))
  have hsize : d.utf8Size = high.length + 1 := by
    rw [← String.length_utf8EncodeChar, hb, List.length_cons]
  rw [encode_cons, hb, List.cons_append] at hnext
  have hrest : bs.drop (i + 2) = high ++ encode cs := drop_succ_of_drop hnext
  have hhigh : ∀ b ∈ high, 128 ≤ b.toNat := by
    intro b hin
    by_cases hd : d.utf8Size = 1
    · obtain rfl : high = [] := List.length_eq_zero_iff.1 (by omega)
      exact absurd hin List.not_mem_nil
    · exact le_of_mem_encodeChar hd (hb ▸ List.mem_cons_of_mem _ hin)
  rw [commentSpansFrom_pass_quoted hrest hhigh hq, hsize]
  congr 1
  omega

theorem commentSpansFrom_escape_end (h : bs.drop i = encode ['\\']) (q : UInt8) (code : Bool) :
    commentSpansFrom bs i (some q) code = .ok [] := by
  have hlength := congrArg List.length h
  rw [List.length_drop] at hlength
  have : (encode ['\\']).length = 1 := by decide
  rw [commentSpansFrom_quoted (getElem?_of_single h (by decide)), if_pos (beq_self_eq_true _),
    commentSpansFrom_of_le (by omega)]

theorem commentSpansFrom_quote (h : bs.drop i = encode (c :: cs))
    (hc : (c == '"' || c == '\'') = true) (code : Bool) :
    c.utf8Size = 1 ∧
      commentSpansFrom bs i none code = commentSpansFrom bs (i + 1) (some c.toUInt8) true := by
  have h1 : c.utf8Size = 1 := by
    rw [Bool.or_eq_true, beq_iff_eq, beq_iff_eq] at hc
    rcases hc with rfl | rfl <;> decide
  rw [commentSpansFrom_none (getElem?_of_single h h1), isQuoteByte_toUInt8 h1, if_pos hc]
  exact ⟨h1, rfl⟩

theorem commentSpansFrom_newline (h : bs.drop i = encode ('\n' :: cs)) (code : Bool) :
    commentSpansFrom bs i none code = commentSpansFrom bs (i + 1) none false := by
  rw [commentSpansFrom_none (getElem?_of_single h (by decide))]
  rfl

theorem commentSpansFrom_plain (h : bs.drop i = encode (c :: cs))
    (hq : ¬ (c == '"' || c == '\'') = true) (hn : c ≠ '\n') (hs : c ≠ '/') (code : Bool) :
    commentSpansFrom bs i none code =
      commentSpansFrom bs (i + c.utf8Size) none (code || !Text.isSpace c) := by
  by_cases h1 : c.utf8Size = 1
  · rw [commentSpansFrom_none (getElem?_of_single h h1), isQuoteByte_toUInt8 h1,
      isSpaceByte_toUInt8 h1, toUInt8_beq h1 (by decide), toUInt8_beq h1 (by decide), if_neg hq,
      beq_false_of_ne hn, beq_false_of_ne hs, h1]
    rfl
  · rw [commentSpansFrom_pass h (fun b => le_of_mem_encodeChar h1) String.utf8EncodeChar_ne_nil,
      String.length_utf8EncodeChar, isSpace_of_several h1]
    simp

/-- A slash that begins no comment is code. -/
theorem commentSpansFrom_slash (h : bs.drop i = encode ('/' :: cs)) (hstar : cs.head? ≠ some '*')
    {code : Bool} (hslash : (cs.head? == some '/' && !code) = false) :
    commentSpansFrom bs i none code = commentSpansFrom bs (i + 1) none true := by
  have h1 : '/'.utf8Size = 1 := by decide
  rw [commentSpansFrom_none (getElem?_of_single h h1), getElem?_succ_beq h h1 (by decide),
    getElem?_succ_beq h h1 (by decide), Bool.and_assoc, hslash, beq_false_of_ne hstar,
    isQuoteByte_toUInt8 h1, isSpaceByte_toUInt8 h1]
  have hspace : Text.isSpace '/' = false := by decide
  have hquote : ('/' == '"' || '/' == '\'') = false := by decide
  have hnewline : ('/'.toUInt8 == '\n'.toUInt8) = false := by decide
  rw [hquote, hnewline, hspace, Bool.and_false, Bool.not_false, Bool.or_true]
  rfl

end

/-! ### The bytes of cells -/

theorem chars_cons (x : Cell) (xs : List Cell) : chars (x :: xs) = x.char :: chars xs := rfl

theorem chars_append (xs ys : List Cell) : chars (xs ++ ys) = chars xs ++ chars ys :=
  List.map_append

/-- The number of bytes that some cells have. -/
def width (xs : List Cell) : Nat := size (chars xs)

@[simp] theorem width_nil : width [] = 0 := rfl

@[simp] theorem width_cons (x : Cell) (xs : List Cell) :
    width (x :: xs) = x.char.utf8Size + width xs := by
  rw [width, chars_cons, size_cons, width]

@[simp] theorem width_append (xs ys : List Cell) : width (xs ++ ys) = width xs + width ys := by
  rw [width, chars_append, size_append, width, width]

/-! ### The ranges of pieces -/

/-- The ranges of the comments among pieces that stand from an offset on. -/
def spansOf (i : Nat) : List Piece → List Span
  | [] => []
  | .comment block xs :: ps => ⟨i, i + width xs, block⟩ :: spansOf (i + width xs) ps
  | p :: ps => spansOf (i + width p.cells) ps

/-- What the scan of pieces leads to. -/
def spanned (i : Nat) (ps : List Piece) : Except Halt (List Span) :=
  match unclosedLine ps with
  | some line => .error (.broken (.unterminatedComment line))
  | none => .ok (spansOf i ps)

theorem spanned_code (i : Nat) (x : Cell) (ps : List Piece) :
    spanned i (.code x :: ps) = spanned (i + x.char.utf8Size) ps := by
  rw [spanned, spanned, unclosedLine, spansOf, Piece.cells, width_cons, width_nil, Nat.add_zero]
  all_goals simp

theorem spanned_comment (i : Nat) (block : Bool) (xs : List Cell) (ps : List Piece) :
    spanned i (.comment block xs :: ps) =
      (spanned (i + width xs) ps).map (⟨i, i + width xs, block⟩ :: ·) := by
  rw [spanned, spanned, unclosedLine, spansOf]
  · cases unclosedLine ps <;> rfl
  · simp

/-- At an offset of a source text these cells are left of it. -/
def At (source : List Char) (i : Nat) (xs : List Cell) : Prop :=
  ∃ before, cells source = before ++ xs ∧ width before = i

namespace At

variable {source : List Char} {i : Nat} {x : Cell} {xs ys : List Cell}

theorem start (source : List Char) : At source 0 (cells source) := ⟨[], rfl, rfl⟩

theorem append (h : At source i (xs ++ ys)) : At source (i + width xs) ys := by
  obtain ⟨before, hcells, rfl⟩ := h
  exact ⟨before ++ xs, by rw [hcells, List.append_assoc], width_append before xs⟩

theorem step (h : At source i (x :: xs)) : At source (i + x.char.utf8Size) xs := by
  have h : At source (i + width [x]) xs := h.append
  rwa [width_cons, width_nil, Nat.add_zero] at h

theorem source_eq (h : At source i xs) :
    ∃ before, source = before ++ chars xs ∧ size before = i := by
  obtain ⟨before, hcells, rfl⟩ := h
  refine ⟨chars before, ?_, rfl⟩
  rw [← chars_cells source, hcells, chars_append]

theorem drop (h : At source i xs) : (encode source).drop i = encode (chars xs) := by
  obtain ⟨before, rfl, rfl⟩ := h.source_eq
  rw [encode_append, size, List.drop_left]

theorem le (h : At source i xs) : i ≤ (encode source).length := by
  obtain ⟨before, rfl, rfl⟩ := h.source_eq
  rw [encode_append, List.length_append, size]
  exact Nat.le_add_right _ _

/-- A cell stands where the characters before it end. -/
theorem pos_eq (h : At source i (x :: xs)) :
    ∃ before, source = before ++ chars (x :: xs) ∧ size before = i ∧ x.pos = Pos.after before := by
  obtain ⟨before, hcells, rfl⟩ := h
  refine ⟨chars before, ?_, rfl, ?_⟩
  · rw [← chars_cells source, hcells, chars_append]
  · rw [pos_of_cellsFrom hcells, Pos.foldl_next]

/-- A cell lies on the line that is counted from the bytes before it. -/
theorem lineOf (h : At source i (x :: xs)) : lineOf (encode source) i = .ok x.pos.line := by
  obtain ⟨before, rfl, rfl, hpos⟩ := h.pos_eq
  rw [lineOf_append, hpos]
  rfl

/-- The position of its offset is the position of a cell. -/
theorem position (h : At source i (x :: xs)) : Offsets.position source i = .ok x.pos := by
  obtain ⟨before, rfl, rfl, hpos⟩ := h.pos_eq
  rw [position_append, hpos]

end At

theorem commentSpansFrom_nil {source : List Char} {i : Nat} (h : At source i [])
    (quote : Option UInt8) (code : Bool) :
    commentSpansFrom (encode source) i quote code = .ok [] := by
  have hlength := congrArg List.length h.drop
  rw [List.length_drop] at hlength
  exact commentSpansFrom_of_le (Nat.le_of_sub_eq_zero hlength) _ _

/-- A block comment is looked for to its end. -/
theorem commentSpansFrom_block {bs : List UInt8} {i : Nat} {cs : List Char}
    (h : bs.drop i = encode ('/' :: '*' :: cs)) (code : Bool) :
    commentSpansFrom bs i none code =
      match Text.splitAt? ['*', '/'] cs with
      | none => do throw (.broken (.unterminatedComment (← lineOf bs i)))
      | some r => do
        return ⟨i, i + 2 + size r.1 + 2, true⟩ ::
          (← commentSpansFrom bs (i + 2 + size r.1 + 2) none code) := by
  have h1 : '/'.utf8Size = 1 := by decide
  have hrest : bs.drop (i + 2) = encode cs := drop_step (c := '*') (drop_step (c := '/') h)
  have hfind : find? bs (i + 2) ['*'.toUInt8, '/'.toUInt8] =
      (Text.splitAt? ['*', '/'] cs).map fun r => i + 2 + size r.1 := by
    rw [find?, hrest]
    have hsingle : ∀ c ∈ ['*', '/'], c.utf8Size = 1 := single_of_all (by decide)
    exact findFrom_encode (List.cons_ne_nil '*' ['/']) hsingle (i + 2) cs
  have hstar : ('/'.toUInt8 == '/'.toUInt8 && bs[i + 1]? == some '*'.toUInt8) = true := by
    rw [getElem?_succ_beq h h1 (by decide)]
    rfl
  rw [commentSpansFrom_none (getElem?_of_single h h1), isQuoteByte_toUInt8 h1,
    if_neg (by decide), if_pos hstar, hfind]
  cases Text.splitAt? ['*', '/'] cs <;> rfl

/-- A line comment goes to the end of its line. -/
theorem commentSpansFrom_line {bs : List UInt8} {i : Nat} {cs : List Char}
    (h : bs.drop i = encode ('/' :: '/' :: cs)) (hi : i ≤ bs.length) :
    commentSpansFrom bs i none false = do
      let stop := i + size ('/' :: '/' :: cs.takeWhile fun c => c != '\n')
      return ⟨i, stop, false⟩ :: (← commentSpansFrom bs stop none false) := by
  have h1 : '/'.utf8Size = 1 := by decide
  have hstar : ('/'.toUInt8 == '/'.toUInt8 && bs[i + 1]? == some '*'.toUInt8) = false := by
    rw [getElem?_succ_beq h h1 (by decide)]
    rfl
  have hslash :
      ('/'.toUInt8 == '/'.toUInt8 && bs[i + 1]? == some '/'.toUInt8 && !false) = true := by
    rw [getElem?_succ_beq h h1 (by decide)]
    rfl
  rw [commentSpansFrom_none (getElem?_of_single h h1), isQuoteByte_toUInt8 h1,
    if_neg (by decide), hstar, if_neg Bool.false_ne_true, if_pos hslash,
    find?_getD h hi (by decide)]
  rfl

section

variable {source : List Char} {i : Nat} {x y : Cell} {ys inner rest : List Cell}

/-- Behind a comment the cells after its end are left. -/
theorem At.of_closed (h : At source i (x :: y :: ys))
    (hclose : closeComment ys = some (inner, rest)) :
    At source (i + width (x :: y :: inner)) rest := by
  have h : At source i ((x :: y :: inner) ++ rest) := by
    rw [List.cons_append, List.cons_append, append_of_closeComment hclose]
    exact h
  exact h.append

/-- Behind a line comment the cells from the end of the line on are left. -/
theorem At.of_line (h : At source i (x :: y :: ys)) :
    At source (i + width (x :: y :: ys.takeWhile fun c => c.char != '\n'))
      (ys.dropWhile fun c => c.char != '\n') := by
  have hys :
      ys.takeWhile (fun c => c.char != '\n') ++ ys.dropWhile (fun c => c.char != '\n') = ys :=
    List.takeWhile_append_dropWhile
  have h : At source i ((x :: y :: ys.takeWhile fun c => c.char != '\n') ++
      ys.dropWhile fun c => c.char != '\n') := by
    rw [List.cons_append, List.cons_append, hys]
    exact h
  exact h.append

/-- The range of a block comment is that of its cells. -/
theorem commentSpansFrom_closed (h : At source i (x :: y :: ys)) (hx : x.char = '/')
    (hy : y.char = '*') (hclose : closeComment ys = some (inner, rest)) (code : Bool) :
    commentSpansFrom (encode source) i none code =
      (commentSpansFrom (encode source) (i + width (x :: y :: inner)) none code).map
        (⟨i, i + width (x :: y :: inner), true⟩ :: ·) := by
  obtain ⟨c, p, b⟩ := x
  obtain ⟨d, p', b'⟩ := y
  subst hx hy
  rcases closeComment_cases ys with
    ⟨hnone, -⟩ | ⟨text, star, slash, tail, rfl, hstar, hslash, hsome, hs⟩
  · rw [hnone] at hclose
    cases hclose
  obtain ⟨rfl, rfl⟩ : text ++ [star, slash] = inner ∧ tail = rest := by
    simpa [hsome] using hclose
  have hstop : i + 2 + size (chars text) + 2 =
      i + width (⟨'/', p, b⟩ :: ⟨'*', p', b'⟩ :: (text ++ [star, slash])) := by
    have h1 : '/'.utf8Size = 1 := by decide
    have h2 : '*'.utf8Size = 1 := by decide
    simp only [width_cons, width_append, width_nil, hstar, hslash, h1, h2]
    rw [width]
    omega
  rw [commentSpansFrom_block h.drop, ← chars, hs]
  dsimp only
  rw [hstop]
  rfl

/-- A block comment without an end is told by its line. -/
theorem commentSpansFrom_unclosed (h : At source i (x :: y :: ys)) (hx : x.char = '/')
    (hy : y.char = '*') (hclose : closeComment ys = none) (code : Bool) :
    commentSpansFrom (encode source) i none code =
      .error (.broken (.unterminatedComment x.pos.line)) := by
  have hline := h.lineOf
  obtain ⟨c, p, b⟩ := x
  obtain ⟨d, p', b'⟩ := y
  subst hx hy
  rcases closeComment_cases ys with ⟨-, hs⟩ | ⟨text, star, slash, tail, -, -, -, hsome, -⟩
  · rw [commentSpansFrom_block h.drop, ← chars, hs, hline]
    rfl
  · rw [hsome] at hclose
    cases hclose

/-- The range of a line comment is that of its cells. -/
theorem commentSpansFrom_lineComment (h : At source i (x :: y :: ys)) (hx : x.char = '/')
    (hy : y.char = '/') :
    commentSpansFrom (encode source) i none false =
      (commentSpansFrom (encode source)
          (i + width (x :: y :: ys.takeWhile fun c => c.char != '\n')) none false).map
        (⟨i, i + width (x :: y :: ys.takeWhile fun c => c.char != '\n'), false⟩ :: ·) := by
  obtain ⟨c, p, b⟩ := x
  obtain ⟨d, p', b'⟩ := y
  subst hx hy
  have hstop : i + size ('/' :: '/' :: (chars ys).takeWhile fun c => c != '\n') =
      i + width (⟨'/', p, b⟩ :: ⟨'/', p', b'⟩ :: ys.takeWhile fun c => c.char != '\n') := by
    rw [chars, List.takeWhile_map]
    rfl
  rw [commentSpansFrom_line h.drop h.le, ← chars]
  dsimp only
  rw [hstop]
  rfl

end

/-- The scan of the bytes finds the comments among the pieces. -/
theorem commentSpansFrom_eq {source : List Char} (quote : Option Char) (code : Bool)
    (xs : List Cell) {i : Nat} (h : At source i xs)
    (hsingle : ∀ q, quote = some q → q.utf8Size = 1) :
    commentSpansFrom (encode source) i (quote.map Char.toUInt8) code =
      spanned i (piecesFrom quote code xs) := by
  fun_induction piecesFrom quote code xs generalizing i with
  | case1 quote code => exact commentSpansFrom_nil h _ _
  | case2 code x q hx =>
    obtain ⟨c, p, b⟩ := x
    obtain rfl := eq_of_beq hx
    rw [Option.map_some, commentSpansFrom_escape_end h.drop, spanned_code]
    rfl
  | case3 code x q hx y ys ih =>
    obtain ⟨c, p, b⟩ := x
    obtain rfl := eq_of_beq hx
    rw [spanned_code, spanned_code, Option.map_some,
      commentSpansFrom_escape h.drop (hsingle q rfl)]
    exact ih h.step.step hsingle
  | case4 code x xs q hx ih =>
    rw [spanned_code, Option.map_some,
      commentSpansFrom_char_quoted h.drop (by simpa using hx) (hsingle q rfl)]
    refine ih h.step fun q' hq' => ?_
    split at hq'
    · cases hq'
    · exact hsingle q' hq'
  | case5 code x xs hx ih =>
    obtain ⟨h1, hscan⟩ := commentSpansFrom_quote h.drop hx code
    rw [spanned_code, Option.map_none, hscan, ← h1]
    refine ih h.step fun q hq => ?_
    rwa [← Option.some.inj hq]
  | case6 code x xs _ hx ih =>
    obtain ⟨c, p, b⟩ := x
    obtain rfl := eq_of_beq hx
    rw [spanned_code, Option.map_none, commentSpansFrom_newline h.drop]
    exact ih h.step (by simp)
  | case7 code x _ _ hx =>
    obtain ⟨c, p, b⟩ := x
    obtain rfl := eq_of_beq hx
    rw [spanned_code, Option.map_none, commentSpansFrom_slash h.drop (by simp) rfl]
    exact commentSpansFrom_nil h.step _ _
  | case8 code x _ _ hx y ys hy inner rest hclose ih =>
    rw [spanned_comment, Option.map_none,
      commentSpansFrom_closed h (eq_of_beq hx) (eq_of_beq hy) hclose]
    exact congrArg _ (ih (h.of_closed hclose) (by simp))
  | case9 code x _ _ hx y ys hy hclose =>
    rw [Option.map_none, commentSpansFrom_unclosed h (eq_of_beq hx) (eq_of_beq hy) hclose]
    rfl
  | case10 code x _ _ hx y ys _ hline ih =>
    obtain ⟨hy, rfl⟩ : y.char = '/' ∧ code = false := by simpa using hline
    rw [spanned_comment, Option.map_none, commentSpansFrom_lineComment h (eq_of_beq hx) hy]
    exact congrArg _ (ih h.of_line (by simp))
  | case11 code x _ _ hx y ys hy hline ih =>
    obtain ⟨c, p, b⟩ := x
    obtain rfl := eq_of_beq hx
    rw [spanned_code, Option.map_none, commentSpansFrom_slash h.drop]
    · exact ih h.step (by simp)
    · simpa [chars] using hy
    · simpa [chars] using hline
  | case12 code x xs hx hn hs ih =>
    rw [spanned_code, Option.map_none,
      commentSpansFrom_plain h.drop hx (by simpa using hn) (by simpa using hs)]
    exact ih h.step (by simp)

theorem commentSpans_eq (source : List Char) :
    commentSpans (encode source) = spanned 0 (pieces (cells source)) :=
  commentSpansFrom_eq none false (cells source) (At.start source) (by simp)

/-! ### Blanking comments -/

theorem blankBytes_append (before bs after : List UInt8) :
    blankBytes (before ++ (bs ++ after)) before.length (before.length + bs.length) =
      .ok (before ++ (bs.map blankByte ++ after)) := by
  have hmin : min (before.length + bs.length) (before ++ (bs ++ after)).length =
      (before ++ bs).length := by
    simp only [List.length_append]
    omega
  rw [blankBytes, hmin, if_pos (by simp), List.take_left, ← List.append_assoc, List.take_left,
    List.drop_left, List.drop_left, List.append_assoc]

theorem encode_replicate_space (n : Nat) :
    encode (List.replicate n ' ') = List.replicate n ' '.toUInt8 := by
  induction n with
  | zero => rfl
  | succ n ih => rw [List.replicate_succ, encode_cons, ih, List.replicate_succ]; rfl

/-- Blanking the bytes of a cell blanks the cell. -/
theorem map_blankByte_encodeChar (x : Cell) :
    (String.utf8EncodeChar x.char).map blankByte = encode (chars (blank x)) := by
  rw [blank]
  by_cases hn : x.char = '\n'
  · rw [if_pos (by simp [hn]), chars, List.map_singleton, hn]
    rfl
  · have hbytes : ∀ b ∈ String.utf8EncodeChar x.char, blankByte b = ' '.toUInt8 := by
      intro b hb
      rw [blankByte, if_neg]
      rw [Bool.not_eq_true]
      by_cases hc : x.char.utf8Size = 1
      · rw [encodeChar_of_single hc] at hb
        rw [List.mem_singleton.1 hb, toUInt8_beq hc (by decide)]
        exact beq_false_of_ne hn
      · exact beq_toUInt8_of_le (le_of_mem_encodeChar hc hb) (by decide)
    rw [if_neg (by simpa using hn), chars, List.map_replicate, encode_replicate_space,
      List.map_congr_left hbytes, List.map_const', String.length_utf8EncodeChar]

theorem map_blankByte_encode (xs : List Cell) :
    (encode (chars xs)).map blankByte = encode (chars (xs.flatMap blank)) := by
  induction xs with
  | nil => rfl
  | cons x xs ih =>
    rw [chars_cons, encode_cons, List.map_append, map_blankByte_encodeChar, ih, List.flatMap_cons,
      chars_append, encode_append]

/-- Blanking the ranges of the comments blanks the comments. -/
theorem blankSpans_spansOf (ps : List Piece) (front : List UInt8) :
    blankSpans (front ++ encode (chars (ps.flatMap Piece.cells))) (spansOf front.length ps) =
      .ok (front ++ encode (chars (ps.flatMap Piece.stripped))) := by
  induction ps generalizing front with
  | nil => rfl
  | cons p ps ih =>
    have hlength (bs : List UInt8) : front.length + bs.length = (front ++ bs).length :=
      List.length_append.symm
    rw [List.flatMap_cons, List.flatMap_cons, chars_append, chars_append, encode_append,
      encode_append]
    cases p with
    | comment block xs =>
      have hblank := blankBytes_append front (encode (chars xs))
        (encode (chars (ps.flatMap Piece.cells)))
      have hsame : ((encode (chars xs)).map blankByte).length = (encode (chars xs)).length :=
        List.length_map _
      rw [spansOf, blankSpans, List.foldlM_cons, width, size, Piece.cells, Piece.stripped, hblank,
        ← map_blankByte_encode, ← hsame, hlength, ← List.append_assoc, ← List.append_assoc]
      exact ih _
    | code x =>
      rw [spansOf, width, size, hlength, ← List.append_assoc, ← List.append_assoc]
      · exact ih _
      · simp
    | unclosed xs =>
      rw [spansOf, width, size, hlength, ← List.append_assoc, ← List.append_assoc]
      · exact ih _
      · simp

/-- **Blanking comments by offsets is blanking them cell by cell.** -/
theorem strip_eq (source : List Char) :
    strip source =
      ((Source.strip (cells source)).map chars).mapError
        fun line => .broken (.unterminatedComment line) := by
  have hflat : (pieces (cells source)).flatMap Piece.cells = cells source :=
    flatMap_cells_piecesFrom none false _
  have hblank := blankSpans_spansOf (pieces (cells source)) []
  rw [hflat, chars_cells, List.nil_append, List.nil_append, List.length_nil] at hblank
  rw [strip, commentSpans_eq, spanned, Source.strip]
  cases unclosedLine (pieces (cells source)) with
  | some line => rfl
  | none =>
    have hdecode := decode_encode (chars ((pieces (cells source)).flatMap Piece.stripped))
    change (liftM (blankSpans (encode source) _) >>= fun bs => liftM (decode bs) :
      Except Halt (List Char)) = _
    rw [hblank]
    exact congrArg (Except.mapError Halt.fault) hdecode

/-! ### The comments of a text -/

/-- Delimiters take two bytes. -/
inductive Framed : Piece → Prop where
  | code (x : Cell) : Framed (.code x)
  | unclosed (xs : List Cell) : Framed (.unclosed xs)
  | line {x y : Cell} (text : List Cell) (opens : width [x, y] = 2) :
    Framed (.comment false (x :: y :: text))
  | block {x y : Cell} (text : List Cell) {star slash : Cell} (opens : width [x, y] = 2)
    (closes : width [star, slash] = 2) :
    Framed (.comment true (x :: y :: (text ++ [star, slash])))

theorem framed_of_mem {quote : Option Char} {code : Bool} {xs : List Cell} {p : Piece}
    (h : p ∈ piecesFrom quote code xs) : Framed p := by
  have hslash {x : Cell} (hx : (x.char == '/') = true) : x.char.utf8Size = 1 := by
    rw [eq_of_beq hx]
    decide
  have hstar {x : Cell} (hx : (x.char == '*') = true) : x.char.utf8Size = 1 := by
    rw [eq_of_beq hx]
    decide
  fun_induction piecesFrom quote code xs with
  | case1 => exact absurd h List.not_mem_nil
  | case2 | case7 =>
    obtain rfl := List.mem_singleton.1 h
    exact .code _
  | case3 code x q hx y ys ih =>
    rcases List.mem_cons.1 h with rfl | h
    · exact .code _
    rcases List.mem_cons.1 h with rfl | h
    · exact .code _
    · exact ih h
  | case8 code x _ _ hx y ys hy inner rest hclose ih =>
    rcases List.mem_cons.1 h with rfl | h
    · rcases closeComment_cases ys with ⟨hnone, -⟩ | ⟨text, star, slash, tail, -, hs, hl, hsome, -⟩
      · rw [hnone] at hclose
        cases hclose
      obtain ⟨rfl, -⟩ : text ++ [star, slash] = inner ∧ tail = rest := by
        simpa [hsome] using hclose
      refine .block text ?_ ?_
      · rw [width_cons, width_cons, width_nil, hslash hx, hstar hy]
      · rw [width_cons, width_cons, width_nil, hstar (by simp [hs]), hslash (by simp [hl])]
    · exact ih h
  | case9 =>
    obtain rfl := List.mem_singleton.1 h
    exact .unclosed _
  | case10 code x _ _ hx y ys _ hline ih =>
    rcases List.mem_cons.1 h with rfl | h
    · refine .line _ ?_
      rw [Bool.and_eq_true] at hline
      rw [width_cons, width_cons, width_nil, hslash hx, hslash hline.1]
    · exact ih h
  | case4 | case5 | case6 | case11 | case12 =>
    rename_i ih
    rcases List.mem_cons.1 h with rfl | h
    · exact .code _
    · exact ih h

/-- A range between two parts of the cells of a source. -/
theorem At.slice {source : List Char} {i : Nat} {front text rest : List Cell}
    (h : At source i (front ++ (text ++ rest))) :
    Offsets.slice source (i + width front) (i + width front + width text) = .ok (chars text) := by
  obtain ⟨before, rfl, hsize⟩ := h.append.source_eq
  rw [← hsize, chars_append]
  exact slice_append before (chars text) (chars rest)

/-- The comment in the range of a piece is that of the piece. -/
theorem commentAt_eq {source : List Char} {i : Nat} {block : Bool} {xs rest : List Cell}
    (h : At source i (xs ++ rest)) (hframed : Framed (.comment block xs)) :
    ∃ c, (Piece.comment block xs).comment? = some c ∧
      commentAt source ⟨i, i + width xs, block⟩ = .ok c := by
  cases hframed with
  | @line x y text opens =>
    have hat : At source i ([x, y] ++ (text ++ rest)) := h
    have hwidth : i + width (x :: y :: text) = i + width [x, y] + width text := by
      simp only [width_cons, width_nil]
      omega
    refine ⟨_, rfl, ?_⟩
    rw [commentAt, if_neg Bool.false_ne_true, hwidth, ← opens, hat.slice, ok_bind, h.lineOf]
    rfl
  | @block x y text star slash opens closes =>
    have hat : At source i ([x, y] ++ (text ++ ([star, slash] ++ rest))) := by
      rw [← List.append_assoc text, ← List.append_assoc]
      exact h
    have hminus : minus (i + width (x :: y :: (text ++ [star, slash]))) 2 =
        .ok (i + width [x, y] + width text) := by
      rw [← closes, minus_of_le]
      · simp only [width_cons, width_append, width_nil]
        congr 1
        omega
      · simp only [width_cons, width_append, width_nil]
        omega
    refine ⟨⟨Text.trim (chars text), x.pos.line, true⟩, by simp [Piece.comment?], ?_⟩
    rw [commentAt, if_pos rfl, hminus, ok_bind, ← opens, hat.slice, ok_bind, h.lineOf]
    rfl

theorem mapM_commentAt {source : List Char} {ps : List Piece} {i : Nat}
    (h : At source i (ps.flatMap Piece.cells)) (hframed : ∀ p ∈ ps, Framed p) :
    (spansOf i ps).mapM (commentAt source) = .ok (ps.filterMap Piece.comment?) := by
  induction ps generalizing i with
  | nil => rfl
  | cons p ps ih =>
    have hrest : ∀ q ∈ ps, Framed q := fun q hq => hframed q (List.mem_cons_of_mem _ hq)
    rw [List.flatMap_cons] at h
    cases p with
    | comment block xs =>
      have h : At source i (xs ++ ps.flatMap Piece.cells) := h
      obtain ⟨c, hc, hat⟩ := commentAt_eq h (hframed _ List.mem_cons_self)
      rw [spansOf, List.mapM_cons, hat, ok_bind, ih h.append hrest, ok_bind,
        List.filterMap_cons_some hc]
      rfl
    | code x =>
      rw [spansOf, List.filterMap_cons_none rfl]
      · exact ih h.append hrest
      · simp
    | unclosed xs =>
      rw [spansOf, List.filterMap_cons_none rfl]
      · exact ih h.append hrest
      · simp

/-- **The comments found by offsets are the comments of the text.** -/
theorem comments_eq (source : List Char) : comments source = .ok (Source.comments source) := by
  have hflat : (pieces (cells source)).flatMap Piece.cells = cells source :=
    flatMap_cells_piecesFrom none false _
  have hat : At source 0 ((pieces (cells source)).flatMap Piece.cells) := by
    rw [hflat]
    exact At.start source
  rw [comments, commentSpans_eq, spanned, Source.comments]
  cases unclosedLine (pieces (cells source)) with
  | some line => rfl
  | none => exact mapM_commentAt hat fun p hp => framed_of_mem hp

end Offsets
end SheetAudit
