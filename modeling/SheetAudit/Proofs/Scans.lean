import SheetAudit.Offsets.Block
import SheetAudit.Proofs.Grammar
import SheetAudit.Proofs.Spans

/-!
# Statements and blocks found by offsets

The scans that look for the end of a statement and for the end of a block stop at the bytes of the
cells that end them.  Such a scan starts outside strings although its range lies in the midst of a
text: a range begins behind a delimiter, and what follows a cell outside strings is marked like a
text of its own.

## Main definitions

* `scanCells` — a scan cell by cell.
* `Follows` — looking at bytes is looking at characters.

## Main results

* `markFrom_front`, `markFrom_rest` — parts of a marked text are marked.
* `scan_eq` — a scan of bytes ends where the scan of the cells does.
* `findDelimiter_eq` — **the end of a statement is found where the statement is cut.**
* `matchingBrace_eq` — **the end of a block is found where the block ends.**
-/

namespace SheetAudit

namespace Source

/-! ### Marked parts of a marked text -/

theorem markFrom_escape {x : Cell} (hx : x.char = '\\') (q : Char) (y : Cell) (xs : List Cell) :
    markFrom (some q) (x :: y :: xs) =
      { x with quoted := true } :: { y with quoted := true } :: markFrom (some q) xs := by
  rw [markFrom.eq_def]
  dsimp only
  rw [if_pos (by simpa using hx)]

theorem markFrom_singleton (q : Char) (x : Cell) :
    markFrom (some q) [x] = [{ x with quoted := true }] := by
  rw [markFrom.eq_def]
  dsimp only
  split <;> rfl

theorem markFrom_quoted {x : Cell} (hx : x.char ≠ '\\') (q : Char) (xs : List Cell) :
    markFrom (some q) (x :: xs) =
      { x with quoted := true } :: markFrom (if x.char == q then none else some q) xs := by
  rw [markFrom.eq_def]
  dsimp only
  rw [if_neg (by simpa using hx)]

/-- Marking looks at characters alone, so a text is marked once for all. -/
theorem markFrom_markFrom : ∀ (quote : Option Char) (xs : List Cell),
    markFrom quote (markFrom quote xs) = markFrom quote xs
  | _, [] => rfl
  | none, x :: xs => by
    rw [markFrom]
    split
    · next hx => rw [markFrom, if_pos (by exact hx), markFrom_markFrom _ xs]
    · next hx => rw [markFrom, if_neg (by exact hx), markFrom_markFrom _ xs]
  | some q, [x] => by rw [markFrom_singleton, markFrom_singleton]
  | some q, x :: y :: xs => by
    by_cases hx : x.char = '\\'
    · rw [markFrom_escape hx, markFrom_escape (by exact hx), markFrom_markFrom _ xs]
    · rw [markFrom_quoted hx, markFrom_quoted (by exact hx), markFrom_markFrom _ (y :: xs)]

/-- The front of a marked text is marked. -/
theorem markFrom_front : ∀ (quote : Option Char) (xs ys : List Cell),
    markFrom quote (xs ++ ys) = xs ++ ys → markFrom quote xs = xs
  | _, [], _, _ => rfl
  | none, x :: xs, ys, h => by
    rw [List.cons_append, markFrom] at h
    rw [markFrom]
    split at h
    · next hx =>
      obtain ⟨hcell, hrest⟩ := List.cons.inj h
      rw [if_pos hx, markFrom_front _ xs ys hrest, hcell]
    · next hx =>
      obtain ⟨hcell, hrest⟩ := List.cons.inj h
      rw [if_neg hx, markFrom_front _ xs ys hrest, hcell]
  | some q, [x], ys, h => by
    have hcell : { x with quoted := true } = x := by
      rw [List.cons_append, markFrom.eq_def] at h
      exact (List.cons.inj h).1
    rw [markFrom_singleton, hcell]
  | some q, x :: y :: xs, ys, h => by
    rw [List.cons_append, List.cons_append] at h
    by_cases hx : x.char = '\\'
    · rw [markFrom_escape hx] at h ⊢
      obtain ⟨hcell, hrest⟩ := List.cons.inj h
      obtain ⟨hnext, hrest⟩ := List.cons.inj hrest
      rw [markFrom_front _ xs ys hrest, hcell, hnext]
    · rw [markFrom_quoted hx] at h ⊢
      obtain ⟨hcell, hrest⟩ := List.cons.inj h
      rw [markFrom_front _ (y :: xs) ys hrest, hcell]

/-- What follows a cell outside strings is marked like a text of its own. -/
theorem markFrom_rest : ∀ (quote : Option Char) (xs : List Cell) (x : Cell) (ys : List Cell),
    markFrom quote (xs ++ x :: ys) = xs ++ x :: ys → x.quoted = false → markFrom none ys = ys
  | none, [], x, ys, h, hx => by
    rw [List.nil_append, markFrom] at h
    split at h
    · rw [← (List.cons.inj h).1] at hx
      cases hx
    · exact (List.cons.inj h).2
  | some q, [], x, ys, h, hx => by
    rw [List.nil_append, markFrom.eq_def] at h
    rw [← (List.cons.inj h).1] at hx
    cases hx
  | none, y :: xs, x, ys, h, hx => by
    rw [List.cons_append, markFrom] at h
    split at h <;> exact markFrom_rest _ xs x ys (List.cons.inj h).2 hx
  | some q, [y], x, ys, h, hx => by
    rw [List.singleton_append] at h
    by_cases hy : y.char = '\\'
    · rw [markFrom_escape hy] at h
      rw [← (List.cons.inj (List.cons.inj h).2).1] at hx
      cases hx
    · rw [markFrom_quoted hy] at h
      exact markFrom_rest _ [] x ys (List.cons.inj h).2 hx
  | some q, y :: z :: xs, x, ys, h, hx => by
    rw [List.cons_append, List.cons_append] at h
    by_cases hy : y.char = '\\'
    · rw [markFrom_escape hy] at h
      exact markFrom_rest _ xs x ys (List.cons.inj (List.cons.inj h).2).2 hx
    · rw [markFrom_quoted hy] at h
      exact markFrom_rest _ (z :: xs) x ys (List.cons.inj h).2 hx

end Source

namespace Offsets

open Source

/-! ### One step of a scan -/

section

variable {σ ρ : Type} {look : σ → UInt8 → Except Fault (Look σ ρ)} {bs : List UInt8} {stop i : Nat}

theorem scan_of_le (h : stop ≤ i) (quote : Option UInt8) (s : σ) :
    scan look bs stop i quote s = .ok none := by
  rw [scan, if_neg (Nat.not_lt.2 h)]
  rfl

theorem scan_quoted {b : UInt8} {rest : List UInt8} (h : bs.drop i = b :: rest) (hi : i < stop)
    (q : UInt8) (s : σ) :
    scan look bs stop i (some q) s =
      if b == '\\'.toUInt8 then scan look bs stop (i + 2) (some q) s
      else scan look bs stop (i + 1) (stringAfter q b) s := by
  rw [scan, if_pos hi, byteAt_of_drop h]
  rfl

theorem scan_none {b : UInt8} {rest : List UInt8} (h : bs.drop i = b :: rest) (hi : i < stop)
    (s : σ) :
    scan look bs stop i none s =
      if isQuoteByte b then scan look bs stop (i + 1) (some b) s
      else do
        match ← look s b with
        | .pass s => scan look bs stop (i + 1) none s
        | .found result => return some (i, result) := by
  rw [scan, if_pos hi, byteAt_of_drop h]
  rfl

/-- Inside a string a scan passes over bytes of larger characters. -/
theorem scan_pass_quoted {high rest : List UInt8} (h : bs.drop i = high ++ rest)
    (hhigh : ∀ b ∈ high, 128 ≤ b.toNat) (hi : i + high.length ≤ stop) {q : Char}
    (hq : q.utf8Size = 1) (s : σ) :
    scan look bs stop i (some q.toUInt8) s =
      scan look bs stop (i + high.length) (some q.toUInt8) s := by
  induction high generalizing i with
  | nil => rfl
  | cons b high ih =>
    rw [List.length_cons] at hi ⊢
    have hb := hhigh b List.mem_cons_self
    have hnext : bs.drop (i + 1) = high ++ rest := drop_succ_of_drop h
    rw [scan_quoted h (by omega), beq_toUInt8_of_le hb (by decide), if_neg Bool.false_ne_true,
      stringAfter, beq_toUInt8_of_le hb hq, if_neg Bool.false_ne_true,
      ih hnext (fun c hc => hhigh c (List.mem_cons_of_mem _ hc)) (by omega), Nat.add_assoc,
      Nat.add_comm 1]

theorem scan_escape {d : Char} {cs : List Char} {rest : List UInt8}
    (h : bs.drop i = encode ('\\' :: d :: cs) ++ rest) (hi : i + 1 + d.utf8Size ≤ stop) {q : Char}
    (hq : q.utf8Size = 1) (s : σ) :
    scan look bs stop i (some q.toUInt8) s =
      scan look bs stop (i + 1 + d.utf8Size) (some q.toUInt8) s := by
  obtain ⟨b, high, hb⟩ := List.exists_cons_of_ne_nil (String.utf8EncodeChar_ne_nil (c := d))
  have hsize : d.utf8Size = high.length + 1 := by
    rw [← String.length_utf8EncodeChar, hb, List.length_cons]
  rw [encode_cons, encodeChar_of_single (by decide), encode_cons, hb] at h
  have hrest : bs.drop (i + 2) = high ++ (encode cs ++ rest) := by
    have htail := drop_succ_of_drop (drop_succ_of_drop h)
    rwa [List.append_eq, List.append_eq, List.append_assoc] at htail
  have hhigh : ∀ b ∈ high, 128 ≤ b.toNat := by
    intro b hin
    by_cases hd : d.utf8Size = 1
    · obtain rfl : high = [] := List.length_eq_zero_iff.1 (by omega)
      exact absurd hin List.not_mem_nil
    · exact le_of_mem_encodeChar hd (hb ▸ List.mem_cons_of_mem _ hin)
  rw [scan_quoted h (by omega), if_pos (beq_self_eq_true _),
    scan_pass_quoted hrest hhigh (by omega) hq, hsize]
  congr 1
  omega

theorem scan_char_quoted {c : Char} {rest : List UInt8}
    (h : bs.drop i = String.utf8EncodeChar c ++ rest) (hi : i + c.utf8Size ≤ stop) (hc : c ≠ '\\')
    {q : Char} (hq : q.utf8Size = 1) (s : σ) :
    scan look bs stop i (some q.toUInt8) s =
      scan look bs stop (i + c.utf8Size)
        ((if c == q then none else some q).map Char.toUInt8) s := by
  by_cases h1 : c.utf8Size = 1
  · rw [encodeChar_of_single h1] at h
    rw [scan_quoted h (by omega), toUInt8_beq h1 (by decide), if_neg (by simpa using hc),
      stringAfter, toUInt8_beq h1 hq, h1]
    split <;> rfl
  · have hne : (c == q) = false := beq_false_of_ne fun h => h1 (h ▸ hq)
    rw [scan_pass_quoted h (fun b => le_of_mem_encodeChar h1) (by
        rwa [String.length_utf8EncodeChar]) hq, String.length_utf8EncodeChar, hne]
    rfl

theorem scan_quote {c : Char} {rest : List UInt8}
    (h : bs.drop i = String.utf8EncodeChar c ++ rest) (hi : i < stop)
    (hc : (c == '"' || c == '\'') = true) (s : σ) :
    c.utf8Size = 1 ∧ scan look bs stop i none s = scan look bs stop (i + 1) (some c.toUInt8) s := by
  have h1 : c.utf8Size = 1 := by
    rw [Bool.or_eq_true, beq_iff_eq, beq_iff_eq] at hc
    rcases hc with rfl | rfl <;> decide
  rw [encodeChar_of_single h1] at h
  rw [scan_none h hi, isQuoteByte_toUInt8 h1, if_pos hc]
  exact ⟨h1, rfl⟩

end

/-! ### A scan of cells -/

section

variable {σ τ ρ : Type}

def Look.map (f : τ → σ) : Look τ ρ → Look σ ρ
  | .pass t => .pass (f t)
  | .found result => .found result

/-- A scan cell by cell: the cells before the one that ends it, and its result. -/
def scanCells (look : τ → Char → Look τ ρ) (t : τ) : List Cell → Option (List Cell × ρ)
  | [] => none
  | x :: xs =>
    if x.quoted then (scanCells look t xs).map fun r => (x :: r.1, r.2)
    else
      match look t x.char with
      | .pass t => (scanCells look t xs).map fun r => (x :: r.1, r.2)
      | .found result => some ([], result)

/-- Looking at bytes in the state `f t` is looking at characters in the state `t`; characters of
several bytes are passed over. -/
structure Follows (look : σ → UInt8 → Except Fault (Look σ ρ)) (look' : τ → Char → Look τ ρ)
    (f : τ → σ) : Prop where
  single : ∀ t c, c.utf8Size = 1 → look (f t) c.toUInt8 = .ok ((look' t c).map f)
  high : ∀ s b, 128 ≤ b.toNat → look s b = .ok (.pass s)
  several : ∀ t c, c.utf8Size ≠ 1 → look' t c = .pass t

theorem scanCells_quoted {look : τ → Char → Look τ ρ} {x : Cell} (hx : x.quoted = true) (t : τ)
    (xs : List Cell) :
    scanCells look t (x :: xs) = (scanCells look t xs).map fun r => (x :: r.1, r.2) := by
  rw [scanCells, if_pos hx]

theorem scanCells_pass {look : τ → Char → Look τ ρ} {x : Cell} (hx : x.quoted = false) {t u : τ}
    (ht : look t x.char = .pass u) (xs : List Cell) :
    scanCells look t (x :: xs) = (scanCells look u xs).map fun r => (x :: r.1, r.2) := by
  rw [scanCells, if_neg (by simp [hx]), ht]

variable {look : σ → UInt8 → Except Fault (Look σ ρ)} {look' : τ → Char → Look τ ρ} {f : τ → σ}
  {bs : List UInt8} {stop i : Nat}

theorem scan_pass (hf : Follows look look' f) {high rest : List UInt8}
    (h : bs.drop i = high ++ rest) (hhigh : ∀ b ∈ high, 128 ≤ b.toNat)
    (hi : i + high.length ≤ stop) (s : σ) :
    scan look bs stop i none s = scan look bs stop (i + high.length) none s := by
  induction high generalizing i with
  | nil => rfl
  | cons b high ih =>
    rw [List.length_cons] at hi ⊢
    have hb := hhigh b List.mem_cons_self
    rw [scan_none h (by omega), isQuoteByte_of_le hb, if_neg Bool.false_ne_true, hf.high s b hb,
      ok_bind]
    dsimp only
    rw [ih (drop_succ_of_drop h) (fun c hc => hhigh c (List.mem_cons_of_mem _ hc)) (by omega),
      Nat.add_assoc, Nat.add_comm 1]

/-- What is found behind a cell is found further on. -/
theorem map_width_cons (i : Nat) (x : Cell) (found : Option (List Cell × ρ)) :
    (found.map fun r => (x :: r.1, r.2)).map (fun r => (i + width r.1, r.2)) =
      found.map fun r => (i + x.char.utf8Size + width r.1, r.2) := by
  rw [Option.map_map]
  refine congrArg (fun g => Option.map g found) (funext fun r => ?_)
  rw [Function.comp_apply, width_cons, Nat.add_assoc]

theorem drop_cell {x : Cell} {xs : List Cell} {rest : List UInt8}
    (h : bs.drop i = encode (chars (x :: xs)) ++ rest) :
    bs.drop i = String.utf8EncodeChar x.char ++ (encode (chars xs) ++ rest) ∧
      bs.drop (i + x.char.utf8Size) = encode (chars xs) ++ rest := by
  have hdrop : bs.drop i = String.utf8EncodeChar x.char ++ (encode (chars xs) ++ rest) := by
    rw [h, chars, List.map_cons, encode_cons, List.append_assoc]
    rfl
  refine ⟨hdrop, ?_⟩
  rw [← String.length_utf8EncodeChar]
  exact drop_add_of_drop hdrop

/-- A scan of the bytes of cells whose strings are marked ends where the scan of the cells does. -/
theorem scan_eq (hf : Follows look look' f) (quote : Option Char) (xs : List Cell) (t : τ)
    {rest : List UInt8} (hmarked : markFrom quote xs = xs)
    (hsingle : ∀ q, quote = some q → q.utf8Size = 1)
    (h : bs.drop i = encode (chars xs) ++ rest) (hstop : stop = i + width xs) :
    scan look bs stop i (quote.map Char.toUInt8) (f t) =
      .ok ((scanCells look' t xs).map fun r => (i + width r.1, r.2)) := by
  fun_induction markFrom quote xs generalizing i t with
  | case1 quote =>
    rw [width_nil, Nat.add_zero] at hstop
    rw [scan_of_le (Nat.le_of_eq hstop)]
    rfl
  | case2 x xs q ihEscape ih =>
    -- in a string
    obtain ⟨hx, hxs⟩ := List.cons.inj hmarked
    have hquoted : x.quoted = true := by rw [← hx]
    rw [scanCells_quoted hquoted, map_width_cons]
    rw [width_cons] at hstop
    obtain ⟨hdrop, hrest⟩ := drop_cell h
    by_cases hc : x.char = '\\'
    · have h1 : '\\'.utf8Size = 1 := by decide
      rw [if_pos (by simpa using hc)] at hxs
      rw [hc, h1] at hstop hrest ⊢
      cases xs with
      | nil =>
        rw [hc, encodeChar_of_single h1] at hdrop
        rw [width_nil] at hstop
        rw [Option.map_some, scan_quoted hdrop (by omega), if_pos (beq_self_eq_true _),
          scan_of_le (by omega)]
        rfl
      | cons y ys =>
        obtain ⟨hy, hys⟩ := List.cons.inj hxs
        have hquoted : y.quoted = true := by rw [← hy]
        rw [width_cons] at hstop
        have hescape : bs.drop i = encode ('\\' :: y.char :: chars ys) ++ rest := by
          rw [h, ← hc]
          rfl
        rw [scanCells_quoted hquoted, map_width_cons, Option.map_some,
          scan_escape hescape (by omega) (hsingle q rfl)]
        exact ihEscape t hys hsingle (drop_cell hrest).2 (by omega)
    · rw [if_neg (by simpa using hc)] at hxs
      rw [Option.map_some, scan_char_quoted hdrop (by omega) hc (hsingle q rfl)]
      refine ih t hxs (fun q' hq' => ?_) hrest (by omega)
      split at hq'
      · cases hq'
      · exact hsingle q' hq'
  | case3 x xs hx ih =>
    -- a string begins
    obtain ⟨hcell, hxs⟩ := List.cons.inj hmarked
    have hquoted : x.quoted = true := by rw [← hcell]
    rw [width_cons] at hstop
    obtain ⟨hdrop, hrest⟩ := drop_cell h
    have hpos := x.char.utf8Size_pos
    have hi : i < stop := by omega
    obtain ⟨h1, hscan⟩ := scan_quote hdrop hi hx (f t)
    rw [scanCells_quoted hquoted, map_width_cons, Option.map_none, hscan, ← h1]
    refine ih t hxs (fun q hq => ?_) hrest (by omega)
    rwa [← Option.some.inj hq]
  | case4 x xs hx ih =>
    -- outside strings
    obtain ⟨hcell, hxs⟩ := List.cons.inj hmarked
    have hquoted : x.quoted = false := by rw [← hcell]
    rw [width_cons] at hstop
    obtain ⟨hdrop, hrest⟩ := drop_cell h
    rw [Option.map_none]
    by_cases h1 : x.char.utf8Size = 1
    · rw [encodeChar_of_single h1] at hdrop
      rw [scan_none hdrop (by omega), isQuoteByte_toUInt8 h1, if_neg hx, hf.single t _ h1, ok_bind]
      cases hlook : look' t x.char with
      | found result =>
        rw [scanCells, if_neg (by simp [hquoted]), hlook]
        rfl
      | pass u =>
        rw [scanCells_pass hquoted hlook, map_width_cons, h1]
        rw [h1] at hrest
        exact ih u hxs (by simp) hrest (by omega)
    · have hlook := hf.several t x.char h1
      rw [scan_pass hf hdrop (fun b => le_of_mem_encodeChar h1) (by
          rw [String.length_utf8EncodeChar]
          omega), String.length_utf8EncodeChar, scanCells_pass hquoted hlook, map_width_cons]
      exact ih t hxs (by simp) hrest (by omega)

end

/-! ### The end of a statement -/

/-- What ends a statement, without its place. -/
def Delimiter.of : Stop → Delimiter
  | .openBrace _ => .openBrace
  | .closeBrace _ => .closeBrace
  | .semicolon => .semicolon
  | .finish => .finish

/-- What a scan for the end of a statement makes of a character. -/
def delimiterLook (depth : Nat) (c : Char) : Look Nat Delimiter :=
  if c == '(' then .pass (depth + 1)
  else if c == ')' then .pass (depth - 1)
  else if c == '{' && depth == 0 then .found .openBrace
  else if c == '}' && depth == 0 then .found .closeBrace
  else if c == ';' && depth == 0 then .found .semicolon
  else .pass depth

theorem follows_delimiterLook :
    Follows (fun depth b => .ok (lookForDelimiter depth b)) delimiterLook id where
  single depth c hc := by
    have hmap (l : Look Nat Delimiter) : l.map id = l := by cases l <;> rfl
    rw [hmap, lookForDelimiter, delimiterLook]
    repeat rw [toUInt8_beq hc (by decide)]
    rfl
  high depth b hb := by
    rw [lookForDelimiter]
    repeat rw [beq_toUInt8_of_le hb (by decide)]
    rfl
  several depth c hc := by
    have hne {d : Char} (hd : d.utf8Size = 1) : (c == d) = false :=
      beq_false_of_ne fun h => hc (h ▸ hd)
    rw [delimiterLook]
    repeat rw [hne (by decide)]
    rfl

/-- Outside strings a cell is what its character is. -/
theorem delimiterLook_cell {x : Cell} (hx : x.quoted = false) (depth : Nat) :
    delimiterLook depth x.char =
      if x.delimits && depth == 0 then .found (.of x.stop) else .pass (x.parens depth) := by
  have his (c : Char) : x.is c = (x.char == c) := by rw [Cell.is, hx, Bool.not_false, Bool.true_and]
  rw [delimiterLook, Cell.delimits, Cell.parens, Cell.stop]
  simp only [his]
  by_cases h₁ : x.char = '('
  · simp [h₁]
  by_cases h₂ : x.char = ')'
  · simp [h₂]
  by_cases h₃ : x.char = '{'
  · simp [h₃, Delimiter.of]
  by_cases h₄ : x.char = '}'
  · simp [h₄, Delimiter.of]
  · simp [h₁, h₂, h₃, h₄, Delimiter.of]

theorem scanCells_delimiterLook (depth : Nat) (xs : List Cell) :
    ((scanCells delimiterLook depth xs).map fun r => (width r.1, r.2)).getD (width xs, .finish) =
      (width (cutFrom depth xs).before, .of (cutFrom depth xs).stop) := by
  induction xs generalizing depth with
  | nil => rfl
  | cons x xs ih =>
    -- a cell that is passed over lies before the end
    have hpass {d : Nat} (hcut : cutFrom depth (x :: xs) =
          { cutFrom d xs with before := x :: (cutFrom d xs).before })
        (hscan : scanCells delimiterLook depth (x :: xs) =
          (scanCells delimiterLook d xs).map fun r => (x :: r.1, r.2)) :
        ((scanCells delimiterLook depth (x :: xs)).map fun r => (width r.1, r.2)).getD
            (width (x :: xs), .finish) =
          (width (cutFrom depth (x :: xs)).before, .of (cutFrom depth (x :: xs)).stop) := by
      have ih := ih d
      rw [hcut, hscan]
      cases hs : scanCells delimiterLook d xs with
      | none =>
        rw [hs] at ih
        obtain ⟨h₁, h₂⟩ := Prod.mk.inj ih
        simp only [Option.map_none, Option.getD_none, width_cons] at h₁ h₂ ⊢
        rw [← h₁, ← h₂]
      | some r =>
        rw [hs] at ih
        obtain ⟨h₁, h₂⟩ := Prod.mk.inj ih
        simp only [Option.map_some, Option.getD_some, width_cons] at h₁ h₂ ⊢
        rw [← h₁, ← h₂]
    cases hx : x.quoted with
    | true =>
      have his (c : Char) : x.is c = false := by rw [Cell.is, hx]; rfl
      refine hpass ?_ (scanCells_quoted hx depth xs)
      have hparens : x.parens depth = depth := by simp [Cell.parens, his]
      have hdelimits : (x.delimits && depth == 0) = false := by simp [Cell.delimits, his]
      have hcut := cutFrom_cons hdelimits xs
      rwa [hparens] at hcut
    | false =>
      have hlook := delimiterLook_cell hx depth
      by_cases hd : (x.delimits && depth == 0) = true
      · obtain ⟨hdelimits, rfl⟩ : x.delimits = true ∧ depth = 0 := by simpa using hd
        rw [if_pos hd] at hlook
        rw [cutFrom_of_delimits hdelimits, scanCells, if_neg (by simp [hx]), hlook]
        rfl
      · rw [if_neg hd] at hlook
        exact hpass (cutFrom_cons (by simpa using hd) xs) (scanCells_pass hx hlook xs)

/-- **The end of a statement is found where the statement is cut.** -/
theorem findDelimiter_eq {bs rest : List UInt8} {i : Nat} {xs : List Cell}
    (hmarked : markStrings xs = xs) (h : bs.drop i = encode (chars xs) ++ rest) :
    findDelimiter bs i (i + width xs) =
      .ok (i + width (cut xs).before, .of (cut xs).stop) := by
  have hscan :
      scan (fun depth b => .ok (lookForDelimiter depth b)) bs (i + width xs) i none 0 = _ :=
    scan_eq follows_delimiterLook none xs 0 hmarked (by simp) h rfl
  have hcells := scanCells_delimiterLook 0 xs
  rw [findDelimiter, hscan, ok_bind, cut]
  cases hs : scanCells delimiterLook 0 xs with
  | none =>
    rw [hs] at hcells
    obtain ⟨h₁, h₂⟩ := Prod.mk.inj hcells
    rw [← h₁, ← h₂]
    rfl
  | some r =>
    rw [hs] at hcells
    obtain ⟨h₁, h₂⟩ := Prod.mk.inj hcells
    rw [← h₁, ← h₂]
    rfl

/-! ### The end of a block -/

/-- What a scan for the end of a block makes of a character; `depth` counts the blocks inside. -/
def braceLook (depth : Nat) (c : Char) : Look Nat Unit :=
  if c == '{' then .pass (depth + 1)
  else if c == '}' then if depth == 0 then .found () else .pass (depth - 1)
  else .pass depth

/-- Inside a block one brace more is open than are counted, so that the count never falls below
zero. -/
theorem follows_braceLook : Follows lookForBrace braceLook (· + 1) where
  single depth c hc := by
    rw [lookForBrace, braceLook, toUInt8_beq hc (by decide), toUInt8_beq hc (by decide)]
    split
    · rfl
    split
    · rw [minus_of_le (Nat.le_add_left 1 depth), ok_bind, Nat.add_sub_cancel]
      cases depth <;> rfl
    · rfl
  high depth b hb := by
    rw [lookForBrace]
    repeat rw [beq_toUInt8_of_le hb (by decide)]
    rfl
  several depth c hc := by
    have hne {d : Char} (hd : d.utf8Size = 1) : (c == d) = false :=
      beq_false_of_ne fun h => hc (h ▸ hd)
    rw [braceLook]
    repeat rw [hne (by decide)]
    rfl

theorem scanCells_braceLook (depth : Nat) (xs : List Cell) :
    scanCells braceLook depth xs = (takeBlockFrom depth xs).map fun r => (r.1, ()) := by
  induction xs generalizing depth with
  | nil => rfl
  | cons x xs ih =>
    rw [takeBlockFrom]
    cases hx : x.quoted with
    | true =>
      have his (c : Char) : x.is c = false := by rw [Cell.is, hx]; rfl
      rw [scanCells_quoted hx, ih]
      simp [his, Option.map_map, Function.comp_def]
    | false =>
      have his (c : Char) : x.is c = (x.char == c) := by
        rw [Cell.is, hx, Bool.not_false, Bool.true_and]
      have hpass {d : Nat} (hlook : braceLook depth x.char = .pass d) :
          scanCells braceLook depth (x :: xs) =
            ((takeBlockFrom d xs).map fun r => (x :: r.1, r.2)).map fun r => (r.1, ()) := by
        rw [scanCells_pass hx hlook, ih]
        cases takeBlockFrom d xs <;> rfl
      rw [his, his]
      by_cases ho : x.char = '{'
      · have hlook : braceLook depth x.char = .pass (depth + 1) := by simp [braceLook, ho]
        rw [hpass hlook]
        simp [ho]
      by_cases hc : x.char = '}'
      · by_cases hd : depth = 0
        · have hlook : braceLook depth x.char = .found () := by simp [braceLook, hc, hd]
          rw [scanCells, if_neg (by simp [hx]), hlook]
          simp [hc, hd]
        · have hlook : braceLook depth x.char = .pass (depth - 1) := by simp [braceLook, hc, hd]
          rw [hpass hlook]
          simp [hc, hd]
      · have hlook : braceLook depth x.char = .pass depth := by simp [braceLook, ho, hc]
        rw [hpass hlook]
        simp [ho, hc]

/-- **The end of a block is found where the block ends.** -/
theorem matchingBrace_eq {bs rest : List UInt8} {i : Nat} {x : Cell} {xs : List Cell}
    (hx : x.is '{' = true) (hmarked : markStrings xs = xs)
    (h : bs.drop i = encode (chars (x :: xs)) ++ rest) :
    matchingBrace bs i (i + width (x :: xs)) =
      .ok ((takeBlock xs).map fun r => i + 1 + width r.1) := by
  obtain ⟨hquoted, hchar⟩ : x.quoted = false ∧ x.char = '{' := by simpa [Cell.is] using hx
  have h1 : '{'.utf8Size = 1 := by decide
  obtain ⟨hdrop, hrest⟩ := drop_cell h
  rw [hchar, encodeChar_of_single h1] at hdrop
  rw [hchar, h1] at hrest
  have hscan : scan lookForBrace bs (i + width (x :: xs)) (i + 1) none 1 = _ :=
    scan_eq follows_braceLook none xs 0 hmarked (by simp) hrest (by
      rw [width_cons, hchar, h1]
      omega)
  have hi : i < i + width (x :: xs) := by
    rw [width_cons, hchar, h1]
    omega
  -- the brace at the start is the one that is counted beyond those inside
  have hopen : scan lookForBrace bs (i + width (x :: xs)) i none 0 =
      scan lookForBrace bs (i + width (x :: xs)) (i + 1) none 1 := by
    rw [scan_none hdrop hi, isQuoteByte_toUInt8 h1]
    rfl
  rw [matchingBrace, hopen, hscan, ok_bind, scanCells_braceLook, takeBlock]
  cases takeBlockFrom 0 xs <;> rfl

/-! ### Space -/

theorem skipSpace_eq {bs rest : List UInt8} {i stop : Nat} {xs : List Cell}
    (h : bs.drop i = encode (chars xs) ++ rest) (hstop : stop = i + width xs) :
    skipSpace bs i stop = .ok (i + width (xs.takeWhile fun x => Text.isSpace x.char)) := by
  induction xs generalizing i with
  | nil =>
    rw [width_nil, Nat.add_zero] at hstop
    rw [skipSpace, if_neg (by omega)]
    rfl
  | cons x xs ih =>
    rw [width_cons] at hstop
    have hpos := x.char.utf8Size_pos
    obtain ⟨hdrop, hrest⟩ := drop_cell h
    by_cases h1 : x.char.utf8Size = 1
    · rw [encodeChar_of_single h1] at hdrop
      rw [skipSpace, if_pos (by omega), byteAt_of_drop hdrop, ok_bind, isSpaceByte_toUInt8 h1,
        List.takeWhile_cons]
      split
      · rw [h1] at hrest hstop
        rw [ih hrest (by omega), width_cons, h1, Nat.add_assoc]
      · rfl
    · obtain ⟨b, high, hb⟩ := List.exists_cons_of_ne_nil
        (String.utf8EncodeChar_ne_nil (c := x.char))
      have hhigh := le_of_mem_encodeChar h1 (hb ▸ List.mem_cons_self)
      have hspace : Text.isSpace x.char = false := isSpace_of_several h1
      rw [hb] at hdrop
      rw [skipSpace, if_pos (by omega), byteAt_of_drop hdrop, ok_bind, isSpaceByte_of_le hhigh,
        List.takeWhile_cons, hspace]
      rfl

end Offsets
end SheetAudit
