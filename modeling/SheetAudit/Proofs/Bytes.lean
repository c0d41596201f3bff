import Mathlib.Data.List.Basic
import SheetAudit.Offsets.Value
import SheetAudit.Proofs.Places

/-!
# Bytes of texts

What the bytes of a text tell about its characters.  A character of one byte is told by its byte
wherever it stands, since no other character has such a byte in it; and an offset between two parts
of a text is one at which the text may be cut.

## Main definitions

* `LastLine front line` — `line` is what has been read of a line that begins behind `front`.

## Main results

* `le_of_mem_encodeChar` — the bytes of a character that has several are not those of single bytes.
* `findFrom_encode` — the bytes of a word are found where the word is.
* `slice_eq_ok_iff` — **a range is cut out exactly where it begins and ends between characters.**
* `position_append` — the position of an offset between two parts of a text.
-/

namespace SheetAudit
namespace Offsets
open Text

/-! ### Characters of one byte -/

theorem encodeChar_of_single {c : Char} (h : c.utf8Size = 1) :
    String.utf8EncodeChar c = [c.toUInt8] :=
  String.utf8EncodeChar_eq_singleton h

theorem toNat_toUInt8 {c : Char} (h : c.utf8Size = 1) : c.toUInt8.toNat = c.val.toNat := by
  have hle := UInt32.le_iff_toNat_le.1 (Char.utf8Size_eq_one_iff.1 h)
  rw [Char.toUInt8, UInt32.toNat_toUInt8, Nat.mod_eq_of_lt]
  exact Nat.lt_of_le_of_lt hle (by decide)

theorem toUInt8_beq {c d : Char} (hc : c.utf8Size = 1) (hd : d.utf8Size = 1) :
    (c.toUInt8 == d.toUInt8) = (c == d) := by
  rw [Bool.eq_iff_iff, beq_iff_eq, beq_iff_eq, ← UInt8.toNat_inj, toNat_toUInt8 hc,
    toNat_toUInt8 hd, UInt32.toNat_inj, Char.val_inj]

/-- The bytes of a character that has more than one are none of those of single bytes. -/
theorem le_of_mem_encodeChar {c : Char} (h : c.utf8Size ≠ 1) {b : UInt8}
    (hb : b ∈ String.utf8EncodeChar c) : 128 ≤ b.toNat := by
  have hlarge : ¬ c.val.toNat ≤ 127 := fun hle =>
    h (Char.utf8Size_eq_one_iff.2 (UInt32.le_iff_toNat_le.2 hle))
  have hvalid : c.val.toNat < 1114112 := by
    rcases c.valid with h | ⟨-, h⟩
    · exact Nat.lt_trans h (by decide)
    · exact h
  simp only [String.utf8EncodeChar] at hb
  rw [if_neg hlarge] at hb
  split at hb
  · simp only [List.mem_cons, List.not_mem_nil, or_false] at hb
    rcases hb with rfl | rfl <;> · simp only [UInt8.toNat_ofNat']; omega
  split at hb
  · simp only [List.mem_cons, List.not_mem_nil, or_false] at hb
    rcases hb with rfl | rfl | rfl <;> · simp only [UInt8.toNat_ofNat']; omega
  · simp only [List.mem_cons, List.not_mem_nil, or_false] at hb
    rcases hb with rfl | rfl | rfl | rfl <;> · simp only [UInt8.toNat_ofNat']; omega

theorem beq_toUInt8_of_le {b : UInt8} (hb : 128 ≤ b.toNat) {d : Char} (hd : d.utf8Size = 1) :
    (b == d.toUInt8) = false := by
  refine beq_false_of_ne ?_
  rintro rfl
  rw [toNat_toUInt8 hd] at hb
  have := UInt32.le_iff_toNat_le.1 (Char.utf8Size_eq_one_iff.1 hd)
  exact absurd (Nat.le_trans hb this) (by decide)

/-- A character of one byte occurs in a text as often as its byte does. -/
theorem count_encode {d : Char} (hd : d.utf8Size = 1) (cs : List Char) :
    (encode cs).count d.toUInt8 = cs.count d := by
  induction cs with
  | nil => rfl
  | cons c cs ih =>
    rw [encode_cons, List.count_append, ih, List.count_cons]
    by_cases hc : c.utf8Size = 1
    · rw [encodeChar_of_single hc, List.count_singleton, toUInt8_beq hc hd]
      omega
    · have hne : (c == d) = false := beq_false_of_ne fun h => hc (h ▸ hd)
      have hcount : (String.utf8EncodeChar c).count d.toUInt8 = 0 :=
        List.count_eq_zero.2 fun h =>
          absurd (beq_toUInt8_of_le (le_of_mem_encodeChar hc h) hd) (by simp)
      rw [hcount, hne]
      simp

/-! ### Steps that do not break down -/

theorem minus_of_le {m n : Nat} (h : n ≤ m) : minus m n = .ok (m - n) := if_pos h

theorem byteAt_of_drop {bs rest : List UInt8} {i : Nat} {b : UInt8} (h : bs.drop i = b :: rest) :
    byteAt bs i = .ok b := by
  have hi : bs[i]? = some b := by rw [← List.head?_drop, h, List.head?_cons]
  rw [byteAt, hi]

theorem drop_add_of_drop {bs front rest : List UInt8} {i : Nat} (h : bs.drop i = front ++ rest) :
    bs.drop (i + front.length) = rest := by
  rw [← List.drop_drop, h, List.drop_left]

theorem drop_succ_of_drop {bs rest : List UInt8} {i : Nat} {b : UInt8} (h : bs.drop i = b :: rest) :
    bs.drop (i + 1) = rest :=
  drop_add_of_drop (show bs.drop i = [b] ++ rest from h)

theorem decode_encode (cs : List Char) : decode (encode cs) = .ok cs := by
  have h : (encode cs).toByteArray.utf8Decode? = some cs.toArray := List.utf8Decode?_utf8Encode
  rw [decode, h]

theorem bytesBefore_append (bs cs : List UInt8) : bytesBefore (bs ++ cs) bs.length = .ok bs := by
  rw [bytesBefore, if_pos (by simp), List.take_left]

/-- The line of an offset between two parts of a text. -/
theorem lineOf_append (before after : List Char) :
    lineOf (encode (before ++ after)) (size before) = .ok (before.count '\n' + 1) := by
  have hle : min (size before) (encode (before ++ after)).length = size before := by
    rw [encode_append, List.length_append]
    exact Nat.min_eq_left (Nat.le_add_right _ _)
  rw [lineOf, hle, encode_append, size, bytesBefore_append]
  exact congrArg (fun n => Except.ok (n + 1)) (count_encode (by decide) before)

/-! ### Ranges -/

theorem dropBytes?_cons {c : Char} {n : Nat} (h : c.utf8Size ≤ n) (cs : List Char) :
    dropBytes? n (c :: cs) = dropBytes? (n - c.utf8Size) cs := by
  cases n with
  | zero => exact absurd h (Nat.not_le.2 c.utf8Size_pos)
  | succ n => rw [dropBytes?, if_neg (Nat.not_lt.2 h)]

theorem takeBytes?_cons {c : Char} {n : Nat} (h : c.utf8Size ≤ n) (cs : List Char) :
    takeBytes? n (c :: cs) = (takeBytes? (n - c.utf8Size) cs).map (c :: ·) := by
  cases n with
  | zero => exact absurd h (Nat.not_le.2 c.utf8Size_pos)
  | succ n => rw [takeBytes?, if_neg (Nat.not_lt.2 h)]

theorem dropBytes?_append (before rest : List Char) :
    dropBytes? (size before) (before ++ rest) = some rest := by
  induction before with
  | nil => cases rest <;> rfl
  | cons c before ih =>
    rw [size_cons, List.cons_append, dropBytes?_cons (Nat.le_add_right _ _),
      Nat.add_sub_cancel_left, ih]

theorem takeBytes?_append (text rest : List Char) :
    takeBytes? (size text) (text ++ rest) = some text := by
  induction text with
  | nil => cases rest <;> rfl
  | cons c text ih =>
    rw [size_cons, List.cons_append, takeBytes?_cons (Nat.le_add_right _ _),
      Nat.add_sub_cancel_left, ih]
    rfl

/-- A part of a text is the range between its offsets. -/
theorem slice_append (before text after : List Char) :
    slice (before ++ (text ++ after)) (size before) (size before + size text) = .ok text := by
  rw [slice, if_pos (Nat.le_add_right _ _), dropBytes?_append, Nat.add_sub_cancel_left]
  simp only [Option.bind_some, takeBytes?_append]

theorem slice_front (text after : List Char) : slice (text ++ after) 0 (size text) = .ok text := by
  have h := slice_append [] text after
  rwa [List.nil_append, size_nil, Nat.zero_add] at h

theorem slice_back (before text : List Char) :
    slice (before ++ text) (size before) (size (before ++ text)) = .ok text := by
  have h := slice_append before text []
  rwa [List.append_nil, ← size_append] at h

theorem exists_of_dropBytes? {n : Nat} {cs rest : List Char} (h : dropBytes? n cs = some rest) :
    ∃ before, cs = before ++ rest ∧ size before = n := by
  fun_induction dropBytes? n cs with
  | case1 cs => exact ⟨[], by rw [Option.some.inj h]; rfl, rfl⟩
  | case2 => cases h
  | case3 => cases h
  | case4 n c cs hn ih =>
    obtain ⟨before, rfl, hsize⟩ := ih h
    refine ⟨c :: before, rfl, ?_⟩
    rw [size_cons, hsize]
    omega

theorem exists_of_takeBytes? {n : Nat} {cs text : List Char} (h : takeBytes? n cs = some text) :
    ∃ after, cs = text ++ after := by
  fun_induction takeBytes? n cs generalizing text with
  | case1 cs => exact ⟨cs, by rw [← Option.some.inj h]; rfl⟩
  | case2 => cases h
  | case3 => cases h
  | case4 n c cs hn ih =>
    obtain ⟨ds, hds, rfl⟩ := Option.map_eq_some_iff.1 h
    obtain ⟨after, rfl⟩ := ih hds
    exact ⟨after, rfl⟩

/-- **A range is cut out of a text exactly where it begins and ends between characters.** -/
theorem slice_eq_ok_iff {text part : List Char} {start stop : Nat} :
    slice text start stop = .ok part ↔
      ∃ before after, text = before ++ (part ++ after) ∧ size before = start ∧
        size before + size part = stop := by
  constructor
  · intro h
    have hsize := size_of_slice h
    rw [slice] at h
    split at h
    · split at h
      · next heq =>
        obtain ⟨rest, hdrop, htake⟩ := Option.bind_eq_some_iff.1 heq
        obtain rfl := Except.ok.inj h
        obtain ⟨before, rfl, rfl⟩ := exists_of_dropBytes? hdrop
        obtain ⟨after, rfl⟩ := exists_of_takeBytes? htake
        exact ⟨before, after, rfl, rfl, hsize⟩
      · cases h
    · cases h
  · rintro ⟨before, after, rfl, rfl, rfl⟩
    exact slice_append before part after

/-- A range that ends within a character of two bytes. -/
example : slice ['a', '\u00e9'] 0 2 = .error (.range 0 2) := by decide

/-! ### Searching -/

theorem isPrefixOf_encode {word : List Char} (hw : ∀ c ∈ word, c.utf8Size = 1) (cs : List Char) :
    (encode word).isPrefixOf (encode cs) = word.isPrefixOf cs := by
  induction word generalizing cs with
  | nil => rfl
  | cons w word ih =>
    have hw1 := hw w List.mem_cons_self
    rw [encode_cons, encodeChar_of_single hw1, List.singleton_append]
    cases cs with
    | nil => rfl
    | cons c cs =>
      rw [encode_cons]
      by_cases hc : c.utf8Size = 1
      · rw [encodeChar_of_single hc, List.singleton_append, List.isPrefixOf, List.isPrefixOf,
          toUInt8_beq hw1 hc, ih fun d hd => hw d (List.mem_cons_of_mem _ hd)]
      · -- a word of single bytes does not begin with a byte of any other character
        obtain ⟨b, bs, hbs⟩ := List.exists_cons_of_ne_nil (String.utf8EncodeChar_ne_nil (c := c))
        have hb := le_of_mem_encodeChar hc (hbs ▸ List.mem_cons_self)
        have hne : (w == c) = false := beq_false_of_ne fun h => hc (h ▸ hw1)
        have hbw : (w.toUInt8 == b) = false := by rw [Bool.beq_comm, beq_toUInt8_of_le hb hw1]
        rw [hbs, List.cons_append, List.isPrefixOf, List.isPrefixOf, hbw, hne]
        rfl

/-- The two ways to ask for a prefix agree. -/
theorem isSome_isPrefixOf? (word cs : List Char) :
    (word.isPrefixOf? cs).isSome = word.isPrefixOf cs := by
  rw [Bool.eq_iff_iff, Option.isSome_iff_exists, List.isPrefixOf_iff_prefix]
  exact exists_congr fun rest => List.isPrefixOf?_eq_some_iff_append_eq

theorem findFrom_pass {w : Char} (hw : w.utf8Size = 1) (word bs : List UInt8) {high : List UInt8}
    (h : ∀ b ∈ high, 128 ≤ b.toNat) (offset : Nat) :
    findFrom offset (w.toUInt8 :: word) (high ++ bs) =
      findFrom (offset + high.length) (w.toUInt8 :: word) bs := by
  induction high generalizing offset with
  | nil => rfl
  | cons b high ih =>
    have hb : (w.toUInt8 == b) = false := by
      rw [Bool.beq_comm, beq_toUInt8_of_le (h b List.mem_cons_self) hw]
    rw [List.cons_append, findFrom, if_neg (by simp [List.isPrefixOf, hb]),
      ih fun c hc => h c (List.mem_cons_of_mem _ hc), List.length_cons, Nat.add_assoc,
      Nat.add_comm 1]

/-- A text of single bytes, told by a test. -/
theorem single_of_all {cs : List Char} (h : (cs.all fun c => c.utf8Size == 1) = true) :
    ∀ c ∈ cs, c.utf8Size = 1 := fun c hc => eq_of_beq (List.all_eq_true.1 h c hc)

/-- The bytes of a word of single bytes are found where the word is. -/
theorem findFrom_encode {word : List Char} (hne : word ≠ []) (hw : ∀ c ∈ word, c.utf8Size = 1)
    (offset : Nat) (cs : List Char) :
    findFrom offset (encode word) (encode cs) =
      (splitAt? word cs).map fun r => offset + size r.1 := by
  obtain ⟨w, ws, rfl⟩ := List.exists_cons_of_ne_nil hne
  have hw1 := hw w List.mem_cons_self
  induction cs generalizing offset with
  | nil => rfl
  | cons c cs ih =>
    rw [splitAt?, splitBy?]
    have hstarts := isPrefixOf_encode hw (c :: cs)
    rw [← isSome_isPrefixOf? (w :: ws)] at hstarts
    cases hdrop : (w :: ws).isPrefixOf? (c :: cs) with
    | some rest =>
      rw [hdrop, Option.isSome_some] at hstarts
      obtain ⟨b, bs, hbs⟩ := List.exists_cons_of_ne_nil (String.utf8EncodeChar_ne_nil (c := c))
      rw [encode_cons c, hbs, List.cons_append] at hstarts ⊢
      rw [findFrom, if_pos hstarts]
      rfl
    | none =>
      rw [hdrop, Option.isSome_none] at hstarts
      have hnext : findFrom offset (encode (w :: ws)) (encode (c :: cs)) =
          findFrom (offset + c.utf8Size) (encode (w :: ws)) (encode cs) := by
        by_cases hc : c.utf8Size = 1
        · rw [encode_cons c, encodeChar_of_single hc, List.singleton_append] at hstarts ⊢
          rw [findFrom, if_neg (by rw [hstarts]; simp), hc]
        · have hlength : (String.utf8EncodeChar c).length = c.utf8Size :=
            String.length_utf8EncodeChar c
          rw [encode_cons c, encode_cons w, encodeChar_of_single hw1, List.singleton_append,
            findFrom_pass hw1 _ _ fun b => le_of_mem_encodeChar hc, hlength]
      rw [hnext, ih, splitAt?, Option.map_map]
      refine congrArg (fun f => Option.map f _) (funext fun r => ?_)
      simp [Nat.add_assoc]

/-! ### Positions -/

theorem lineStartsFrom_append (offset : Nat) (bs cs : List UInt8) :
    lineStartsFrom offset (bs ++ cs) =
      lineStartsFrom offset bs ++ lineStartsFrom (offset + bs.length) cs := by
  induction bs generalizing offset with
  | nil => rfl
  | cons b bs ih =>
    rw [List.cons_append, lineStartsFrom, lineStartsFrom, ih, List.length_cons, Nat.add_assoc,
      Nat.add_comm 1]
    split <;> rfl

theorem bounds_of_mem_lineStartsFrom {offset n : Nat} {bs : List UInt8}
    (h : n ∈ lineStartsFrom offset bs) : offset < n ∧ n ≤ offset + bs.length := by
  induction bs generalizing offset with
  | nil => exact absurd h List.not_mem_nil
  | cons b bs ih =>
    rw [List.length_cons]
    rw [lineStartsFrom] at h
    split at h
    · rcases List.mem_cons.1 h with rfl | h
      · omega
      · have := ih h
        omega
    · have := ih h
      omega

theorem length_lineStartsFrom (offset : Nat) (bs : List UInt8) :
    (lineStartsFrom offset bs).length = bs.count '\n'.toUInt8 := by
  induction bs generalizing offset with
  | nil => rfl
  | cons b bs ih =>
    rw [lineStartsFrom, List.count_cons]
    split
    · rw [List.length_cons, ih]
    · rw [ih, Nat.add_zero]

/-- Only behind a newline a line begins. -/
theorem lineStartsFrom_of_ne {c : Char} (hc : c ≠ '\n') (offset : Nat) :
    lineStartsFrom offset (encode [c]) = [] := by
  have hcount : (encode [c]).count '\n'.toUInt8 = 0 := by
    rw [count_encode (by decide), List.count_singleton, if_neg (by simpa using hc)]
  exact List.length_eq_zero_iff.1 (by rw [length_lineStartsFrom, hcount])

/-- `line` is what has been read of a line that begins behind `front`. -/
structure LastLine (front line : List Char) : Prop where
  start : (lineStarts (encode (front ++ line))).getLast? = some (size front)
  after : Pos.after (front ++ line) = ⟨(front ++ line).count '\n' + 1, line.length + 1⟩

namespace LastLine

theorem nil : LastLine [] [] := ⟨rfl, rfl⟩

/-- A newline ends its line, and another one begins. -/
theorem newline (before : List Char) : LastLine (before ++ ['\n']) [] where
  start := by
    have hstart : lineStartsFrom (encode before).length (encode ['\n']) =
        [size (before ++ ['\n'])] := by
      rw [size_append]
      rfl
    rw [List.append_nil, lineStarts, encode_append, lineStartsFrom_append, Nat.zero_add, hstart,
      ← List.cons_append, List.getLast?_concat]
  after := by
    rw [List.append_nil, Pos.after, List.reverse_append]
    rfl

/-- Any other character goes on with the line. -/
theorem snoc {front line : List Char} (h : LastLine front line) {c : Char} (hc : c ≠ '\n') :
    LastLine front (line ++ [c]) where
  start := by
    rw [← List.append_assoc, lineStarts, encode_append, lineStartsFrom_append,
      lineStartsFrom_of_ne hc, List.append_nil, ← h.start, lineStarts]
  after := by
    have hpos := h.after
    rw [Pos.after, Pos.mk.injEq] at hpos
    rw [← List.append_assoc, Pos.after, List.reverse_append, List.reverse_singleton,
      List.singleton_append, List.takeWhile_cons, if_pos (by simpa using hc), List.length_cons,
      hpos.2, List.length_append, List.length_singleton]

end LastLine

/-- The last line that a part of a text begins, up to the end of the part. -/
theorem exists_lastLine (before : List Char) :
    ∃ front line, before = front ++ line ∧ LastLine front line := by
  induction before using List.reverseRecOn with
  | nil => exact ⟨[], [], rfl, .nil⟩
  | append_singleton before c ih =>
    obtain ⟨front, line, rfl, h⟩ := ih
    by_cases hc : c = '\n'
    · exact ⟨_, [], (List.append_nil _).symm, hc ▸ .newline (front ++ line)⟩
    · exact ⟨front, line ++ [c], List.append_assoc _ _ _, h.snoc hc⟩

/-- The position of an offset is told by the last line that begins no later. -/
theorem position_of_lastLine {front line rest : List Char} (h : LastLine front line) {offset : Nat}
    (hle : size (front ++ line) ≤ offset)
    (hrest : ∀ n ∈ lineStartsFrom (size (front ++ line)) (encode rest), offset < n) :
    position (front ++ line ++ rest) offset = .ok ⟨(front ++ line).count '\n' + 1,
      (match slice (front ++ line ++ rest) (size front) offset with
        | .ok text => text.length
        | .error _ => offset - size front) + 1⟩ := by
  have hcount : (lineStarts (encode (front ++ line))).length = (front ++ line).count '\n' + 1 := by
    rw [lineStarts, List.length_cons, length_lineStartsFrom, count_encode (by decide)]
  -- the lines that begin no later than the offset are those of the first part
  have hsplit : lineStarts (encode (front ++ line ++ rest)) =
      lineStarts (encode (front ++ line)) ++
        lineStartsFrom (size (front ++ line)) (encode rest) := by
    rw [lineStarts, encode_append (front ++ line), lineStartsFrom_append, Nat.zero_add]
    rfl
  have htake : (lineStarts (encode (front ++ line ++ rest))).takeWhile
      (fun n => decide (n ≤ offset)) = lineStarts (encode (front ++ line)) := by
    rw [hsplit, List.takeWhile_append_of_pos, List.append_right_eq_self]
    · rw [List.takeWhile_eq_nil_iff]
      intro hlt
      have := hrest _ (List.getElem_mem hlt)
      simpa using this
    · intro n hn
      rcases List.mem_cons.1 hn with rfl | hn
      · exact decide_eq_true (Nat.zero_le _)
      · have := (bounds_of_mem_lineStartsFrom hn).2
        rw [Nat.zero_add] at this
        exact decide_eq_true (Nat.le_trans this hle)
  have hget : (lineStarts (encode (front ++ line ++ rest)))[(front ++ line).count '\n']? =
      some (size front) := by
    rw [hsplit, List.getElem?_append_left (by omega), ← h.start, List.getLast?_eq_getElem?, hcount]
    rfl
  have hbytes : minus offset (size front) = .ok (offset - size front) :=
    minus_of_le (Nat.le_trans (by rw [size_append]; exact Nat.le_add_right _ _) hle)
  rw [position]
  simp only [htake, hcount, Nat.add_sub_cancel, hget, hbytes]
  rfl

/-- The position of an offset between two parts of a text is that after the first. -/
theorem position_append (before after : List Char) :
    position (before ++ after) (size before) = .ok (Pos.after before) := by
  obtain ⟨front, line, rfl, h⟩ := exists_lastLine before
  have hslice : slice (front ++ line ++ after) (size front) (size (front ++ line)) = .ok line := by
    rw [List.append_assoc, size_append]
    exact slice_append front line after
  rw [position_of_lastLine h (Nat.le_refl _) fun n hn => (bounds_of_mem_lineStartsFrom hn).1,
    hslice, h.after]

/-- Where the range cannot be cut out, the column counts the bytes of the line. -/
theorem position_of_not_cut {front line rest : List Char} (h : LastLine front line) {k : Nat}
    (hcut : ∀ before after, front ++ line ++ rest = before ++ after →
      size before ≠ size (front ++ line) + k)
    (hrest : ∀ n ∈ lineStartsFrom (size (front ++ line)) (encode rest),
      size (front ++ line) + k < n) :
    position (front ++ line ++ rest) (size (front ++ line) + k) =
      .ok ⟨(Pos.after (front ++ line)).line, size line + k + 1⟩ := by
  rw [position_of_lastLine h (Nat.le_add_right _ _) hrest]
  cases hslice : slice (front ++ line ++ rest) (size front) (size (front ++ line) + k) with
  | ok part =>
    -- the range would end between two characters
    obtain ⟨before, after, htext, hbefore, hsize⟩ := slice_eq_ok_iff.1 hslice
    rw [← List.append_assoc] at htext
    exact absurd (size_append before part ▸ hsize) (hcut _ _ htext)
  | error f =>
    have hcolumn : size (front ++ line) + k - size front = size line + k := by
      rw [size_append]
      omega
    rw [hcolumn, h.after]

end Offsets
end SheetAudit
