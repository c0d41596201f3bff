import SheetAudit.Offsets.Lines
import SheetAudit.Proofs.Bytes

/-!
# Positions of offsets

The position of an offset is that of the character which begins there, whether it is looked up
among the beginnings of the lines or counted from the start of the text.  Different boundaries of a
text never share a position.

## Main definitions

* `IsBoundary` — an offset at which a character begins or the text ends.

## Main results

* `bisect_eq` — halving finds the place where a list goes beyond a bound.
* `position_eq_positionAt` — positions are counted as they are looked up, at every offset.
* `boundary_positions` — **at a boundary a position counts the line ends and the characters behind
  the last of them, and it grows with the offset.**
-/

namespace SheetAudit
namespace Offsets

open Source

/-! ### Halving -/

/-- Halving finds the place where a list goes beyond a bound. -/
theorem bisect_eq {ys zs : List Nat} {n : Nat} (hys : ∀ y ∈ ys, y ≤ n) (hzs : ∀ z ∈ zs, n < z)
    {low high : Nat} (hlow : low ≤ ys.length) (hhigh : ys.length ≤ high)
    (hle : high ≤ (ys ++ zs).length) : bisect (ys ++ zs) n low high = .ok ys.length := by
  fun_induction bisect (ys ++ zs) n low high with
  | case1 low high hlt hnone =>
    rw [List.getElem?_eq_none_iff] at hnone
    omega
  | case2 low high hlt x hx hxn ih =>
    -- an entry up to the bound does not stand behind the place
    refine ih (Nat.lt_of_not_le fun hge => ?_) hhigh hle
    rw [List.getElem?_append_right hge] at hx
    exact absurd (hzs x (List.mem_of_getElem? hx)) (Nat.not_lt.2 hxn)
  | case3 low high hlt x hx hxn ih =>
    refine ih hlow (Nat.le_of_not_lt fun hlt' => hxn ?_) (by omega)
    rw [List.getElem?_append_left hlt'] at hx
    exact hys x (List.mem_of_getElem? hx)
  | case4 low high hlt => rw [Nat.le_antisymm hlow (by omega)]

theorem pairwise_lineStartsFrom (offset : Nat) (bs : List UInt8) :
    (lineStartsFrom offset bs).Pairwise (· < ·) := by
  induction bs generalizing offset with
  | nil => exact .nil
  | cons b bs ih =>
    rw [lineStartsFrom]
    split
    · exact List.pairwise_cons.2 ⟨fun n hn => (bounds_of_mem_lineStartsFrom hn).1, ih _⟩
    · exact ih _

/-- The lines of a text begin one behind the other. -/
theorem pairwise_lineStarts (bs : List UInt8) : (lineStarts bs).Pairwise (· < ·) :=
  List.pairwise_cons.2
    ⟨fun _ hn => (bounds_of_mem_lineStartsFrom hn).1, pairwise_lineStartsFrom 0 bs⟩

/-- What ascends goes beyond a bound once and for all. -/
theorem lt_of_mem_dropWhile {xs : List Nat} (h : xs.Pairwise (· < ·)) {n : Nat} :
    ∀ z ∈ xs.dropWhile (fun x => decide (x ≤ n)), n < z := by
  intro z hz
  cases hdrop : xs.dropWhile fun x => decide (x ≤ n) with
  | nil => rw [hdrop] at hz; cases hz
  | cons y ys =>
    have hy : n < y := by
      have hhead := List.head?_dropWhile_not (fun x => decide (x ≤ n)) xs
      simpa [hdrop] using hhead
    have hpairwise := h.sublist (List.dropWhile_sublist fun x => decide (x ≤ n))
    rw [hdrop] at hz hpairwise
    rcases List.mem_cons.1 hz with rfl | hz
    · exact hy
    · exact Nat.lt_trans hy (List.rel_of_pairwise_cons hpairwise hz)

/-- Of an ascending list, halving counts the entries up to the bound. -/
theorem bisect_of_pairwise {xs : List Nat} (h : xs.Pairwise (· < ·)) (n : Nat) :
    bisect xs n 0 xs.length = .ok (xs.takeWhile fun x => decide (x ≤ n)).length := by
  have hparts : (xs.takeWhile fun x => decide (x ≤ n)) ++ (xs.dropWhile fun x => decide (x ≤ n)) =
      xs := List.takeWhile_append_dropWhile
  have htake : ∀ y ∈ xs.takeWhile fun x => decide (x ≤ n), y ≤ n := fun y hy =>
    of_decide_eq_true (List.mem_takeWhile_imp (p := fun x => decide (x ≤ n)) hy)
  have hbisect := bisect_eq htake (lt_of_mem_dropWhile h) (Nat.zero_le _)
    (List.takeWhile_sublist _).length_le (Nat.le_of_eq (congrArg List.length hparts.symm))
  rwa [hparts] at hbisect

/-- The line found by halving is the last one that begins no later than the offset. -/
theorem LineIndex.position_eq (index : LineIndex) (offset : Nat) :
    index.position offset = Offsets.position index.text offset := by
  obtain ⟨text, starts, rfl⟩ := index
  rw [LineIndex.position, bisect_of_pairwise (pairwise_lineStarts _), ok_bind]
  rfl

/-! ### Counting -/

/-- An offset between two characters of a text, or at one of its ends. -/
def IsBoundary (text : List Char) (offset : Nat) : Prop :=
  ∃ before after, text = before ++ after ∧ size before = offset

/-- No boundary lies within a character. -/
theorem not_boundary_within {front cs : List Char} {c : Char} {k : Nat} (hk : k < c.utf8Size)
    (hpos : k ≠ 0) : ¬ IsBoundary (front ++ c :: cs) (size front + k) := by
  rintro ⟨before, after, htext, hsize⟩
  rcases List.append_eq_append_iff.1 htext with ⟨mid, rfl, hmid⟩ | ⟨mid, rfl, -⟩
  · cases mid with
    | nil => simp at hsize; omega
    | cons d mid =>
      obtain ⟨rfl, -⟩ := List.cons.inj hmid
      rw [size_append, size_cons] at hsize
      omega
  · rw [size_append] at hsize
    omega

/-- No boundary lies beyond the end. -/
theorem le_of_isBoundary {text : List Char} {offset : Nat} (h : IsBoundary text offset) :
    offset ≤ size text := by
  obtain ⟨before, after, rfl, rfl⟩ := h
  rw [size_append]
  exact Nat.le_add_right _ _

/-- A character of several bytes begins no line. -/
theorem lt_of_mem_lineStartsFrom {c : Char} {k : Nat} (hk : k < c.utf8Size) (hpos : k ≠ 0)
    {offset n : Nat} {cs : List Char} (hn : n ∈ lineStartsFrom offset (encode (c :: cs))) :
    offset + k < n := by
  have hc : c ≠ '\n' := by
    rintro rfl
    have hsingle : '\n'.utf8Size = 1 := by decide
    omega
  rw [← List.singleton_append, encode_append, lineStartsFrom_append, lineStartsFrom_of_ne hc,
    List.nil_append] at hn
  have hsize : (encode [c]).length = c.utf8Size := size_cons c []
  have := (bounds_of_mem_lineStartsFrom hn).1
  omega

theorem after_snoc (before : List Char) (c : Char) :
    Pos.after (before ++ [c]) = (Pos.after before).next c := by
  rw [← Pos.foldl_next, ← Pos.foldl_next, List.foldl_append]
  rfl

/-- Counting from within a text leads where looking up leads. -/
theorem position_eq_positionFrom {front line : List Char} (h : LastLine front line)
    (cs : List Char) (n : Nat) :
    position (front ++ line ++ cs) (size (front ++ line) + n) =
      .ok (positionFrom (Pos.after (front ++ line)) (size line) cs n) := by
  induction cs generalizing front line n with
  | nil =>
    cases n with
    | zero => exact position_append _ _
    | succ n =>
      refine position_of_not_cut h (fun before after htext hsize => ?_) fun m hm => by cases hm
      have hle := le_of_isBoundary ⟨before, after, htext, hsize⟩
      rw [List.append_nil] at hle
      omega
  | cons c cs ih =>
    cases n with
    | zero => exact position_append _ _
    | succ n =>
      rw [positionFrom]
      split
      · next hlt =>
        exact position_of_not_cut h
          (fun before after htext hsize =>
            not_boundary_within hlt (Nat.succ_ne_zero n) ⟨before, after, htext, hsize⟩)
          fun m hm => lt_of_mem_lineStartsFrom hlt (Nat.succ_ne_zero n) hm
      · next hle =>
        -- the character is read, and the offset lies so much closer
        have hsize : size (front ++ line ++ [c]) + (n + 1 - c.utf8Size) =
            size (front ++ line) + (n + 1) := by
          rw [size_append (front ++ line), size_cons, size_nil]
          omega
        rw [← after_snoc, List.append_cons, ← hsize]
        by_cases hc : c = '\n'
        · subst hc
          have := ih (.newline (front ++ line)) (n + 1 - '\n'.utf8Size)
          rwa [List.append_nil] at this
        · have hline : size (line ++ [c]) = size line + c.utf8Size := by
            rw [size_append, size_cons, size_nil, Nat.add_zero]
          have := ih (h.snoc hc) (n + 1 - c.utf8Size)
          rw [← List.append_assoc, hline] at this
          rw [this, if_neg (by simpa using hc)]

/-- Positions are counted as they are looked up, at every offset. -/
theorem position_eq_positionAt (text : List Char) (offset : Nat) :
    position text offset = .ok (positionAt text offset) := by
  have h := position_eq_positionFrom .nil text offset
  rwa [List.append_nil, List.nil_append, size_nil, Nat.zero_add] at h

/-! ### Boundaries -/

theorem positionAt_append (before after : List Char) :
    positionAt (before ++ after) (size before) = Pos.after before :=
  Except.ok.inj ((position_eq_positionAt _ _).symm.trans (position_append before after))

/-- A text goes on behind where it began. -/
theorem before_after_append (before : List Char) {rest : List Char} (hne : rest ≠ []) :
    (Pos.after before).Before (Pos.after (before ++ rest)) := by
  induction rest using List.reverseRecOn with
  | nil => exact absurd rfl hne
  | append_singleton rest c ih =>
    rw [← List.append_assoc, after_snoc]
    by_cases hrest : rest = []
    · rw [hrest, List.append_nil]
      exact Pos.before_next _ c
    · exact (ih hrest).trans (Pos.before_next _ c)

/-- Further boundaries have later positions. -/
theorem positionAt_strictMono {text : List Char} {a b : Nat} (ha : IsBoundary text a)
    (hb : IsBoundary text b) (hlt : a < b) : (positionAt text a).Before (positionAt text b) := by
  obtain ⟨before, after, rfl, rfl⟩ := ha
  obtain ⟨before', after', htext, rfl⟩ := hb
  rw [positionAt_append, htext, positionAt_append]
  rcases List.append_eq_append_iff.1 htext with ⟨mid, rfl, -⟩ | ⟨mid, rfl, -⟩
  · refine before_after_append before ?_
    rintro rfl
    rw [List.append_nil] at hlt
    exact Nat.lt_irrefl _ hlt
  · rw [size_append] at hlt
    omega

/-- **At a boundary a position counts the line ends before it and the characters behind the last of
them.**  It is the same whether it is looked up by halving or counted, its line is the one that is
counted in bytes, and it grows with the offset, so that no two boundaries share a position. -/
theorem boundary_positions (text : List Char) :
    (∀ offset, (LineIndex.of text).position offset = .ok (positionAt text offset)) ∧
    (∀ before after, text = before ++ after →
      positionAt text (size before) =
          ⟨1 + before.count '\n', 1 + (before.reverse.takeWhile (· != '\n')).length⟩ ∧
        lineOf (encode text) (size before) = .ok (positionAt text (size before)).line) ∧
    (∀ a b, IsBoundary text a → IsBoundary text b → a < b →
      (positionAt text a).Before (positionAt text b)) ∧
    ∀ a b, IsBoundary text a → IsBoundary text b → positionAt text a = positionAt text b →
      a = b := by
  refine ⟨fun offset => ?_, fun before after htext => ?_, fun a b => positionAt_strictMono,
    fun a b ha hb heq => ?_⟩
  · rw [LineIndex.position_eq]
    exact position_eq_positionAt text offset
  · subst htext
    rw [positionAt_append, lineOf_append, Pos.after, Nat.add_comm 1, Nat.add_comm 1]
    exact ⟨rfl, rfl⟩
  · rcases Nat.lt_trichotomy a b with hlt | heq' | hlt
    · exact absurd heq (positionAt_strictMono ha hb hlt).ne
    · exact heq'
    · exact absurd heq.symm (positionAt_strictMono hb ha hlt).ne

/-- A line with a character of two bytes, an empty line and a last line without an end. -/
theorem boundary_positions_of_lines :
    let text := ['\u00e9', 'a', '\n', '\n', 'b']
    text = ['\u00e9', 'a'] ++ ['\n', '\n', 'b'] ∧
      positionAt text 3 = ⟨1, 3⟩ ∧
      lineOf (encode text) 3 = .ok (positionAt text 3).line ∧
      IsBoundary text 3 ∧ IsBoundary text 5 ∧ (positionAt text 3).Before (positionAt text 5) ∧
      positionAt text 5 = ⟨3, 1⟩ ∧ (positionAt text 5 = positionAt text 5 → 5 = 5) := by
  intro text
  obtain ⟨-, hat, hmono, hinj⟩ := boundary_positions text
  have htext : text = ['\u00e9', 'a'] ++ ['\n', '\n', 'b'] := rfl
  have h3 : IsBoundary text 3 := ⟨['\u00e9', 'a'], ['\n', '\n', 'b'], htext, by decide⟩
  have h5 : IsBoundary text 5 := ⟨['\u00e9', 'a', '\n', '\n'], ['b'], rfl, by decide⟩
  exact ⟨htext, (hat _ _ htext).1, (hat _ _ htext).2, h3, h5, hmono 3 5 h3 h5 (by decide),
    by decide, hinj 5 5 h5 h5⟩

end Offsets
end SheetAudit
