import Mathlib.Data.List.Forall2
import SheetAudit.Offsets.Selector
import SheetAudit.Proofs.Placement
import SheetAudit.Proofs.Spans

/-!
# Selector lists

Blanks around a selector list go to its first and its last piece, and do not matter there.  The
offsets at which a selector list is cut are those of its commas and of its end, so that every
piece is cut out between two characters; and the offset of a selector is the one of its first
character that is not blank.

## Main definitions

* `StandsAt` — a selector was found at the offset of the character it begins with.

## Main results

* `Selector.entries_preludeOf` — blanks around a selector list do not matter.
* `splitList_eq` — **the selectors of a list are found, each at the offset of its first character.**
* `subjectClass_eq` — the class of the subject is read at offsets as it is.
-/

namespace SheetAudit

open Source Text

namespace Selector

/-! ### Blanks around a list -/

theorem not_comma_of_isBlank {c : Char} (h : isBlank c = true) : (c == ',') = false := by
  refine beq_false_of_ne ?_
  rintro rfl
  exact absurd h (by decide)

theorem deepen_of_isBlank {c : Char} (h : isBlank c = true) (depth : Nat) :
    deepen depth c = depth := by
  have hne {d : Char} (hd : isBlank d = false) : (c == d) = false := by
    refine beq_false_of_ne ?_
    rintro rfl
    rw [h] at hd
    simp at hd
  simp [deepen, opens, closes, hne (d := '(') (by decide), hne (d := '[') (by decide),
    hne (d := ')') (by decide), hne (d := ']') (by decide)]

/-- Blanks before a list go to its first piece. -/
theorem splitTop_blank_append {left : List Cell} (h : ∀ x ∈ left, isBlank x.char = true)
    {depth : Nat} {xs piece : List Cell} {pieces : List (List Cell)}
    (hs : splitTop Cell.char depth xs = piece :: pieces) :
    splitTop Cell.char depth (left ++ xs) = (left ++ piece) :: pieces := by
  induction left with
  | nil => exact hs
  | cons x left ih =>
    have hx := h x List.mem_cons_self
    have ih := ih fun y hy => h y (List.mem_cons_of_mem _ hy)
    refine splitTop_cons (by simp [not_comma_of_isBlank hx]) ?_
    rw [deepen_of_isBlank hx]
    exact ih

/-- Blanks after a list go to its last piece. -/
theorem splitTop_append_blank {right : List Cell} (h : ∀ x ∈ right, isBlank x.char = true)
    (depth : Nat) (xs : List Cell) :
    ∃ pieces piece, splitTop Cell.char depth xs = pieces ++ [piece] ∧
      splitTop Cell.char depth (xs ++ right) = pieces ++ [piece ++ right] := by
  induction xs generalizing depth with
  | nil =>
    refine ⟨[], [], rfl, ?_⟩
    have hr : splitTop Cell.char depth (right ++ []) = [right ++ []] :=
      splitTop_blank_append h rfl
    rwa [List.append_nil] at hr
  | cons x xs ih =>
    cases hx : (x.char == ',' && depth == 0) with
    | true =>
      -- the piece before the comma is not the last one
      obtain ⟨pieces, piece, hp, hpr⟩ := ih depth
      refine ⟨[] :: pieces, piece, ?_, ?_⟩
      · rw [splitTop, if_pos hx, hp]
        rfl
      · rw [List.cons_append, splitTop, if_pos hx, hpr]
        rfl
    | false =>
      obtain ⟨pieces, piece, hp, hpr⟩ := ih (deepen depth x.char)
      cases pieces with
      | nil => exact ⟨[], x :: piece, splitTop_cons hx hp, splitTop_cons hx hpr⟩
      | cons q qs => exact ⟨(x :: q) :: qs, piece, splitTop_cons hx hp, splitTop_cons hx hpr⟩

theorem selectorOf?_blank_append {left : List Cell} (h : ∀ x ∈ left, isBlank x.char = true)
    (piece : List Cell) :
    selectorOf? Cell.char (left ++ piece) = selectorOf? Cell.char piece := by
  rw [selectorOf?, selectorOf?, List.dropWhile_append_of_pos h]

theorem selectorOf?_append_blank {right : List Cell} (h : ∀ x ∈ right, isBlank x.char = true)
    (piece : List Cell) :
    selectorOf? Cell.char (piece ++ right) = selectorOf? Cell.char piece := by
  rw [selectorOf?, selectorOf?, List.dropWhile_append]
  cases hp : piece.dropWhile fun x => isBlank x.char with
  | nil => rw [if_pos List.isEmpty_nil, List.dropWhile_eq_nil_iff.2 h]
  | cons x xs =>
    have hr : ∀ c ∈ right.map Cell.char, isBlank c = true := by
      intro c hc
      obtain ⟨y, hy, rfl⟩ := List.mem_map.1 hc
      exact h y hy
    have hc := collapse_append_blank hr (x.char :: xs.map Cell.char)
    rw [if_neg (by simp), List.cons_append]
    dsimp only
    rw [List.map_append]
    exact congrArg (fun s => some (x, s)) hc

/-- Blanks around a selector list do not matter. -/
theorem entries_preludeOf (xs : List Cell) :
    entries Cell.char (preludeOf xs) = entries Cell.char xs := by
  obtain ⟨left, right, hxs, hblank⟩ := exists_append_preludeOf xs
  have hl : ∀ x ∈ left, isBlank x.char = true := fun x hx => hblank x (List.mem_append_left _ hx)
  have hr : ∀ x ∈ right, isBlank x.char = true := fun x hx => hblank x (List.mem_append_right _ hx)
  obtain ⟨pieces, piece, hp, hpr⟩ := splitTop_append_blank hr 0 (preludeOf xs)
  obtain ⟨q, qs, hq⟩ :=
    List.exists_cons_of_ne_nil (splitTop_ne_nil Cell.char 0 (preludeOf xs ++ right))
  -- the blanks on the left are in the first piece, those on the right in the last
  have hall := splitTop_blank_append hl hq
  have hright : (q :: qs).filterMap (selectorOf? Cell.char) =
      (splitTop Cell.char 0 (preludeOf xs)).filterMap (selectorOf? Cell.char) := by
    rw [← hq, hpr, hp, List.filterMap_append, List.filterMap_append]
    simp only [List.filterMap_cons, selectorOf?_append_blank hr]
  rw [← hxs] at hall
  rw [entries, entries, hall, ← hright]
  simp only [List.filterMap_cons, selectorOf?_blank_append hl]

end Selector

namespace Offsets

open Selector

variable {α : Type} (char : α → Char)

/-! ### Blanks before a text -/

theorem isBlank_of_mem_leading {char : α → Char} {xs : List α} {c : Char}
    (h : c ∈ (xs.takeWhile fun x => isBlank (char x)).map char) : isBlank c = true := by
  obtain ⟨x, hx, rfl⟩ := List.mem_map.1 h
  exact List.mem_takeWhile_imp (p := fun x => isBlank (char x)) hx

theorem isBlank_of_dropWhile {char : α → Char} {xs rest : List α} {x : α}
    (h : (xs.dropWhile fun x => isBlank (char x)) = x :: rest) : isBlank (char x) = false := by
  have hhead := List.head_dropWhile_not (fun x => isBlank (char x)) (l := xs) (by simp [h])
  simpa [h] using hhead

theorem trimLeft_map (xs : List α) :
    trimLeft (xs.map char) = (xs.dropWhile fun x => isBlank (char x)).map char := by
  rw [trimLeft, List.dropWhile_map]
  rfl

theorem trimLeft_chars (xs : List Cell) :
    trimLeft (chars xs) = chars (xs.dropWhile fun x => isBlank x.char) :=
  trimLeft_map Cell.char xs

/-- What trimming takes away is what the leading blanks have in bytes. -/
theorem minus_trimLeft (xs : List α) :
    minus (size (xs.map char)) (size (trimLeft (xs.map char))) =
      .ok (size ((xs.takeWhile fun x => isBlank (char x)).map char)) := by
  have hsize : size (xs.map char) = size ((xs.takeWhile fun x => isBlank (char x)).map char) +
      size ((xs.dropWhile fun x => isBlank (char x)).map char) := by
    rw [← size_append, ← List.map_append, List.takeWhile_append_dropWhile]
  rw [trimLeft_map, hsize, minus_of_le (Nat.le_add_left _ _), Nat.add_sub_cancel]

/-! ### Selector lists -/

/-- A selector that was found at an offset is the one that begins with the character there. -/
def StandsAt (xs : List α) (p : Nat × List Char) (e : α × List Char) : Prop :=
  p.2 = e.2 ∧ isBlank (char e.1) = false ∧
    ∃ left right, xs = left ++ e.1 :: right ∧ p.1 = size (left.map char)

/-- What stands between two commas is the selector of the piece there. -/
theorem partAt_eq (front piece after : List α) :
    ∃ ps, partAt ((front ++ (piece ++ after)).map char) (size (front.map char))
        (size (front.map char) + size (piece.map char)) = .ok ps ∧
      List.Forall₂ (StandsAt char (front ++ (piece ++ after))) ps
        (selectorOf? char piece).toList := by
  have hslice : slice ((front ++ (piece ++ after)).map char) (size (front.map char))
      (size (front.map char) + size (piece.map char)) = .ok (piece.map char) := by
    rw [List.map_append, List.map_append]
    exact slice_append (front.map char) (piece.map char) (after.map char)
  have hpiece : piece.takeWhile (fun x => isBlank (char x)) ++
      piece.dropWhile (fun x => isBlank (char x)) = piece := List.takeWhile_append_dropWhile
  rw [partAt, hslice, ok_bind, minus_trimLeft, ok_bind, selectorOf?]
  cases hdrop : piece.dropWhile fun x => isBlank (char x) with
  | nil =>
    rw [hdrop, List.append_nil] at hpiece
    have hcollapse : collapse (piece.map char) = [] := by
      rw [← hpiece, collapse, words_of_blank fun c => isBlank_of_mem_leading]
      rfl
    rw [hcollapse]
    exact ⟨[], rfl, .nil⟩
  | cons x xs =>
    have hx := isBlank_of_dropWhile hdrop
    rw [hdrop] at hpiece
    have hcollapse : collapse (piece.map char) = collapse (char x :: xs.map char) := by
      have hblank : ∀ c ∈ (piece.takeWhile fun x => isBlank (char x)).map char,
          isBlank c = true := fun c => isBlank_of_mem_leading
      rw [← hpiece, List.map_append, collapse, collapse, words_blank_append hblank]
      rfl
    have hne := collapse_ne_nil hx (xs.map char)
    rw [hcollapse, if_neg (by simpa using hne)]
    refine ⟨_, rfl, .cons ⟨rfl, hx, front ++ piece.takeWhile fun x => isBlank (char x),
      xs ++ after, ?_, by rw [List.map_append, size_append]⟩ .nil⟩
    dsimp only
    rw [List.append_assoc, ← List.cons_append, ← List.append_assoc (piece.takeWhile _), hpiece]

theorem splitListFrom_eq (front part cs : List α) (depth : Nat) {piece : List α}
    {pieces : List (List α)} (h : splitTop char depth cs = piece :: pieces) :
    ∃ ps, splitListFrom ((front ++ (part ++ cs)).map char) depth (size (front.map char))
        (size (front.map char) + size (part.map char)) (cs.map char) = .ok ps ∧
      List.Forall₂ (StandsAt char (front ++ (part ++ cs))) ps
        (((part ++ piece) :: pieces).filterMap (selectorOf? char)) := by
  rw [List.filterMap_eq_flatMap_toList]
  induction cs generalizing front part depth piece pieces with
  | nil =>
    obtain ⟨rfl, rfl⟩ := List.cons.inj h
    obtain ⟨ps, hps, hall⟩ := partAt_eq char front part []
    refine ⟨ps, ?_, ?_⟩
    · have hsize : size ((front ++ (part ++ [])).map char) =
          size (front.map char) + size (part.map char) := by
        rw [List.append_nil, List.map_append, size_append]
      rw [← hps, ← hsize]
      rfl
    · rw [List.flatMap_singleton]
      rwa [List.append_nil part] at hall ⊢
  | cons x cs ih =>
    rw [List.map_cons, splitListFrom]
    by_cases hx : (char x == ',' && depth == 0) = true
    · -- the piece is read, and the next one begins behind the comma
      have hcomma : (char x).utf8Size = 1 := by
        obtain ⟨hx, -⟩ := Bool.and_eq_true_iff.1 hx
        rw [eq_of_beq hx]
        decide
      rw [splitTop, if_pos hx] at h
      obtain ⟨rfl, rfl⟩ := List.cons.inj h
      obtain ⟨q, qs, hq⟩ := List.exists_cons_of_ne_nil (splitTop_ne_nil char depth cs)
      obtain ⟨ps, hps, hall⟩ := partAt_eq char front part (x :: cs)
      obtain ⟨ps', hps', hall'⟩ := ih (front ++ (part ++ [x])) [] depth hq
      have hwhole : front ++ (part ++ [x]) ++ ([] ++ cs) = front ++ (part ++ x :: cs) := by simp
      rw [hwhole] at hps' hall'
      have hstart : size ((front ++ (part ++ [x])).map char) =
          size (front.map char) + size (part.map char) + 1 := by
        simp only [List.map_append, List.map_cons, List.map_nil, size_append, size_cons, size_nil,
          hcomma]
        omega
      rw [hstart, List.map_nil, size_nil, Nat.add_zero] at hps'
      rw [if_pos hx, hps, ok_bind, hcomma, hps']
      refine ⟨ps ++ ps', rfl, ?_⟩
      rw [List.append_nil, List.flatMap_cons, hq]
      exact List.rel_append hall hall'
    · obtain ⟨q, qs, hq⟩ := List.exists_cons_of_ne_nil
        (splitTop_ne_nil char (deepen depth (char x)) cs)
      rw [splitTop_cons (by simpa using hx) hq] at h
      obtain ⟨rfl, rfl⟩ := List.cons.inj h
      have ih := ih front (part ++ [x]) _ hq
      have hpart : size ((part ++ [x]).map char) = size (part.map char) + (char x).utf8Size := by
        rw [List.map_append, size_append, List.map_singleton, size_cons, size_nil, Nat.add_zero]
      rw [hpart, ← Nat.add_assoc, List.append_assoc, List.append_assoc] at ih
      rw [if_neg hx]
      exact ih

/-- The selectors of a list are found, each at the offset of its first character. -/
theorem splitList_eq (xs : List α) :
    ∃ ps, splitList (xs.map char) = .ok ps ∧
      List.Forall₂ (StandsAt char xs) ps (entries char xs) := by
  obtain ⟨piece, pieces, h⟩ := List.exists_cons_of_ne_nil (splitTop_ne_nil char 0 xs)
  rw [entries, h]
  exact splitListFrom_eq char [] [] xs 0 h

/-! ### Classes -/

theorem classFrom_eq (front cs : List Char) (depth : Nat) :
    Offsets.classFrom (front ++ cs) depth (size front) cs = .ok (Selector.classFrom depth cs) := by
  induction cs generalizing front depth with
  | nil => rfl
  | cons c cs ih =>
    have hnext (d : Nat) : Offsets.classFrom (front ++ c :: cs) d (size front + c.utf8Size) cs =
        .ok (Selector.classFrom d cs) := by
      have h := ih (front ++ [c]) d
      rwa [size_append, size_cons, size_nil, List.append_assoc] at h
    rw [Offsets.classFrom, Selector.classFrom]
    by_cases hc : (c == '.' && depth == 0) = true
    · obtain ⟨rfl, -⟩ : c = '.' ∧ depth = 0 := by simpa using hc
      have hslice : slice (front ++ '.' :: cs) (size front + 1) (size (front ++ '.' :: cs)) =
          .ok cs := by
        have h := slice_back (front ++ ['.']) cs
        rwa [size_append front, List.append_assoc] at h
      rw [if_pos hc, if_pos hc, hslice, ok_bind]
      dsimp only
      split
      · exact hnext depth
      · rfl
    · rw [if_neg hc, if_neg hc, hnext]

/-- The class of the subject is read at offsets as it is. -/
theorem subjectClass_eq (selector : List Char) :
    Offsets.subjectClass selector = .ok (Selector.subjectClass selector) := by
  rw [Offsets.subjectClass, Selector.subjectClass]
  cases subject selector with
  | none => rfl
  | some subject => exact classFrom_eq [] subject 0

end Offsets
end SheetAudit
