import SheetAudit.Proofs.Gathering
import SheetAudit.Proofs.Listings
import SheetAudit.Proofs.Scans
import SheetAudit.Proofs.Values

/-!
# Ranges of a text

A range that is read ends where cells end, and the offset of a character that is not blank has kept
its position although comments were blanked out before it.  So a declaration and the selectors of a
rule are read between offsets as they are read from cells.

## Main definitions

* `Lies` — from an offset on, some cells stand in the text.
* `Placed` — every character has kept the position of its offset.
* `FoundAt` — a selector stands at the position of the offset it was found at.

## Main results

* `placed_of_strip` — blanking comments and marking strings moves no character.
* `readDeclaration?_eq`, `parseDeclaration_eq` — declarations between offsets.
* `recordRules_eq`, `headsAt_eq`, `headsAtRule_eq` — the rules of a block and their places.
-/

namespace SheetAudit

open Source Text

namespace Offsets

/-! ### Parts of a text at their offsets -/

/-- From an offset on, these cells stand in the text. -/
def Lies (ws : List Cell) (i : Nat) (xs : List Cell) : Prop :=
  ∃ left right, ws = left ++ (xs ++ right) ∧ i = width left

namespace Lies

variable {ws xs ys : List Cell} {i : Nat}

theorem left (h : Lies ws i (xs ++ ys)) : Lies ws i xs := by
  obtain ⟨left, right, rfl, rfl⟩ := h
  exact ⟨left, ys ++ right, by rw [List.append_assoc], rfl⟩

theorem right (h : Lies ws i (xs ++ ys)) : Lies ws (i + width xs) ys := by
  obtain ⟨left, right, rfl, rfl⟩ := h
  exact ⟨left ++ xs, right, by rw [List.append_assoc, List.append_assoc], (width_append _ _).symm⟩

theorem head {x : Cell} (h : Lies ws i (x :: xs)) : Lies ws i [x] := by
  have h : Lies ws i ([x] ++ xs) := h
  exact h.left

/-- What stands behind a cell of one byte. -/
theorem tail {x : Cell} (hx : x.char.utf8Size = 1) (h : Lies ws i (x :: xs)) :
    Lies ws (i + 1) xs := by
  have h : Lies ws (i + width [x]) xs := right h
  rwa [width_cons, width_nil, hx] at h

theorem drop (h : Lies ws i xs) :
    ∃ rest, (encode (chars ws)).drop i = encode (chars xs) ++ rest := by
  obtain ⟨left, right, rfl, rfl⟩ := h
  refine ⟨encode (chars right), ?_⟩
  rw [chars_append, chars_append, encode_append, encode_append, width, size, List.drop_left]

theorem slice {stop : Nat} (h : Lies ws i xs) (hstop : stop = i + width xs) :
    slice (chars ws) i stop = .ok (chars xs) := by
  obtain ⟨left, right, rfl, rfl⟩ := h
  rw [hstop, chars_append, chars_append]
  exact slice_append _ _ _

end Lies

/-- Every character has kept the position of its offset. -/
def Placed (source : List Char) (ws : List Cell) : Prop :=
  ∀ i x, Lies ws i [x] → isBlank x.char = false → position source i = .ok x.pos

theorem width_flatMap_blank (xs : List Cell) : width (xs.flatMap blank) = width xs := by
  have h := congrArg List.length (map_blankByte_encode xs)
  rw [List.length_map] at h
  exact h.symm

/-- Blanking comments keeps every piece as long as it was. -/
theorem width_flatMap_stripped (ps : List Piece) :
    width (ps.flatMap Piece.stripped) = width (ps.flatMap Piece.cells) := by
  induction ps with
  | nil => rfl
  | cons p ps ih =>
    rw [List.flatMap_cons, List.flatMap_cons, width_append, width_append, ih]
    cases p with
    | code x => rfl
    | comment block xs => rw [Piece.stripped, width_flatMap_blank, Piece.cells]
    | unclosed xs => rfl

theorem chars_of_map_key {xs ys : List Cell} (h : xs.map Cell.key = ys.map Cell.key) :
    chars xs = chars ys := by
  have hchars (zs : List Cell) : chars zs = (zs.map Cell.key).map Prod.fst := by
    rw [List.map_map]
    rfl
  rw [hchars, h, ← hchars]

theorem chars_markStrings (xs : List Cell) : chars (markStrings xs) = chars xs :=
  chars_of_map_key (map_key_markStrings xs)

/-- Blanking comments and marking strings moves no character. -/
theorem placed_of_strip {source : List Char} {xs : List Cell}
    (h : Source.strip (cells source) = .ok xs) : Placed source (markStrings xs) := by
  obtain ⟨hline, hxs⟩ := strip_eq_ok h
  have hwhole := whole_of_unclosedLine hline
  rintro i x ⟨left, right, hmarked, rfl⟩ hx
  -- the same cell before its string was marked
  have hkey := map_key_markStrings xs
  rw [hmarked, List.map_append] at hkey
  obtain ⟨before, after, rfl, hbefore, hafter⟩ := List.append_eq_map_iff.1 hkey
  rw [List.singleton_append, List.map_cons] at hafter
  obtain ⟨y, after, rfl, hy, -⟩ := List.map_eq_cons_iff.1 hafter
  obtain ⟨hchar, hpos⟩ := Prod.mk.inj hy
  rw [← hchar] at hx
  -- a character that is not blank begins a piece of code
  obtain ⟨qs, rs, hps, hrs⟩ := exists_append_of_stripped hwhole hxs hx
  have hrsWhole : ∀ p ∈ rs, p.Whole := fun p hp => hwhole p (hps ▸ List.mem_append_right _ hp)
  have hrsCode : rs.flatMap Piece.stripped = [y] ++ after := hrs
  obtain ⟨ts, rfl⟩ := eq_map_code_append hrsWhole hrsCode (by simpa using hx)
  have hqs : qs.flatMap Piece.stripped = before := by
    rw [hps, List.flatMap_append, hrs] at hxs
    exact List.append_cancel_right hxs
  have hat : At source (width left) (y :: ts.flatMap Piece.cells) := by
    refine ⟨qs.flatMap Piece.cells, ?_, ?_⟩
    · have hcells := flatMap_cells_piecesFrom none false (cells source)
      rw [← pieces, hps, List.flatMap_append] at hcells
      exact hcells.symm
    · rw [← width_flatMap_stripped, hqs, width, chars_of_map_key hbefore, width]
  rw [hat.position, hpos]

/-! ### The colon of a declaration -/

theorem splitAt?_append_left {d : Char} {front : List Char} (h : ∀ c ∈ front, c ≠ d)
    (cs : List Char) :
    splitAt? [d] (front ++ cs) = (splitAt? [d] cs).map fun r => (front ++ r.1, r.2) := by
  have hpass : ∀ c ∈ front, (c != d) = true := fun c hc => by simpa using h c hc
  rw [splitAt?_singleton, splitAt?_singleton, List.dropWhile_append_of_pos hpass,
    List.takeWhile_append_of_pos hpass]
  cases cs.dropWhile fun c => c != d <;> rfl

theorem find?_colon (cs : List Char) :
    find? (encode cs) 0 [':'.toUInt8] = (splitAt? [':'] cs).map fun r => size r.1 := by
  have hcolon : ∀ c ∈ [':'], c.utf8Size = 1 := List.forall_mem_singleton.2 (by decide)
  have h := findFrom_encode (List.cons_ne_nil ':' []) hcolon 0 cs
  rw [find?, List.drop_zero]
  simp only [Nat.zero_add] at h
  exact h

/-- What stands before a colon and what stands behind it are ranges of the text. -/
theorem slice_around_colon {cs before after : List Char}
    (h : splitAt? [':'] cs = some (before, after)) :
    slice cs 0 (size before) = .ok before ∧
      slice cs (size before + 1) (size cs) = .ok after := by
  have hone : size before + 1 = size (before ++ [':']) := by
    rw [size_append]
    rfl
  rw [splitAt?_eq_some h]
  refine ⟨slice_front _ _, ?_⟩
  rw [hone, List.append_cons]
  exact slice_back _ _

/-! ### The rules of a block -/

theorem classOf_eq (r : Rule) : classOf r = .ok r.class?.toList := by
  rw [classOf, Rule.class?, subjectClass_eq, ok_bind]
  cases Selector.subjectClass r.selector.toList <;> rfl

/-- A selector that was found at an offset stands at the position of the offset. -/
def FoundAt (t : Texts) (p : Nat × List Char) (e : Pos × List Char) : Prop :=
  p.2 = e.2 ∧ t.position p.1 = .ok e.1

theorem recordRule_eq {t : Texts} {p : Nat × List Char} {e : Pos × List Char} (h : FoundAt t p e)
    (declarations : List Declaration) (media : Option (List Char)) (s : Sheet) :
    recordRule t declarations media s p =
      .ok (s.addRules
        [{ selector := String.ofList e.2
           declarations
           media := media.map String.ofList
           pos := e.1 }]) := by
  rw [recordRule, h.1, h.2, ok_bind]
  dsimp only
  rw [classOf_eq, Sheet.addRules_singleton]
  rfl

theorem recordRules_eq {t : Texts} {ps : List (Nat × List Char)} {es : List (Pos × List Char)}
    (h : List.Forall₂ (FoundAt t) ps es) (declarations : List Declaration)
    (media : Option (List Char)) (s : Sheet) :
    recordRules t ps declarations media s =
      .ok (s.addRules
        (if declarations.isEmpty then []
        else es.map fun (pos, selector) =>
          { selector := String.ofList selector
            declarations
            media := media.map String.ofList
            pos })) := by
  rw [recordRules]
  split
  · rw [Sheet.addRules_nil]
  · induction h generalizing s with
    | nil => rw [List.map_nil, Sheet.addRules_nil]; rfl
    | cons hpe _ ih =>
      rw [List.foldlM_cons, recordRule_eq hpe, ok_bind, ih, List.map_cons, ← Sheet.addRules_append]
      rfl

/-! ### Reading between offsets -/

section

variable {source : List Char} {ws : List Cell} (hplaced : Placed source ws)
include hplaced

/-- A declaration is read between its offsets as it is. -/
theorem readDeclaration?_eq {xs : List Cell} {i : Nat} (h : Lies ws i xs) :
    Offsets.readDeclaration? ⟨source, chars ws⟩ i (i + width xs) =
      .ok (SheetAudit.readDeclaration? xs) := by
  have hxs : xs.takeWhile (fun x => isBlank x.char) ++ xs.dropWhile (fun x => isBlank x.char) =
      xs := List.takeWhile_append_dropWhile
  have hblank : ∀ c ∈ chars (xs.takeWhile fun x => isBlank x.char), isBlank c = true :=
    fun c => isBlank_of_mem_leading
  have hleading : minus (size (chars xs)) (size (trimLeft (chars xs))) =
      .ok (width (xs.takeWhile fun x => isBlank x.char)) := minus_trimLeft Cell.char xs
  rw [Offsets.readDeclaration?, h.slice rfl, ok_bind, find?_colon, SheetAudit.readDeclaration?]
  generalize hblanks : (xs.takeWhile fun x => isBlank x.char) = blanks at hxs hblank hleading
  have hcolon : ∀ c ∈ chars blanks, c ≠ ':' := by
    rintro c hc rfl
    exact absurd (hblank _ hc) (by decide)
  dsimp only
  cases hdrop : xs.dropWhile fun x => isBlank x.char with
  | nil =>
    rw [hdrop, List.append_nil] at hxs
    have hnone := splitAt?_append_left hcolon []
    rw [List.append_nil, hxs] at hnone
    rw [hnone]
    rfl
  | cons x rest =>
    have hx := isBlank_of_dropWhile hdrop
    rw [hdrop] at hxs
    subst hxs
    rw [chars_append, splitAt?_append_left hcolon]
    cases hsplit : splitAt? [':'] (chars (x :: rest)) with
    | none => rfl
    | some r =>
      obtain ⟨before, after⟩ := r
      have htext := splitAt?_eq_some hsplit
      have hname : trim (chars blanks ++ before) = trimRight before := by
        have hbefore : trimLeft before = before := by
          cases before with
          | nil => rfl
          | cons c before =>
            obtain rfl : x.char = c := (List.cons.inj htext).1
            rw [trimLeft, List.dropWhile_cons, if_neg (by simp [hx])]
        rw [trim, trimLeft_append hblank, hbefore]
      have hwhole := splitAt?_append_left hcolon (chars (x :: rest))
      rw [hsplit, Option.map_some] at hwhole
      obtain ⟨hfront, hback⟩ := slice_around_colon hwhole
      have hpos : Texts.position ⟨source, chars ws⟩ (i + width blanks) = .ok x.pos :=
        hplaced _ x h.right.head hx
      rw [chars_append] at hleading
      simp only [Option.map_some, hfront, hback, ok_bind, hname, hleading, hpos]
      split <;> rfl

/-- A statement in a rule goes to the declarations of the rule or into the sheet. -/
theorem parseDeclaration_eq {xs : List Cell} {i : Nat} (h : Lies ws i xs) {scope : Scope}
    (hscope : scope.selectors ≠ []) (s : Sheet) :
    parseDeclaration ⟨source, chars ws⟩ i (i + width xs) scope s =
      .ok ((ownDeclaration? xs).toList,
        { s with customProperties := s.customProperties ++ (readVariable? scope xs).toList }) := by
  have hempty : scope.selectors.isEmpty = false := by simpa using hscope
  rw [parseDeclaration, readDeclaration?_eq hplaced h, ok_bind, ownDeclaration?, readVariable?]
  cases SheetAudit.readDeclaration? xs with
  | none =>
    rw [Option.bind_none, Option.bind_none, Option.toList_none, Option.toList_none, List.append_nil]
    rfl
  | some d =>
    obtain ⟨name, value, pos⟩ := d
    simp only [Option.bind_some, purpose_eq, ok_bind, hempty, Bool.not_false, Bool.and_true]
    by_cases hname : isVariableName name = true
    · rw [if_pos hname, if_pos hname, if_pos hname]
      rfl
    · rw [if_neg hname, if_neg hname, if_neg hname, Option.toList_none, List.append_nil]
      rfl

/-- The rules for the declarations of an at-rule stand where it begins. -/
theorem headsAtRule_eq {x : Cell} {xs : List Cell} {i : Nat} (h : Lies ws i (x :: xs))
    (hx : isBlank x.char = false) {rule : AtRule}
    (hrule : AtRule.of? (chars (x :: xs)) = some rule) (scope : Scope) :
    List.Forall₂ (FoundAt ⟨source, chars ws⟩)
      (scope.selectors.map fun selector => (i, selector)) (heads scope (x :: xs)) := by
  have hpos : Texts.position ⟨source, chars ws⟩ i = .ok x.pos := hplaced _ x h.head hx
  unfold heads
  rw [hrule]
  dsimp only
  rw [List.forall₂_map_left_iff, List.forall₂_map_right_iff, List.forall₂_same]
  exact fun s _ => ⟨rfl, hpos⟩

/-- The selectors of a block are found at their places. -/
theorem headsAt_eq {prelude : List Cell} {i : Nat} (h : Lies ws i prelude)
    (hrule : AtRule.of? (chars prelude) = none) (scope : Scope) {ps : List (Nat × List Char)}
    (hps : List.Forall₂ (StandsAt Cell.char prelude) ps (Selector.entries Cell.char prelude)) :
    List.Forall₂ (FoundAt ⟨source, chars ws⟩) (headsAt i scope ps) (heads scope prelude) := by
  unfold headsAt heads
  rw [hrule]
  dsimp only
  refine List.rel_flatMap hps ?_
  rintro ⟨offset, selector⟩ e ⟨rfl, hx, left, right, hprelude, rfl⟩
  rw [hprelude] at h
  have hpos : Texts.position ⟨source, chars ws⟩ (i + width left) = .ok e.1.pos :=
    hplaced _ e.1 (h.right.head) hx
  rw [List.forall₂_map_left_iff, List.forall₂_map_right_iff, List.forall₂_same]
  exact fun s _ => ⟨rfl, hpos⟩

end

end Offsets
end SheetAudit
