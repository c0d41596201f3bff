import Mathlib.Data.List.Flatten
import Mathlib.Data.List.Induction
import SheetAudit.Proofs.Blank
import SheetAudit.Proofs.Relocation
import SheetAudit.Proofs.Walk

/-!
# Where the parts of a style sheet stand

Every part of a style sheet is placed at a character of the source text, outside all comments,
where its own text begins.  The places are those of the source, although the parts are found in a
text without comments and with marked strings.

## Main definitions

* `Pos.after` — the position after a text, by its line ends.
* `Stands source p rest` — at `p` a character stands outside comments, and there `rest` begins.
* `Node.places` — the places of the characters of a node.

## Main results

* `stands_of_infix` — **a word of the text without comments stands in the source as it is.**
* `pairwise_pos` — the characters that are read stand one behind the other.
* `Reads.pairwise_places`, `Reads.pairwise_parts` — the nodes of a tree stand one behind the other,
  and so do parts of them that stand at their own places.
-/

namespace SheetAudit

open Source Text

/-! ### Positions -/

/-- The position after a text that stands at the start of a source. -/
def Pos.after (before : List Char) : Pos :=
  ⟨before.count '\n' + 1, (before.reverse.takeWhile fun c => c != '\n').length + 1⟩

theorem Pos.foldl_next (before : List Char) :
    before.foldl Pos.next .start = Pos.after before := by
  induction before using List.reverseRecOn with
  | nil => rfl
  | append_singleton before c ih =>
    rw [List.foldl_append, ih, List.foldl_cons, List.foldl_nil, Pos.next, Pos.after, Pos.after,
      List.count_append, List.reverse_append, List.reverse_singleton, List.singleton_append]
    by_cases hc : c = '\n'
    · simp [hc]
    · simp [hc]

theorem pos_of_cellsFrom {p : Pos} {cs : List Char} {before after : List Cell} {x : Cell}
    (h : cellsFrom p cs = before ++ x :: after) : x.pos = (chars before).foldl Pos.next p := by
  induction before generalizing p cs with
  | nil =>
    cases cs with
    | nil => simp [cellsFrom] at h
    | cons c cs =>
      rw [cellsFrom, List.nil_append, List.cons.injEq] at h
      rw [← h.1]
      rfl
  | cons y before ih =>
    cases cs with
    | nil => simp [cellsFrom] at h
    | cons c cs =>
      rw [cellsFrom, List.cons_append, List.cons.injEq] at h
      obtain ⟨rfl, h⟩ := h
      exact ih h

/-- Further on in a text. -/
def Pos.Before (p q : Pos) : Prop := p.line < q.line ∨ p.line = q.line ∧ p.column < q.column

theorem Pos.Before.trans {p q r : Pos} (h : p.Before q) (h' : q.Before r) : p.Before r := by
  rw [Pos.Before] at h h' ⊢
  omega

theorem Pos.Before.ne {p q : Pos} (h : p.Before q) : p ≠ q := by
  rintro rfl
  rw [Pos.Before] at h
  omega

theorem Pos.before_next (p : Pos) (c : Char) : p.Before (p.next c) := by
  rw [Pos.next]
  split
  · exact .inl (Nat.lt_succ_self _)
  · exact .inr ⟨rfl, Nat.lt_succ_self _⟩

/-- The characters of a text stand one after the other. -/
theorem pairwise_cellsFrom (p : Pos) (cs : List Char) :
    (cellsFrom p cs).Pairwise (fun x y => x.pos.Before y.pos) ∧
      ∀ x ∈ cellsFrom p cs, p = x.pos ∨ p.Before x.pos := by
  induction cs generalizing p with
  | nil => exact ⟨.nil, by simp [cellsFrom]⟩
  | cons c cs ih =>
    obtain ⟨hp, hall⟩ := ih (p.next c)
    have hlater : ∀ x ∈ cellsFrom (p.next c) cs, p.Before x.pos := by
      intro x hx
      rcases hall x hx with h | h
      · exact h ▸ p.before_next c
      · exact (p.before_next c).trans h
    rw [cellsFrom]
    refine ⟨List.pairwise_cons.2 ⟨hlater, hp⟩, fun x hx => ?_⟩
    rcases List.mem_cons.1 hx with rfl | hx
    · exact .inl rfl
    · exact .inr (hlater x hx)

/-! ### Words between comments -/

/-- Code, or a comment that is closed. -/
def Source.Piece.Whole : Piece → Prop
  | .code _ => True
  | .comment _ cs => cs ≠ []
  | .unclosed _ => False

theorem cells_ne_nil_of_mem {quote : Option Char} {code : Bool} {xs : List Cell} {p : Piece}
    (h : p ∈ piecesFrom quote code xs) : p.cells ≠ [] := by
  fun_induction piecesFrom quote code xs with
  | case1 => exact absurd h List.not_mem_nil
  | case3 code x q hx y ys ih =>
    rcases List.mem_cons.1 h with rfl | h
    · simp [Piece.cells]
    rcases List.mem_cons.1 h with rfl | h
    · simp [Piece.cells]
    · exact ih h
  | case2 | case7 | case9 =>
    obtain rfl := List.mem_singleton.1 h
    simp [Piece.cells]
  | case4 | case5 | case6 | case8 | case10 | case11 | case12 =>
    rename_i ih
    rcases List.mem_cons.1 h with rfl | h
    · simp [Piece.cells]
    · exact ih h

theorem not_mem_unclosed {ps : List Piece} (h : unclosedLine ps = none) {x : Cell}
    {cs : List Cell} : Piece.unclosed (x :: cs) ∉ ps := by
  fun_induction unclosedLine ps with
  | case1 => exact List.not_mem_nil
  | case2 => simp at h
  | case3 p ps hp ih =>
    intro hin
    rcases List.mem_cons.1 hin with rfl | hin
    · exact hp x cs rfl
    · exact ih h hin

/-- Where no comment is left open the pieces are whole. -/
theorem whole_of_unclosedLine {xs : List Cell} (h : unclosedLine (pieces xs) = none) :
    ∀ p ∈ pieces xs, p.Whole := by
  intro p hp
  have hne := cells_ne_nil_of_mem hp
  cases p with
  | code c => trivial
  | comment block cs => exact hne
  | unclosed cs =>
    obtain ⟨x, cs, rfl⟩ := List.exists_cons_of_ne_nil hne
    exact absurd hp (not_mem_unclosed h)

theorem isBlank_of_mem_blank {x y : Cell} (h : y ∈ blank x) : isBlank y.char = true := by
  rw [blank] at h
  split at h
  · next hn =>
    obtain rfl := List.mem_singleton.1 h
    rw [eq_of_beq hn]
    rfl
  · obtain rfl := List.eq_of_mem_replicate h
    rfl

/-- What is left of a piece is blank unless the piece is code. -/
theorem code_of_mem_stripped {p : Piece} (hp : p.Whole) {y : Cell} (hy : y ∈ p.stripped)
    (hb : isBlank y.char = false) : p = .code y := by
  cases p with
  | code c => rw [List.mem_singleton.1 hy]
  | comment block cs =>
    obtain ⟨x, -, hx⟩ := List.mem_flatMap.1 hy
    rw [isBlank_of_mem_blank hx] at hb
    cases hb
  | unclosed cs => exact absurd hp id

/-- Something is left of every piece. -/
theorem stripped_ne_nil {p : Piece} (hp : p.Whole) : p.stripped ≠ [] := by
  cases p with
  | code c => simp [Piece.stripped]
  | comment block cs =>
    obtain ⟨x, cs, rfl⟩ := List.exists_cons_of_ne_nil hp
    have hblank : blank x ≠ [] := by
      rw [blank]
      split
      · simp
      · have := x.char.utf8Size_pos
        rw [Ne, List.replicate_eq_nil_iff]
        omega
    rw [Piece.stripped, List.flatMap_cons, Ne, List.append_eq_nil_iff]
    exact fun h => hblank h.1
  | unclosed cs => exact absurd hp id

/-- A word at the start of what is left is code, one character after the other. -/
theorem eq_map_code_append {ps : List Piece} (hps : ∀ p ∈ ps, p.Whole) {word rest : List Cell}
    (h : ps.flatMap Piece.stripped = word ++ rest) (hw : ∀ y ∈ word, isBlank y.char = false) :
    ∃ qs, ps = word.map Piece.code ++ qs := by
  induction word generalizing ps with
  | nil => exact ⟨ps, rfl⟩
  | cons y word ih =>
    cases ps with
    | nil => simp at h
    | cons p ps =>
      have hp := hps p List.mem_cons_self
      obtain ⟨z, zs, hz⟩ := List.exists_cons_of_ne_nil (stripped_ne_nil hp)
      rw [List.flatMap_cons, hz, List.cons_append, List.cons_append, List.cons.injEq] at h
      obtain ⟨rfl, h⟩ := h
      have hcode := code_of_mem_stripped hp (hz ▸ List.mem_cons_self) (hw z List.mem_cons_self)
      subst hcode
      obtain rfl : zs = [] := (List.cons.inj hz).2.symm
      obtain ⟨qs, hqs⟩ := ih (fun q hq => hps q (List.mem_cons_of_mem _ hq)) h
        fun q hq => hw q (List.mem_cons_of_mem _ hq)
      exact ⟨qs, by rw [hqs, List.map_cons, List.cons_append]⟩

/-- What is left begins a word only where a piece begins. -/
theorem exists_append_of_stripped {ps : List Piece} (hps : ∀ p ∈ ps, p.Whole)
    {before rest : List Cell} {y : Cell} (h : ps.flatMap Piece.stripped = before ++ y :: rest)
    (hy : isBlank y.char = false) :
    ∃ qs rs, ps = qs ++ rs ∧ rs.flatMap Piece.stripped = y :: rest := by
  induction ps generalizing before with
  | nil => simp at h
  | cons p ps ih =>
    have hrest : ∀ q ∈ ps, q.Whole := fun q hq => hps q (List.mem_cons_of_mem _ hq)
    rw [List.flatMap_cons] at h
    rcases List.append_eq_append_iff.1 h with ⟨mid, -, hmid⟩ | ⟨mid, hp, hmid⟩
    · obtain ⟨qs, rs, rfl, hrs⟩ := ih hrest hmid
      exact ⟨p :: qs, rs, rfl, hrs⟩
    · cases mid with
      | nil =>
        have hmid : ps.flatMap Piece.stripped = [] ++ y :: rest := hmid.symm
        obtain ⟨qs, rs, rfl, hrs⟩ := ih hrest hmid
        exact ⟨p :: qs, rs, rfl, hrs⟩
      | cons z mid =>
        rw [List.cons_append, List.cons.injEq] at hmid
        obtain ⟨rfl, hmid⟩ := hmid
        have hcode := code_of_mem_stripped (hps p List.mem_cons_self) (hp ▸ by simp) hy
        subst hcode
        -- code leaves one cell, so nothing stands before it in its piece
        obtain ⟨rfl, rfl⟩ : before = [] ∧ mid = [] := by
          have hlen := congrArg List.length hp
          simp only [Piece.stripped, List.length_append, List.length_cons,
            List.length_nil] at hlen
          exact ⟨List.length_eq_zero_iff.1 (by omega), List.length_eq_zero_iff.1 (by omega)⟩
        exact ⟨[], .code y :: ps, rfl, h⟩

/-! ### Marked strings -/

/-- What a cell is when its string is not marked. -/
def Source.Cell.key (x : Cell) : Char × Pos := (x.char, x.pos)

theorem map_key_markFrom (quote : Option Char) (xs : List Cell) :
    (markFrom quote xs).map Cell.key = xs.map Cell.key := by
  fun_induction markFrom quote xs with
  | case1 => rfl
  | case2 x xs q ih₂ ih₁ =>
    by_cases hx : (x.char == '\\') = true
    · rw [if_pos hx]
      cases xs with
      | nil => rfl
      | cons y ys => simpa [Cell.key] using ih₂
    · rw [if_neg hx]
      simpa [Cell.key] using ih₁
  | case3 x xs hx ih => simpa [Cell.key] using ih
  | case4 x xs hx ih => simpa [Cell.key] using ih

theorem map_key_markStrings (xs : List Cell) :
    (markStrings xs).map Cell.key = xs.map Cell.key :=
  map_key_markFrom none xs

/-! ### Words of the source -/

/-- At `p` a character of the source text stands outside all comments, and from it on the text
is `rest`. -/
def Stands (source : String) (p : Pos) (rest : List Char) : Prop :=
  ∃ before x after, pieces (cells source.toList) = before ++ .code x :: after ∧
    source.toList = chars (before.flatMap Piece.cells) ++ rest ∧
    p = Pos.after (chars (before.flatMap Piece.cells))

/-- A word, which is not empty, and a text that begins with it. -/
def Begins (word rest : List Char) : Prop := word ≠ [] ∧ word <+: rest

theorem strip_eq_ok {xs ys : List Cell} (h : strip xs = .ok ys) :
    unclosedLine (pieces xs) = none ∧ (pieces xs).flatMap Piece.stripped = ys := by
  simp only [strip] at h
  split at h
  · simp at h
  · next hline => exact ⟨hline, by simpa using h⟩

/-- A word of the text without comments stands in the source as it is. -/
theorem stands_of_infix {source : String} {xs : List Cell}
    (hs : strip (cells source.toList) = .ok xs) {x : Cell} {word : List Cell}
    (h : x :: word <:+: markStrings xs) (hw : ∀ y ∈ x :: word, isBlank y.char = false) :
    ∃ rest, Stands source x.pos rest ∧ Begins (chars (x :: word)) rest := by
  obtain ⟨hline, hxs⟩ := strip_eq_ok hs
  have hwhole := whole_of_unclosedLine hline
  obtain ⟨a, b, hab⟩ := h
  -- the same cells before their strings were marked
  have hkey := map_key_markStrings xs
  rw [← hab, List.map_append, List.map_append, ← hxs] at hkey
  obtain ⟨ab', b', hsplit, hkab, -⟩ := List.append_eq_map_iff.1 hkey
  obtain ⟨a', word', rfl, -, hkw⟩ := List.append_eq_map_iff.1 hkab.symm
  rw [List.map_cons] at hkw
  obtain ⟨y, ys, rfl, hky, hkys⟩ := List.map_eq_cons_iff.1 hkw
  have hchars : chars (y :: ys) = chars (x :: word) := by
    have hmap := congrArg (List.map Prod.fst) hkw
    simpa [chars, Cell.key, Function.comp_def] using hmap
  have hpos : y.pos = x.pos := congrArg Prod.snd hky
  have hw' : ∀ z ∈ y :: ys, isBlank z.char = false := by
    intro z hz
    have hin : z.char ∈ chars (x :: word) := hchars ▸ List.mem_map_of_mem hz
    obtain ⟨u, hu, heq⟩ := List.mem_map.1 hin
    rw [← heq]
    exact hw u hu
  rw [List.append_assoc, List.cons_append] at hsplit
  -- the word begins where a piece begins, and its pieces are code up to its end
  obtain ⟨qs, rs, hps, hrs⟩ :=
    exists_append_of_stripped hwhole hsplit (hw' y List.mem_cons_self)
  have hrsWhole : ∀ p ∈ rs, p.Whole := fun p hp => hwhole p (hps ▸ List.mem_append_right _ hp)
  have hrs : rs.flatMap Piece.stripped = (y :: ys) ++ b' := hrs
  obtain ⟨ts, hts⟩ := eq_map_code_append hrsWhole hrs hw'
  rw [hts, List.map_cons, List.cons_append] at hps
  -- the pieces are the whole source, so the word stands in it after the pieces before
  have hcells : cells source.toList =
      qs.flatMap Piece.cells ++ y :: (ys ++ ts.flatMap Piece.cells) := by
    have hflat := flatMap_cells_piecesFrom none false (cells source.toList)
    rw [← pieces, hps, List.flatMap_append, List.flatMap_cons, List.flatMap_append] at hflat
    rw [← hflat]
    simp [List.flatMap_map, Piece.cells]
  have hsource : source.toList =
      chars (qs.flatMap Piece.cells) ++ (chars (x :: word) ++ chars (ts.flatMap Piece.cells)) := by
    have hc := congrArg chars hcells
    rw [chars_cells] at hc
    rw [hc, ← hchars]
    simp [chars]
  refine ⟨_, ⟨qs, y, _, hps, hsource, ?_⟩, by simp [chars], List.prefix_append _ _⟩
  rw [← hpos, ← Pos.foldl_next]
  exact pos_of_cellsFrom hcells

/-- What is left of the pieces holds no more than the characters of the pieces. -/
theorem sublist_of_whole {ps : List Piece} (hps : ∀ p ∈ ps, p.Whole) :
    List.Sublist ((ps.flatMap Piece.stripped).filter fun x => !isBlank x.char)
      (ps.flatMap Piece.cells) := by
  induction ps with
  | nil => exact List.Sublist.refl []
  | cons p ps ih =>
    have hp := hps p List.mem_cons_self
    rw [List.flatMap_cons, List.flatMap_cons, List.filter_append]
    refine List.Sublist.append ?_ (ih fun q hq => hps q (List.mem_cons_of_mem _ hq))
    cases p with
    | code c => exact List.filter_sublist
    | comment block cs =>
      rw [List.filter_eq_nil_iff.2]
      · exact List.nil_sublist _
      · intro y hy hb
        have hcode := code_of_mem_stripped hp hy (by simpa using hb)
        cases hcode
    | unclosed cs => exact absurd hp id

/-- The characters that are read are in the order of their places. -/
theorem pairwise_pos {source : String} {xs : List Cell}
    (hs : strip (cells source.toList) = .ok xs) :
    (((markStrings xs).filter fun x => !isBlank x.char).map Cell.pos).Pairwise Pos.Before := by
  obtain ⟨hline, hxs⟩ := strip_eq_ok hs
  have hcells : ((pieces (cells source.toList)).flatMap Piece.cells) = cells source.toList :=
    flatMap_cells_piecesFrom none false _
  have hsub := sublist_of_whole (whole_of_unclosedLine hline)
  rw [hcells, hxs] at hsub
  -- the places are those of the marked cells
  have hkeys (ys : List Cell) : (ys.filter fun x => !isBlank x.char).map Cell.pos =
      ((ys.map Cell.key).filter fun k => !isBlank k.1).map Prod.snd := by
    rw [List.filter_map, List.map_map]
    rfl
  rw [hkeys, map_key_markStrings, ← hkeys]
  exact List.pairwise_map.2 ((pairwise_cellsFrom .start source.toList).1.sublist hsub)

/-! ### The places of nodes -/

namespace Node

/-- The places of the characters of a node outside its block. -/
def places (p : Scope × Node) : List Pos :=
  (p.2.outer.filter fun x => !isBlank x.char).map Cell.pos

theorem mem_places {p : Scope × Node} {x : Cell} {word : List Cell}
    (h : x :: word <:+: p.2.outer) (hx : isBlank x.char = false) : x.pos ∈ places p :=
  List.mem_map_of_mem (List.mem_filter.2 ⟨h.subset List.mem_cons_self, by simp [hx]⟩)

end Node

/-- The nodes of a tree stand one behind the other. -/
theorem Reads.pairwise_places {source : String} {xs : List Cell} {nodes : List Node}
    (hs : strip (cells source.toList) = .ok xs) (h : Reads (markStrings xs) nodes)
    (scope : Scope) : ((Node.walkIn scope nodes).flatMap Node.places).Pairwise Pos.Before := by
  have hsub := ((h.sublist_outer scope).filter fun x => !isBlank x.char).map Cell.pos
  rw [List.filter_flatMap, List.map_flatMap] at hsub
  exact (pairwise_pos hs).sublist hsub

/-- Parts that stand at places of their own nodes stand one behind the other. -/
theorem Reads.pairwise_parts {α : Type} {source : String} {xs : List Cell} {nodes : List Node}
    (hs : strip (cells source.toList) = .ok xs) (h : Reads (markStrings xs) nodes)
    {f : Scope × Node → List α} {key : α → Pos}
    (hplaces : ∀ p, ((f p).map key).Sublist (Node.places p)) :
    ((Node.walkIn {} nodes).flatMap f).Pairwise fun a b => (key a).Before (key b) := by
  have hsub : (((Node.walkIn {} nodes).flatMap f).map key).Sublist
      ((Node.walkIn {} nodes).flatMap Node.places) := by
    rw [List.map_flatMap]
    exact List.Sublist.flatMap_right _ fun p _ => hplaces p
  exact List.pairwise_map.1 ((h.pairwise_places hs {}).sublist hsub)

end SheetAudit
