import SheetAudit.Proofs.Places
import SheetAudit.Proofs.Spans

/-!
# Stripping twice

The text that is left when the comments of a source are blanked out is read once more.  A block
comment may go over several lines; its line ends stay, so that what follows it may become the first
code of a line that it was not the first code of before.  Two slashes in that place are code in the
source and a comment in what is left of it.

## Main definitions

* `Piece.isCode`, `Piece.isGap` — code, and what does not count as code on its line.
* `LeavesSlashes` — two slashes behind a block comment over several lines are code.
* `Exposes` — the same, read piece by piece.

## Main results

* `forall_isCode_iff` — the second reading finds code only unless two slashes are exposed.
* `strip_strip_iff` — **what is left has no comments and is left alone exactly if no slashes are.**
-/

namespace SheetAudit
namespace Source

open Text (isSpace)

/-! ### Slashes behind a comment -/

def Piece.isCode : Piece → Bool
  | .code _ => true
  | _ => false

/-- White space, or a comment. -/
def Piece.isGap : Piece → Bool
  | .code x => isSpace x.char
  | .comment _ _ => true
  | .unclosed _ => false

/-- Two slashes are code although nothing but white space and comments stands between them and a
block comment over several lines. -/
def LeavesSlashes (ps : List Piece) : Prop :=
  ∃ before comment between slash slash' after,
    ps = before ++ .comment true comment :: (between ++ .code slash :: .code slash' :: after) ∧
      '\n' ∈ chars comment ∧ (∀ p ∈ between, p.isGap = true) ∧
      slash.char = '/' ∧ slash'.char = '/'

/-- Two slashes that are code begin a line once the comments are blanked out; `fresh` tells whether
a comment has ended a line since the last code. -/
inductive Exposes : (fresh : Bool) → List Piece → Prop where
  | slashes {slash slash' : Cell} (first : slash.char = '/') (second : slash'.char = '/')
      (ps : List Piece) : Exposes true (.code slash :: .code slash' :: ps)
  | code {fresh : Bool} {x : Cell} {ps : List Piece}
      (rest : Exposes (fresh && isSpace x.char) ps) : Exposes fresh (.code x :: ps)
  | comment {fresh block : Bool} {cs : List Cell} {ps : List Piece}
      (rest : Exposes (fresh || (block && (chars cs).contains '\n')) ps) :
      Exposes fresh (.comment block cs :: ps)

theorem not_exposes_nil (fresh : Bool) : ¬ Exposes fresh [] := nofun

theorem exposes_comment_iff {fresh block : Bool} {cs : List Cell} {ps : List Piece} :
    Exposes fresh (.comment block cs :: ps) ↔
      Exposes (fresh || (block && (chars cs).contains '\n')) ps :=
  ⟨fun | .comment rest => rest, .comment⟩

theorem exposes_code_iff {fresh : Bool} {x : Cell} {ps : List Piece} :
    Exposes fresh (.code x :: ps) ↔
      (fresh = true ∧ x.char = '/' ∧ ∃ y qs, ps = .code y :: qs ∧ y.char = '/') ∨
        Exposes (fresh && isSpace x.char) ps := by
  constructor
  · rintro (⟨hx, hy, qs⟩ | h | _)
    · exact .inl ⟨rfl, hx, _, qs, rfl, hy⟩
    · exact .inr h
  · rintro (⟨rfl, hx, y, qs, rfl, hy⟩ | h)
    · exact .slashes hx hy qs
    · exact .code h

/-- Code that is no slash exposes nothing by itself. -/
theorem exposes_code_iff_of_ne {fresh : Bool} {x : Cell} (hx : x.char ≠ '/') {ps : List Piece} :
    Exposes fresh (.code x :: ps) ↔ Exposes (fresh && isSpace x.char) ps := by
  rw [exposes_code_iff]
  exact or_iff_right fun h => hx h.2.1

theorem exposes_stale_code_iff {x : Cell} {ps : List Piece} :
    Exposes false (.code x :: ps) ↔ Exposes false ps := by
  rw [exposes_code_iff, Bool.false_and]
  exact or_iff_right fun h => Bool.false_ne_true h.1

theorem Exposes.of_gaps {between ps : List Piece} (hgaps : ∀ p ∈ between, p.isGap = true)
    (h : Exposes true ps) : Exposes true (between ++ ps) := by
  induction between with
  | nil => exact h
  | cons p between ih =>
    obtain ⟨hp, hbetween⟩ := List.forall_mem_cons.1 hgaps
    cases p with
    | code x =>
      have hspace : isSpace x.char = true := hp
      exact .code (by rw [Bool.true_and, hspace]; exact ih hbetween)
    | comment block cs => exact .comment (by rw [Bool.true_or]; exact ih hbetween)
    | unclosed cs => cases hp

/-- Two exposed slashes stand behind a comment that goes over several lines. -/
theorem Exposes.exists {fresh : Bool} {ps : List Piece} (h : Exposes fresh ps) :
    LeavesSlashes ps ∨ fresh = true ∧ ∃ between slash slash' after,
      ps = between ++ .code slash :: .code slash' :: after ∧ (∀ p ∈ between, p.isGap = true) ∧
        slash.char = '/' ∧ slash'.char = '/' := by
  induction h with
  | slashes first second ps =>
    exact .inr ⟨rfl, [], _, _, ps, rfl, fun p hp => absurd hp List.not_mem_nil, first, second⟩
  | @code fresh x ps _ ih =>
    rcases ih with ⟨before, comment, between, s, s', after, rfl, hrest⟩ |
      ⟨hfresh, between, s, s', after, rfl, hgaps, hrest⟩
    · exact .inl ⟨.code x :: before, comment, between, s, s', after, rfl, hrest⟩
    · obtain ⟨hfresh, hx⟩ := Bool.and_eq_true_iff.1 hfresh
      exact .inr ⟨hfresh, .code x :: between, s, s', after, rfl,
        List.forall_mem_cons.2 ⟨hx, hgaps⟩, hrest⟩
  | @comment fresh block cs ps _ ih =>
    rcases ih with ⟨before, comment, between, s, s', after, rfl, hrest⟩ |
      ⟨hfresh, between, s, s', after, rfl, hgaps, hrest⟩
    · exact .inl ⟨.comment block cs :: before, comment, between, s, s', after, rfl, hrest⟩
    · rcases Bool.or_eq_true_iff.1 hfresh with hfresh | hcs
      · exact .inr ⟨hfresh, .comment block cs :: between, s, s', after, rfl,
          List.forall_mem_cons.2 ⟨rfl, hgaps⟩, hrest⟩
      · obtain ⟨rfl, hcs⟩ := Bool.and_eq_true_iff.1 hcs
        exact .inl ⟨[], cs, between, s, s', after, rfl, by simpa using hcs, hgaps, hrest⟩

theorem exposes_iff {ps : List Piece} (hps : ∀ p ∈ ps, p.Whole) :
    Exposes false ps ↔ LeavesSlashes ps := by
  constructor
  · intro h
    exact h.exists.resolve_right fun hfresh => Bool.false_ne_true hfresh.1
  · rintro ⟨before, comment, between, s, s', after, rfl, hcomment, hgaps, hs, hs'⟩
    -- whatever is known of the text before, the comment ends a line
    have key (fresh : Bool) : Exposes fresh (before ++
        .comment true comment :: (between ++ .code s :: .code s' :: after)) := by
      induction before generalizing fresh with
      | nil =>
        refine .comment ?_
        rw [List.contains_iff_mem.2 hcomment, Bool.and_true, Bool.or_true]
        exact .of_gaps hgaps (.slashes hs hs' after)
      | cons p before ih =>
        obtain ⟨hp, hbefore⟩ := List.forall_mem_cons.1 hps
        cases p with
        | code x => exact .code (ih hbefore _)
        | comment block cs => exact .comment (ih hbefore _)
        | unclosed cs => exact absurd hp id
    exact key false

/-! ### The second reading -/

/-- A comment leaves spaces and line ends. -/
theorem char_of_mem_blank {x y : Cell} (h : y ∈ blank x) : y.char = ' ' ∨ y.char = '\n' := by
  rw [blank] at h
  split at h
  · next hn =>
    obtain rfl := List.mem_singleton.1 h
    exact .inr (eq_of_beq hn)
  · obtain rfl := List.eq_of_mem_replicate h
    exact .inl rfl

theorem contains_newline_blank (cs : List Cell) :
    (chars (cs.flatMap blank)).contains '\n' = (chars cs).contains '\n' := by
  have hblank (x : Cell) : (chars (blank x)).contains '\n' = ('\n' == x.char) := by
    rw [blank]
    split
    · next hn => simp [chars, eq_of_beq hn]
    · next hn =>
      have hpos := x.char.utf8Size_pos
      rw [Bool.eq_iff_iff, List.contains_iff_mem]
      simp only [chars, List.map_replicate, List.mem_replicate, beq_iff_eq] at hn ⊢
      constructor
      · exact fun h => absurd h.2 (by decide)
      · exact fun h => absurd h.symm hn
  induction cs with
  | nil => rfl
  | cons x cs ih =>
    have happend (as bs : List Cell) : chars (as ++ bs) = chars as ++ chars bs := List.map_append
    rw [List.flatMap_cons, happend, List.contains_append, ih, hblank]
    rfl

/-- What a comment has left is read as code, and a line end in it begins a line without code. -/
theorem piecesFrom_blanked {ws : List Cell} (h : ∀ w ∈ ws, w.char = ' ' ∨ w.char = '\n')
    (code : Bool) (zs : List Cell) :
    piecesFrom none code (ws ++ zs) =
      ws.map .code ++ piecesFrom none (code && !(chars ws).contains '\n') zs := by
  induction ws generalizing code with
  | nil => simp [chars]
  | cons w ws ih =>
    obtain ⟨hw, hws⟩ := List.forall_mem_cons.1 h
    rcases hw with hw | hw
    · rw [List.cons_append, piecesFrom_plain (by simp [hw]) (by simp [hw]) (by simp [hw]), ih hws]
      simp [chars, hw, isSpace]
    · rw [List.cons_append, piecesFrom_newline hw, ih hws]
      simp [chars, hw]

/-- What is left of a text begins blank, or with its first character as code. -/
theorem exists_head {quote : Option Char} {code : Bool} {x : Cell} {xs : List Cell}
    (hwhole : ∀ p ∈ piecesFrom quote code (x :: xs), p.Whole) {zs : List Cell}
    (hzs : chars zs = chars ((piecesFrom quote code (x :: xs)).flatMap Piece.stripped)) :
    ∃ w tail, zs = w :: tail ∧ (Text.isBlank w.char = true ∨
      w.char = x.char ∧ ∃ ps, piecesFrom quote code (x :: xs) = .code x :: ps) := by
  have hcells := flatMap_cells_piecesFrom quote code (x :: xs)
  cases hps : piecesFrom quote code (x :: xs) with
  | nil =>
    rw [hps] at hcells
    cases hcells
  | cons p ps =>
    rw [hps] at hzs hcells hwhole
    have hp := hwhole p List.mem_cons_self
    obtain ⟨y, ys, hy⟩ := List.exists_cons_of_ne_nil (stripped_ne_nil hp)
    rw [List.flatMap_cons, hy] at hzs
    obtain ⟨w, tail, rfl, hw, -⟩ := List.map_eq_cons_iff.1 hzs
    refine ⟨w, tail, rfl, ?_⟩
    cases hblank : Text.isBlank y.char with
    | true => exact .inl (hw ▸ hblank)
    | false =>
      have hcode := code_of_mem_stripped hp (hy ▸ List.mem_cons_self) hblank
      subst hcode
      obtain rfl := (List.cons.inj hcells).1
      exact .inr ⟨hw, ps, rfl⟩

/-- A comment that was blanked out is passed over by the second reading. -/
theorem exists_of_comment {zs cs : List Cell} {block : Bool} {ps : List Piece}
    (h : chars zs = chars ((Piece.comment block cs :: ps).flatMap Piece.stripped)) :
    ∃ tail, chars tail = chars (ps.flatMap Piece.stripped) ∧ ∀ code,
      (∀ p ∈ piecesFrom none code zs, p.isCode = true) ↔
        ∀ p ∈ piecesFrom none (code && !(chars cs).contains '\n') tail, p.isCode = true := by
  rw [List.flatMap_cons, chars, chars, List.map_append] at h
  obtain ⟨ws, tail, rfl, hws, htail⟩ := List.map_eq_append_iff.1 h
  have hblank : ∀ w ∈ ws, w.char = ' ' ∨ w.char = '\n' := by
    intro w hw
    have hmem : w.char ∈ (cs.flatMap blank).map (·.char) := hws ▸ List.mem_map_of_mem hw
    obtain ⟨y, hy, hyw⟩ := List.mem_map.1 hmem
    obtain ⟨x, -, hx⟩ := List.mem_flatMap.1 hy
    exact hyw ▸ char_of_mem_blank hx
  have hends : (chars ws).contains '\n' = (chars cs).contains '\n' :=
    (congrArg (List.contains · '\n') hws).trans (contains_newline_blank cs)
  refine ⟨tail, htail, fun code => ?_⟩
  rw [piecesFrom_blanked hblank, hends, List.forall_mem_append]
  refine and_iff_right fun p hp => ?_
  obtain ⟨w, -, rfl⟩ := List.mem_map.1 hp
  rfl

theorem exists_of_chars_eq {zs : List Cell} {x : Cell} {ps : List Piece}
    (h : chars zs = chars ((Piece.code x :: ps).flatMap Piece.stripped)) :
    ∃ z tail, zs = z :: tail ∧ z.char = x.char ∧ chars tail = chars (ps.flatMap Piece.stripped) :=
  List.map_eq_cons_iff.1 h

theorem forall_isCode_code_iff {z : Cell} {ps : List Piece} :
    (∀ p ∈ Piece.code z :: ps, p.isCode = true) ↔ ∀ p ∈ ps, p.isCode = true := by
  rw [List.forall_mem_cons]
  exact and_iff_right rfl

/-- A slash that was code is code for the second reading unless its line holds no code there and the
next slash was code, too. -/
theorem forall_isCode_slash_iff {code fresh : Bool} {y z : Cell} {ys tail : List Cell}
    (hz : z.char = '/') (hy : ¬ (y.char == '*') = true)
    (hline : ¬ (y.char == '/' && !code) = true)
    (hwhole : ∀ p ∈ piecesFrom none true (y :: ys), p.Whole)
    (htail : chars tail = chars ((piecesFrom none true (y :: ys)).flatMap Piece.stripped)) :
    (∀ p ∈ piecesFrom none (code && !fresh) (z :: tail), p.isCode = true) ↔
      ¬ (fresh = true ∧ ∃ y' qs, piecesFrom none true (y :: ys) = .code y' :: qs ∧
        y'.char = '/') ∧ ∀ p ∈ piecesFrom none true tail, p.isCode = true := by
  -- a blank behind the slash was a comment, so what makes a comment here is code of the source
  obtain ⟨w, tail, rfl, hw⟩ := exists_head hwhole htail
  have hcode (hslash : w.char = '/') : ∃ ps, piecesFrom none true (y :: ys) = .code y :: ps ∧
      y.char = '/' ∧ code = true := by
    rcases hw with hblank | ⟨hwy, ps, hps⟩
    · rw [hslash] at hblank
      exact absurd hblank (by decide)
    · have hy : y.char = '/' := hwy.symm.trans hslash
      exact ⟨ps, hps, hy, by simpa [hy] using hline⟩
  by_cases hexposed : fresh = true ∧ w.char = '/'
  · obtain ⟨rfl, hslash⟩ := hexposed
    obtain ⟨ps, hps, hy, rfl⟩ := hcode hslash
    refine iff_of_false (fun hall => ?_) fun h => h.1 ⟨rfl, y, ps, hps, hy⟩
    rw [Bool.not_true, Bool.and_false, piecesFrom_line hz hslash] at hall
    exact Bool.false_ne_true (hall _ List.mem_cons_self)
  · have hstar : ¬ w.char = '*' := fun heq => by
      rcases hw with hblank | ⟨hwy, -⟩
      · rw [heq] at hblank
        exact absurd hblank (by decide)
      · exact hy (beq_iff_eq.2 (hwy.symm.trans heq))
    have hline' : ¬ (w.char == '/' && !(code && !fresh)) = true := fun h => by
      obtain ⟨hslash, hfresh⟩ := Bool.and_eq_true_iff.1 h
      obtain ⟨-, -, -, rfl⟩ := hcode (eq_of_beq hslash)
      exact hexposed ⟨by simpa using hfresh, eq_of_beq hslash⟩
    have hfirst : ¬ (fresh = true ∧
        ∃ y' qs, piecesFrom none true (y :: ys) = .code y' :: qs ∧ y'.char = '/') := by
      rintro ⟨hfresh, y', qs, hps, hy'⟩
      rw [hps] at htail
      exact hexposed ⟨hfresh, (List.cons.inj htail).1.trans hy'⟩
    rw [piecesFrom_slash hz hstar hline', forall_isCode_code_iff, and_iff_right hfirst]

/-- **The second reading finds code only, unless two slashes are exposed.**  Both readings are at
the same place of strings; a line of which `fresh` is known holds no code for the second one. -/
theorem forall_isCode_iff {quote : Option Char} {code fresh : Bool} {xs : List Cell}
    (hquote : quote.isSome = true → fresh = false)
    (hwhole : ∀ p ∈ piecesFrom quote code xs, p.Whole) {zs : List Cell}
    (hzs : chars zs = chars ((piecesFrom quote code xs).flatMap Piece.stripped)) :
    (∀ p ∈ piecesFrom quote (code && !fresh) zs, p.isCode = true) ↔
      ¬ Exposes fresh (piecesFrom quote code xs) := by
  fun_induction piecesFrom quote code xs generalizing fresh zs with
  | case1 quote code =>
    obtain rfl : zs = [] := List.map_eq_nil_iff.1 hzs
    simp [not_exposes_nil]
  | case2 code x q hx =>
    obtain ⟨z, tail, rfl, hz, htail⟩ := exists_of_chars_eq hzs
    obtain rfl : tail = [] := List.map_eq_nil_iff.1 htail
    obtain rfl := hquote rfl
    rw [piecesFrom_escaped_end (hz ▸ hx), forall_isCode_code_iff, exposes_stale_code_iff]
    simp [not_exposes_nil]
  | case3 code x q hx y ys ih =>
    obtain ⟨z, tail, rfl, hz, htail⟩ := exists_of_chars_eq hzs
    obtain ⟨z', tail, rfl, hz', htail⟩ := exists_of_chars_eq htail
    obtain rfl := hquote rfl
    have hrest := (List.forall_mem_cons.1 (List.forall_mem_cons.1 hwhole).2).2
    rw [piecesFrom_escaped (hz ▸ hx), forall_isCode_code_iff, forall_isCode_code_iff,
      exposes_stale_code_iff, exposes_stale_code_iff]
    exact ih hquote hrest htail
  | case4 code x xs q hx ih =>
    obtain ⟨z, tail, rfl, hz, htail⟩ := exists_of_chars_eq hzs
    obtain rfl := hquote rfl
    rw [piecesFrom_quoted (hz ▸ hx), forall_isCode_code_iff, exposes_stale_code_iff, hz]
    exact ih (fun _ => rfl) (List.forall_mem_cons.1 hwhole).2 htail
  | case5 code x xs hx ih =>
    obtain ⟨z, tail, rfl, hz, htail⟩ := exists_of_chars_eq hzs
    have hslash : x.char ≠ '/' := fun heq => by simp [heq] at hx
    have hspace : isSpace x.char = false := by
      rcases Bool.or_eq_true_iff.1 hx with heq | heq <;> rw [eq_of_beq heq] <;> decide
    rw [piecesFrom_quote (hz ▸ hx), forall_isCode_code_iff, exposes_code_iff_of_ne hslash, hspace,
      Bool.and_false, hz]
    exact ih (fun _ => rfl) (List.forall_mem_cons.1 hwhole).2 htail
  | case6 code x xs hq hx ih =>
    obtain ⟨z, tail, rfl, hz, htail⟩ := exists_of_chars_eq hzs
    have hx := eq_of_beq hx
    rw [piecesFrom_newline (hz.trans hx), forall_isCode_code_iff,
      exposes_code_iff_of_ne (by simp [hx]), hx]
    exact ih (fun h => absurd h Bool.false_ne_true) (List.forall_mem_cons.1 hwhole).2 htail
  | case7 code x hq hn hx =>
    obtain ⟨z, tail, rfl, hz, htail⟩ := exists_of_chars_eq hzs
    obtain rfl : tail = [] := List.map_eq_nil_iff.1 htail
    rw [piecesFrom_slash_end (hz.trans (eq_of_beq hx)), exposes_code_iff]
    simp [not_exposes_nil, Piece.isCode]
  | case8 code x hq hn hx y ys hy inner rest hclose ih =>
    obtain ⟨tail, htail, hblanked⟩ := exists_of_comment hzs
    rw [hblanked, exposes_comment_iff, Bool.true_and, Bool.and_assoc, ← Bool.not_or]
    exact ih (fun h => absurd h Bool.false_ne_true) (List.forall_mem_cons.1 hwhole).2 htail
  | case9 code x hq hn hx y ys hy hclose =>
    exact absurd (hwhole _ List.mem_cons_self) id
  | case10 code x hq hn hx y ys hy hline ih =>
    obtain ⟨tail, htail, hblanked⟩ := exists_of_comment hzs
    obtain rfl : code = false := by simpa using (Bool.and_eq_true_iff.1 hline).2
    rw [hblanked, exposes_comment_iff, Bool.false_and, Bool.false_and, Bool.false_and,
      Bool.or_false]
    exact ih (fun h => absurd h Bool.false_ne_true) (List.forall_mem_cons.1 hwhole).2 htail
  | case11 code x hq hn hx y ys hy hline ih =>
    obtain ⟨z, tail, rfl, hz, htail⟩ := exists_of_chars_eq hzs
    have hrest := (List.forall_mem_cons.1 hwhole).2
    have hz := hz.trans (eq_of_beq hx)
    rw [forall_isCode_slash_iff hz hy hline hrest htail, exposes_code_iff, eq_of_beq hx,
      show isSpace '/' = false by decide, Bool.and_false, not_or]
    refine and_congr (not_congr ?_) (@ih false (fun h => absurd h Bool.false_ne_true) hrest _ htail)
    exact and_congr_right fun _ => (and_iff_right rfl).symm
  | case12 code x xs hq hn hx ih =>
    obtain ⟨z, tail, rfl, hz, htail⟩ := exists_of_chars_eq hzs
    have hcode : (code && !fresh || !isSpace x.char) =
        ((code || !isSpace x.char) && !(fresh && isSpace x.char)) := by
      cases code <;> cases fresh <;> cases isSpace x.char <;> rfl
    rw [piecesFrom_plain (hz ▸ hq) (by simpa [hz] using hn) (by simpa [hz] using hx),
      forall_isCode_code_iff, exposes_code_iff_of_ne (by simpa using hx), hz, hcode]
    exact ih (fun h => absurd h Bool.false_ne_true) (List.forall_mem_cons.1 hwhole).2 htail

/-! ### Stripping twice -/

/-- Nothing is taken from code. -/
theorem code_only {ps : List Piece} (h : ∀ p ∈ ps, p.isCode = true) :
    unclosedLine ps = none ∧ ps.flatMap Piece.stripped = ps.flatMap Piece.cells ∧
      ps.filterMap Piece.comment? = [] := by
  induction ps with
  | nil => exact ⟨rfl, rfl, rfl⟩
  | cons p ps ih =>
    obtain ⟨hp, hps⟩ := List.forall_mem_cons.1 h
    obtain ⟨hline, hcells, hcomments⟩ := ih hps
    cases p with
    | code x =>
      exact ⟨hline, by rw [List.flatMap_cons, List.flatMap_cons, hcells]; rfl, hcomments⟩
    | comment block cs => cases hp
    | unclosed cs => cases hp

/-- A text without comments that can be stripped is code from end to end. -/
theorem forall_isCode_of_comments {text : List Char} {ys : List Cell}
    (hstrip : strip (cells text) = .ok ys) (hcomments : comments text = []) :
    ∀ p ∈ pieces (cells text), p.isCode = true := by
  obtain ⟨hline, -⟩ := strip_eq_ok hstrip
  rw [comments, hline] at hcomments
  intro p hp
  have hnone : p.comment? = none := List.filterMap_eq_nil_iff.1 hcomments p hp
  have hwhole := whole_of_unclosedLine hline p hp
  cases Offsets.framed_of_mem hp with
  | code x => rfl
  | unclosed xs => exact absurd hwhole id
  | line text opens => cases hnone
  | block text opens closes => cases hnone

/-- **What is left of a source has no comments and is left alone when it is stripped again, exactly
if the source leaves no slashes.** -/
theorem strip_strip_iff {text : List Char} {xs : List Cell} (h : strip (cells text) = .ok xs) :
    (comments (chars xs) = [] ∧ (strip (cells (chars xs))).map chars = .ok (chars xs)) ↔
      ¬ LeavesSlashes (pieces (cells text)) := by
  obtain ⟨hline, rfl⟩ := strip_eq_ok h
  have hwhole := whole_of_unclosedLine hline
  set left := chars ((pieces (cells text)).flatMap Piece.stripped)
  have hiff : (∀ p ∈ pieces (cells left), p.isCode = true) ↔
      ¬ Exposes false (pieces (cells text)) :=
    @forall_isCode_iff none false false _ nofun hwhole _ (chars_cells left)
  rw [← exposes_iff hwhole, ← hiff]
  constructor
  · rintro ⟨hcomments, hstrip⟩
    cases hleft : strip (cells left) with
    | error line =>
      rw [hleft] at hstrip
      cases hstrip
    | ok ys => exact forall_isCode_of_comments hleft hcomments
  · intro hcode
    obtain ⟨hline, hcells, hcomments⟩ := code_only hcode
    rw [pieces, flatMap_cells_piecesFrom, ← pieces] at hcells
    constructor
    · rw [comments, hline]
      exact hcomments
    · rw [strip, hline, hcells]
      exact congrArg Except.ok (chars_cells left)

/-- Slashes behind a comment over two lines, without code on its first line, are no code. -/
theorem strip_strip_of_lines :
    ∃ xs, strip (cells "a//b\n/*\n*///c".toList) = .ok xs ∧
      chars xs = "a//b\n  \n     ".toList ∧
      ¬ LeavesSlashes (pieces (cells "a//b\n/*\n*///c".toList)) := by
  have hchars : (strip (cells "a//b\n/*\n*///c".toList)).map chars =
      .ok "a//b\n  \n     ".toList := by decide +kernel
  cases hstrip : strip (cells "a//b\n/*\n*///c".toList) with
  | error line =>
    rw [hstrip] at hchars
    cases hchars
  | ok xs =>
    rw [hstrip] at hchars
    have hxs : chars xs = "a//b\n  \n     ".toList := Except.ok.inj hchars
    refine ⟨xs, rfl, hxs, (strip_strip_iff hstrip).1 ?_⟩
    rw [hxs]
    decide +kernel

/-- Slashes behind code and a comment over two lines are code, and a comment in what is left. -/
theorem strip_leaves_slashes :
    ∃ xs, strip (cells "a/*\n*///b".toList) = .ok xs ∧ chars xs = "a  \n  //b".toList ∧
      comments (chars xs) = [⟨['b'], 2, false⟩] ∧
      (strip (cells (chars xs))).map chars = .ok "a  \n     ".toList := by
  have hchars : (strip (cells "a/*\n*///b".toList)).map chars = .ok "a  \n  //b".toList := by
    decide +kernel
  cases hstrip : strip (cells "a/*\n*///b".toList) with
  | error line =>
    rw [hstrip] at hchars
    cases hchars
  | ok xs =>
    rw [hstrip] at hchars
    have hxs : chars xs = "a  \n  //b".toList := Except.ok.inj hchars
    refine ⟨xs, rfl, hxs, ?_⟩
    rw [hxs]
    decide +kernel

end Source
end SheetAudit
