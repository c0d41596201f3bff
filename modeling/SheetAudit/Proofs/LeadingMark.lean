import SheetAudit.Proofs.Governing
import SheetAudit.Proofs.Header
import SheetAudit.Proofs.RoundTrip

/-!
# A byte order mark at the head of a style sheet

A byte order mark is a character of code.  Before a style sheet it moves the first line to the
right and becomes part of the first statement or of the first prelude.  In a statement outside all
rules it is lost; in a prelude it makes a rule of what may have been an at-rule, with a selector
that begins with the mark.

## Main definitions

* `Relocation.right` — the relocation of the first line by one column.
* `opensWithLineComment` — a line comment stands before all code on the first line.
* `Sheet.Alike`, `ReadAlike` — the same parts or an error on the same line; columns on the first
  line may be one larger.
* `MarkTells` — a mark in a prelude changes what its block adds to a style sheet.
* `MarkShows`, `MarkSticks` — a mark before a text changes what is read.

## Main results

* `strip_mark` — blanking comments keeps the mark, unless it makes code of a line comment.
* `tally_selectors_mark` — a mark in a prelude makes one of its selectors heavier.
* `readNodes_mark_iff` — a mark before a text without comments is harmless unless it shows.
* `Sheet.parse_mark_iff` — **a byte order mark changes nothing but columns exactly if it does not
  stick to the first prelude.**
-/

namespace SheetAudit

open Source Text

def byteOrderMark : Char := '\ufeff'

/-! ### Moving to the right -/

/-- Everything on the first line is moved to the right by one column. -/
def Relocation.right : Relocation where
  pos p := if p.line = 1 then ⟨1, p.column + 1⟩ else p
  line n := n
  line_pos p := by
    split
    · next h => exact h.symm
    · rfl

/-- A text that stands one column further to the right is the text, moved. -/
theorem cellsFrom_right {p : Pos} (hp : 0 < p.line) (cs : List Char) :
    cellsFrom (Relocation.right.pos p) cs = (cellsFrom p cs).map Relocation.right.onCell := by
  induction cs generalizing p with
  | nil => rfl
  | cons c cs ih =>
    have hline : 0 < (p.next c).line := by
      rw [Pos.next]
      split
      · exact Nat.succ_pos _
      · exact hp
    have hnext : (Relocation.right.pos p).next c = Relocation.right.pos (p.next c) := by
      have hne : p.line + 1 ≠ 1 := by omega
      simp only [Pos.next, Relocation.right]
      by_cases hc : (c == '\n') = true
      · by_cases h1 : p.line = 1 <;> simp [hc, h1, hp.ne']
      · by_cases h1 : p.line = 1 <;> simp [hc, h1]
    rw [cellsFrom, cellsFrom, hnext, ih hline]
    rfl

/-- The mark, one column before the start of a text. -/
def markCell : Cell := ⟨byteOrderMark, ⟨1, 0⟩, false⟩

/-- A source with a mark is the mark before the source, moved to the right. -/
theorem cells_mark (source : List Char) :
    cells (byteOrderMark :: source) =
      (markCell :: cells source).map Relocation.right.onCell := by
  rw [List.map_cons, cells, cells, ← cellsFrom_right Nat.one_pos]
  rfl

/-! ### Blanking comments -/

/-- A line comment opens before there is code, and before the line end. -/
def opensWithLineComment : List Piece → Bool
  | .code x :: ps => isSpace x.char && x.char != '\n' && opensWithLineComment ps
  | .comment block _ :: ps => !block || opensWithLineComment ps
  | _ => false

/-- Where no line comment opens first, it makes no difference that the line holds code. -/
theorem piecesFrom_true {xs : List Cell}
    (h : opensWithLineComment (piecesFrom none false xs) = false) :
    piecesFrom none true xs = piecesFrom none false xs := by
  induction hn : xs.length using Nat.strongRecOn generalizing xs with
  | _ n ih =>
    cases xs with
    | nil => rw [piecesFrom_nil, piecesFrom_nil]
    | cons x xs =>
      rw [List.length_cons] at hn
      by_cases hquote : (x.char == '"' || x.char == '\'') = true
      · rw [piecesFrom_quote hquote, piecesFrom_quote hquote]
      by_cases hnewline : x.char = '\n'
      · rw [piecesFrom_newline hnewline, piecesFrom_newline hnewline]
      by_cases hslash : x.char = '/'
      · cases xs with
        | nil => rw [piecesFrom_slash_end hslash, piecesFrom_slash_end hslash]
        | cons y ys =>
          by_cases hstar : y.char = '*'
          · cases hclose : closeComment ys with
            | none => rw [piecesFrom_unclosed hslash hstar hclose,
                piecesFrom_unclosed hslash hstar hclose]
            | some r =>
              obtain ⟨inner, rest⟩ := r
              have hlength := length_of_closeComment hclose
              rw [piecesFrom_block hslash hstar hclose] at h
              rw [piecesFrom_block hslash hstar hclose, piecesFrom_block hslash hstar hclose,
                ih rest.length (by rw [List.length_cons] at hn; omega) h rfl]
          · by_cases hline : y.char = '/'
            · -- a line comment, which is excluded
              rw [piecesFrom_line hslash hline] at h
              cases h
            · rw [piecesFrom_slash hslash hstar (by simp),
                piecesFrom_slash hslash hstar (by simpa using hline)]
      · rw [piecesFrom_plain hquote hnewline hslash] at h
        rw [piecesFrom_plain hquote hnewline hslash, piecesFrom_plain hquote hnewline hslash]
        cases hspace : isSpace x.char with
        | false => rfl
        | true =>
          have h : opensWithLineComment (piecesFrom none false xs) = false := by
            simpa [opensWithLineComment, hspace, hnewline] using h
          simpa using ih xs.length (by omega) h rfl

/-- Blanking comments keeps the mark, unless it makes code of a line comment. -/
theorem strip_mark {xs : List Cell} (h : opensWithLineComment (pieces xs) = false) :
    strip (markCell :: xs) = (strip xs).map (markCell :: ·) := by
  have hpieces : pieces (markCell :: xs) = .code markCell :: pieces xs := by
    rw [pieces, piecesFrom_plain (by decide) (by decide) (by decide)]
    exact congrArg _ (piecesFrom_true h)
  simp only [strip, hpieces]
  have hline : unclosedLine (.code markCell :: pieces xs) = unclosedLine (pieces xs) := rfl
  rw [hline]
  cases unclosedLine (pieces xs) <;> rfl

theorem markStrings_mark (xs : List Cell) :
    markStrings (markCell :: xs) = markCell :: markStrings xs := by
  rw [markStrings, markFrom]
  rfl

/-! ### Reading alike -/

/-- The same place, or one column further to the right on the first line. -/
def Pos.Nearly (p q : Pos) : Prop := q = p ∨ p.line = 1 ∧ q = ⟨1, p.column + 1⟩

def Rule.places (r : Rule) : List Pos := r.pos :: r.declarations.map (·.pos)

def StyledClass.places (c : StyledClass) : List Pos := c.pos :: c.declarations.map (·.pos)

/-- Two style sheets have the same parts in nearly the same places. -/
structure Sheet.Alike (s t : Sheet) : Prop where
  parts : Relocation.toStart.onSheet s = Relocation.toStart.onSheet t
  customProperties :
    List.Forall₂ Pos.Nearly (s.customProperties.map (·.pos)) (t.customProperties.map (·.pos))
  classes :
    List.Forall₂ Pos.Nearly (s.classes.flatMap (·.places)) (t.classes.flatMap (·.places))
  rules : List.Forall₂ Pos.Nearly (s.rules.flatMap (·.places)) (t.rules.flatMap (·.places))
  mediaQueries :
    List.Forall₂ Pos.Nearly (s.mediaQueries.map (·.pos)) (t.mediaQueries.map (·.pos))
  keyframes : List.Forall₂ Pos.Nearly (s.keyframes.map (·.pos)) (t.keyframes.map (·.pos))

/-- Two readings give style sheets that are alike, or errors on one line. -/
def ReadAlike : Except ReadError Sheet → Except ReadError Sheet → Prop
  | .ok s, .ok t => s.Alike t
  | .error e, .error e' => e.line = e'.line
  | _, _ => False

theorem Pos.nearly_right (p : Pos) : p.Nearly (Relocation.right.pos p) := by
  simp only [Relocation.right]
  split
  · next h => exact .inr ⟨h, rfl⟩
  · exact .inl rfl

theorem forall₂_nearly_right (ps : List Pos) :
    List.Forall₂ Pos.Nearly ps (ps.map Relocation.right.pos) :=
  List.forall₂_map_right_iff.2 (List.forall₂_same.2 fun p _ => p.nearly_right)

/-- What is moved to the start may have been moved before. -/
theorem Relocation.toStart_onSheet (f : Relocation) (s : Sheet) :
    toStart.onSheet (f.onSheet s) = toStart.onSheet s := by
  simp [onSheet, onVariable, onClass, onRule, onDeclaration, onMediaQuery, onKeyframes, toStart,
    Function.comp_def]

/-- Moving a style sheet to the right changes columns only. -/
theorem Sheet.alike_right (s : Sheet) : s.Alike (Relocation.right.onSheet s) where
  parts := (Relocation.right.toStart_onSheet s).symm
  customProperties := by
    have h := forall₂_nearly_right (s.customProperties.map (·.pos))
    simpa [Relocation.onSheet, Relocation.onVariable, Function.comp_def] using h
  classes := by
    have h := forall₂_nearly_right (s.classes.flatMap (·.places))
    simpa [Relocation.onSheet, Relocation.onClass, Relocation.onDeclaration, StyledClass.places,
      List.map_flatMap, List.flatMap_map, Function.comp_def] using h
  rules := by
    have h := forall₂_nearly_right (s.rules.flatMap (·.places))
    simpa [Relocation.onSheet, Relocation.onRule, Relocation.onDeclaration, Rule.places,
      List.map_flatMap, List.flatMap_map, Function.comp_def] using h
  mediaQueries := by
    have h := forall₂_nearly_right (s.mediaQueries.map (·.pos))
    simpa [Relocation.onSheet, Relocation.onMediaQuery, Function.comp_def] using h
  keyframes := by
    have h := forall₂_nearly_right (s.keyframes.map (·.pos))
    simpa [Relocation.onSheet, Relocation.onKeyframes, Function.comp_def] using h

/-- The result of a reading, moved to the right. -/
def movedRight (r : Except ReadError Sheet) : Except ReadError Sheet :=
  (r.map Relocation.right.onSheet).mapError Relocation.right.onError

theorem line_onError (e : ReadError) : (Relocation.right.onError e).line = e.line := by
  cases e <;> rfl

/-- A reading and the same moved to the right are alike. -/
theorem readAlike_movedRight (r : Except ReadError Sheet) : ReadAlike r (movedRight r) := by
  cases r with
  | error e => exact (line_onError e).symm
  | ok s => exact s.alike_right

/-- Readings that are alike have the same selectors. -/
theorem ReadAlike.selectors {r r' : Except ReadError Sheet} (h : ReadAlike r r') :
    (r.toOption.map fun s => s.rules.map (·.selector)) =
      r'.toOption.map fun s => s.rules.map (·.selector) := by
  cases r with
  | error e =>
    cases r' with
    | error e' => rfl
    | ok t => exact h.elim
  | ok s =>
    cases r' with
    | error e' => exact h.elim
    | ok t =>
      have hrules := congrArg (fun u : Sheet => u.rules.map (·.selector)) h.parts
      simpa [Except.toOption, Relocation.onSheet, Relocation.onRule, Function.comp_def] using hrules

/-! ### The marked prelude -/

theorem isBlank_byteOrderMark : isBlank byteOrderMark = false := by decide

theorem telltale_byteOrderMark : Telltale byteOrderMark := ⟨by decide, by decide, by decide⟩

/-- A prelude after a mark begins with the mark. -/
theorem exists_preludeOf_mark (before : List Cell) :
    ∃ tail, preludeOf (markCell :: before) = markCell :: tail := by
  obtain ⟨left, right, hsplit, hblank⟩ := exists_append_preludeOf (markCell :: before)
  have hmark : ∀ {x : Cell}, x ∈ left ++ right → markCell ≠ x := by
    rintro x hx rfl
    exact absurd (hblank _ hx) (by decide)
  cases left with
  | cons x left =>
    obtain ⟨rfl, -⟩ := List.cons.inj hsplit
    exact absurd rfl (hmark List.mem_cons_self)
  | nil =>
    cases hprelude : preludeOf (markCell :: before) with
    | nil =>
      -- then all would be blank
      rw [hprelude, List.nil_append, List.nil_append] at hsplit
      exact absurd rfl (hmark (hsplit ▸ List.mem_cons_self))
    | cons x tail =>
      rw [hprelude, List.nil_append, List.cons_append] at hsplit
      obtain ⟨rfl, -⟩ := List.cons.inj hsplit
      exact ⟨tail, rfl⟩

/-- A marked prelude announces no at-rule. -/
theorem atRule_mark (before : List Cell) :
    AtRule.of? (chars (preludeOf (markCell :: before))) = none := by
  obtain ⟨tail, htail⟩ := exists_preludeOf_mark before
  rw [htail, AtRule.of?]
  exact if_pos rfl

/-- The selectors of a list are that of its first piece, if any, and those of the other pieces. -/
theorem selectors_of_splitTop {list piece : List Char} {pieces : List (List Char)}
    (h : Selector.splitTop id 0 list = piece :: pieces) :
    Selector.selectors list = ((Selector.selectorOf? id piece).map Prod.snd).toList ++
      (pieces.filterMap (Selector.selectorOf? id)).map Prod.snd := by
  rw [Selector.selectors, Selector.entries, h, List.filterMap_cons]
  cases Selector.selectorOf? id piece <;> rfl

/-- A selector has the characters of its piece, without blanks. -/
theorem tally_selectorOf?_le {c : Char} (hc : isBlank c = false) (piece : List Char) :
    tally c ((Selector.selectorOf? id piece).map Prod.snd).toList ≤ piece.count c := by
  rw [Selector.selectorOf?]
  cases hdrop : piece.dropWhile fun x => isBlank (id x) with
  | nil => exact Nat.zero_le _
  | cons x xs =>
    have hle := (List.dropWhile_sublist (l := piece) fun x => isBlank (id x)).count_le c
    rw [hdrop] at hle
    simpa [count_collapse hc] using hle

theorem selectorOf?_mark (piece : List Char) :
    Selector.selectorOf? id (byteOrderMark :: piece) =
      some (byteOrderMark, collapse (byteOrderMark :: piece)) := by
  rw [Selector.selectorOf?, List.dropWhile_cons_of_neg (by decide)]
  dsimp only
  rw [List.map_id]
  rfl

/-- A mark before a list of selectors becomes part of the first, or makes one where that piece of
the list was blank. -/
theorem tally_selectors_mark (list : List Char) :
    (Selector.selectors list).length ≤ (Selector.selectors (byteOrderMark :: list)).length ∧
      tally byteOrderMark (Selector.selectors list) <
        tally byteOrderMark (Selector.selectors (byteOrderMark :: list)) := by
  obtain ⟨piece, pieces, hsplit⟩ :=
    List.exists_cons_of_ne_nil (Selector.splitTop_ne_nil id 0 list)
  have hmarked : Selector.splitTop id 0 (byteOrderMark :: list) =
      (byteOrderMark :: piece) :: pieces := Selector.splitTop_cons (by decide) hsplit
  rw [selectors_of_splitTop hsplit, selectors_of_splitTop hmarked, selectorOf?_mark, tally_append,
    tally_append, List.length_append, List.length_append]
  refine ⟨Nat.add_le_add_right ?_ _, Nat.add_lt_add_right ?_ _⟩
  · cases Selector.selectorOf? id piece <;> simp
  · rw [Option.map_some, Option.toList_some, tally_cons, count_collapse isBlank_byteOrderMark,
      List.count_cons_self]
    have hplain := tally_selectorOf?_le isBlank_byteOrderMark piece
    omega

/-- Outside all rules a prelude lists the selectors of its rule. -/
theorem selectors_inside {before : List Cell}
    (h : AtRule.of? (chars (preludeOf before)) = none) :
    (Scope.inside {} (preludeOf before)).selectors = Selector.selectors (chars before) := by
  have hresolve (children : List (List Char)) :
      children.flatMap (Selector.resolve []) = children := List.flatMap_singleton' children
  rw [← map_heads, map_heads_of_none h, hresolve, ← map_entries, ← map_entries,
    Selector.entries_preludeOf]

/-- In a block with a marked prelude the scope is heavier, unless there is a media query. -/
theorem heavier_mark {before : List Cell}
    (h : ∀ query, AtRule.of? (chars (preludeOf before)) ≠ some (.media query)) :
    Scope.Heavier byteOrderMark (Scope.inside {} (preludeOf before))
      (Scope.inside {} (preludeOf (markCell :: before))) := by
  have hmarked : (Scope.inside {} (preludeOf (markCell :: before))).selectors =
      Selector.selectors (byteOrderMark :: chars before) := selectors_inside (atRule_mark before)
  have hmedia : (Scope.inside {} (preludeOf (markCell :: before))).media = none := by
    rw [Scope.inside, atRule_mark]
  obtain ⟨hlength, htally⟩ := tally_selectors_mark (chars before)
  cases hrule : AtRule.of? (chars (preludeOf before)) with
  | none =>
    refine ⟨?_, ?_, ?_⟩
    · rw [hmedia, Scope.inside, hrule]
    · rw [selectors_inside hrule, hmarked]
      exact hlength
    · rw [selectors_inside hrule, hmarked]
      exact htally
  | some rule =>
    have hplain : Scope.inside {} (preludeOf before) = {} := by
      rw [Scope.inside, hrule]
      cases rule with
      | media query => exact absurd hrule (h query)
      | keyframes | descriptors | group => rfl
    refine ⟨?_, ?_, ?_⟩
    · rw [hmedia, hplain]
    · rw [hplain]
      exact Nat.zero_le _
    · rw [hplain, hmarked]
      exact Nat.zero_lt_of_lt htally

/-! ### Style sheets that are alike -/

theorem Relocation.weight_onSheet (f : Relocation) (c : Char) (s : Sheet) :
    (f.onSheet s).weight c = s.weight c := by
  simp [Sheet.weight, Rule.weight, Variable.weight, onSheet, onRule, onVariable,
    Function.comp_def]

theorem Relocation.size_onSheet (f : Relocation) (s : Sheet) : (f.onSheet s).size = s.size := by
  simp [Sheet.size, onSheet]

namespace Sheet

variable {s t : Sheet}

theorem Alike.toStart_eq (h : s.Alike (Relocation.right.onSheet t)) :
    Relocation.toStart.onSheet s = Relocation.toStart.onSheet t := by
  rw [h.parts, Relocation.toStart_onSheet]

theorem Alike.weight_eq (h : s.Alike (Relocation.right.onSheet t)) (c : Char) :
    s.weight c = t.weight c := by
  rw [← Relocation.toStart.weight_onSheet c s, h.toStart_eq, Relocation.weight_onSheet]

theorem Alike.size_eq (h : s.Alike (Relocation.right.onSheet t)) : s.size = t.size := by
  rw [← Relocation.toStart.size_onSheet s, h.toStart_eq, Relocation.size_onSheet]

theorem Alike.length_mediaQueries (h : s.Alike (Relocation.right.onSheet t)) :
    s.mediaQueries.length = t.mediaQueries.length := by
  have hlength := congrArg (fun u : Sheet => u.mediaQueries.length) h.toStart_eq
  simpa [Relocation.onSheet] using hlength

end Sheet

/-! ### Blocks with and without a mark -/

/-- A mark in a prelude changes what its block adds to a style sheet.  Media queries and keyframes
are lost; elsewhere a declaration under the prelude shows the mark.  Descriptors, which are not
read, show it in everything that can be read of them. -/
def MarkTells (prelude : List Cell) (body : List Node) : Prop :=
  match AtRule.of? (chars prelude) with
  | some (.media _) | some (.keyframes _) => True
  | some .descriptors => Node.declaresIn body = true ∨ (Sheet.ofNodes "" body).size ≠ 0
  | some .group | none => Node.declaresIn body = true

section

variable {path : String} {before content : List Cell} {body nodes : List Node}

/-- The mark is heard in the declarations under the prelude. -/
theorem weight_marked_lt (path : String) (content : List Cell) (nodes : List Node)
    (hmedia : ∀ query, AtRule.of? (chars (preludeOf before)) ≠ some (.media query))
    (h : Node.declaresIn body = true) :
    Node.weightIn byteOrderMark (Scope.inside {} (preludeOf before)) body +
        (Sheet.ofNodes path nodes).weight byteOrderMark <
      (Sheet.ofNodes path (.block (preludeOf (markCell :: before)) content body ::
        nodes)).weight byteOrderMark := by
  rw [Sheet.weight_ofNodes_block]
  have hlt := (Node.weightIn_le (heavier_mark hmedia) telltale_byteOrderMark body).2 h
  omega

/-- A marked block without declarations may make way for what it holds. -/
theorem ofNodes_marked (h : Node.declaresIn body = false) :
    Sheet.ofNodes path (.block (preludeOf (markCell :: before)) content body :: nodes) =
      Sheet.ofNodes path (body ++ nodes) := by
  refine Sheet.ofNodes_block_of_not_declares path content nodes ?_ ?_ h
  · intro query
    rw [atRule_mark]
    nofun
  · intro name
    rw [atRule_mark]
    nofun

/-- Before a rule, or an at-rule that holds rules or declarations, the mark shows in the
declarations. -/
theorem alike_rule_iff
    (h : AtRule.of? (chars (preludeOf before)) = none ∨
      AtRule.of? (chars (preludeOf before)) = some .group) :
    (Sheet.ofNodes path (.block (preludeOf before) content body :: nodes)).Alike
        (Relocation.right.onSheet
          (.ofNodes path (.block (preludeOf (markCell :: before)) content body :: nodes))) ↔
      ¬ Node.declaresIn body = true := by
  have hmedia : ∀ query, AtRule.of? (chars (preludeOf before)) ≠ some (.media query) := by
    intro query
    rcases h with h | h <;> simp [h]
  have hkeyframes : ∀ name, AtRule.of? (chars (preludeOf before)) ≠ some (.keyframes name) := by
    intro name
    rcases h with h | h <;> simp [h]
  constructor
  · intro halike hdeclares
    have hweight := halike.weight_eq byteOrderMark
    rw [Sheet.weight_ofNodes_block] at hweight
    exact (weight_marked_lt path content nodes hmedia hdeclares).ne hweight
  · intro hdeclares
    have hdeclares : Node.declaresIn body = false := by simpa using hdeclares
    rw [ofNodes_marked hdeclares,
      Sheet.ofNodes_block_of_not_declares path content nodes hmedia hkeyframes hdeclares]
    exact Sheet.alike_right _

/-- Before descriptors the mark shows in everything that can be read of them. -/
theorem alike_descriptors_iff
    (h : AtRule.of? (chars (preludeOf before)) = some .descriptors) :
    (Sheet.ofNodes path (.block (preludeOf before) content [] :: nodes)).Alike
        (Relocation.right.onSheet
          (.ofNodes path (.block (preludeOf (markCell :: before)) content body :: nodes))) ↔
      ¬ (Node.declaresIn body = true ∨ (Sheet.ofNodes "" body).size ≠ 0) := by
  have hmedia : ∀ query, AtRule.of? (chars (preludeOf before)) ≠ some (.media query) := by
    simp [h]
  have hkeyframes : ∀ name, AtRule.of? (chars (preludeOf before)) ≠ some (.keyframes name) := by
    simp [h]
  have hplain : Sheet.ofNodes path (.block (preludeOf before) content [] :: nodes) =
      Sheet.ofNodes path nodes :=
    Sheet.ofNodes_block_of_not_declares path content nodes hmedia hkeyframes rfl
  rw [hplain, not_or, Classical.not_not]
  cases hdeclares : Node.declaresIn body with
  | true =>
    refine iff_of_false (fun halike => ?_) (by simp)
    have hlt := weight_marked_lt path content nodes hmedia hdeclares
    rw [← halike.weight_eq byteOrderMark] at hlt
    omega
  | false =>
    rw [ofNodes_marked hdeclares]
    constructor
    · intro halike
      have hsize := halike.size_eq
      rw [Sheet.size_ofNodes_append] at hsize
      exact ⟨Bool.false_ne_true, by omega⟩
    · rintro ⟨-, hsize⟩
      rw [Sheet.ofNodes_append_of_size_eq_zero path nodes hsize]
      exact Sheet.alike_right _

/-- Before a media query the mark makes a rule of it. -/
theorem not_alike_media {query : List Char}
    (h : AtRule.of? (chars (preludeOf before)) = some (.media query)) :
    ¬ (Sheet.ofNodes path (.block (preludeOf before) content body :: nodes)).Alike
        (Relocation.right.onSheet
          (.ofNodes path (.block (preludeOf (markCell :: before)) content body :: nodes))) := by
  intro halike
  have hlength := halike.length_mediaQueries
  cases hprelude : preludeOf before with
  | nil =>
    rw [hprelude] at h
    cases h
  | cons x xs =>
    rw [hprelude] at h hlength
    simp only [Sheet.ofNodes, Node.mediaQueriesIn, Node.mediaQueries.eq_def, h, atRule_mark,
      List.length_append, List.length_cons, List.length_nil] at hlength
    omega

/-! #### Keyframes -/

/-- Keyframes stand at a character of the text that was read. -/
theorem pos_of_keyframes {xs : List Cell} {nodes : List Node} (h : Reads xs nodes)
    {k : Keyframes} (hk : k ∈ Node.keyframesIn nodes) :
    k.pos ∈ (xs.filter fun x => !isBlank x.char).map Cell.pos := by
  rw [Node.keyframesIn_eq {}] at hk
  obtain ⟨⟨scope, n⟩, hn, hk⟩ := List.mem_flatMap.1 hk
  cases n with
  | statement text => exact absurd hk List.not_mem_nil
  | block prelude content body =>
    rw [Node.ownKeyframes.eq_def] at hk
    dsimp only at hk
    split at hk
    · next x tail hrule =>
      rw [List.mem_singleton.1 hk]
      refine List.mem_map_of_mem (List.mem_filter.2 ⟨?_, ?_⟩)
      · exact (h.outer_infix hn).subset List.mem_cons_self
      · rw [char_of_atRule hrule]
        rfl
    · exact absurd hk List.not_mem_nil

/-- What stands further on in a text, moved to the right, is not nearly in the same place. -/
theorem Pos.Before.not_nearly_right {p q : Pos} (h : p.Before q) :
    ¬ p.Nearly (Relocation.right.pos q) := by
  obtain ⟨line, column⟩ := p
  obtain ⟨line', column'⟩ := q
  simp only [Pos.Before] at h
  simp only [Pos.Nearly, Relocation.right]
  split <;> simp only [Pos.mk.injEq] <;> omega

/-- Before keyframes the mark makes a rule of them, and what keyframes it may hold stand further
on. -/
theorem not_alike_keyframes {name : List Char} {xs rest : List Cell} {opening closing : Cell}
    (h : AtRule.of? (chars (preludeOf before)) = some (.keyframes name))
    (hxs : xs = before ++ opening :: (content ++ closing :: rest)) (hbody : Reads content body)
    (hpos : ((xs.filter fun x => !isBlank x.char).map Cell.pos).Pairwise Pos.Before) :
    ¬ (Sheet.ofNodes path (.block (preludeOf before) content [] :: nodes)).Alike
        (Relocation.right.onSheet
          (.ofNodes path (.block (preludeOf (markCell :: before)) content body :: nodes))) := by
  intro halike
  have hkeyframes := halike.keyframes
  cases hprelude : preludeOf before with
  | nil =>
    rw [hprelude] at h
    cases h
  | cons x tail =>
    rw [hprelude] at h hkeyframes
    simp only [Relocation.onSheet, Sheet.ofNodes, Node.keyframesIn, Node.keyframes.eq_def, h,
      atRule_mark, List.nil_append, List.append_nil, List.map_append, List.map_map] at hkeyframes
    -- there are as many on both sides, so one of the content takes the place of these
    have hlength := hkeyframes.length_eq
    simp only [List.length_append, List.length_map, List.length_cons, List.length_nil] at hlength
    obtain ⟨k, hk⟩ : ∃ k, Node.keyframesIn body = [k] := List.length_eq_one_iff.1 (by omega)
    rw [hk] at hkeyframes
    have hnearly : x.pos.Nearly (Relocation.right.pos k.pos) := by
      simpa [Relocation.onKeyframes] using (List.forall₂_cons.1 hkeyframes).1
    refine Pos.Before.not_nearly_right ?_ hnearly
    have hx : x.pos ∈ (before.filter fun x => !isBlank x.char).map Cell.pos := by
      refine List.mem_map_of_mem (List.mem_filter.2 ⟨?_, ?_⟩)
      · exact (infix_preludeOf before).subset (hprelude ▸ List.mem_cons_self)
      · rw [char_of_atRule h]
        rfl
    have hkpos := pos_of_keyframes hbody (hk ▸ List.mem_singleton_self k)
    rw [hxs, List.filter_append, List.map_append] at hpos
    refine (List.pairwise_append.1 hpos).2.2 _ hx _ ?_
    rw [List.filter_cons]
    split
    · rw [List.map_cons, List.filter_append, List.map_append]
      exact List.mem_cons_of_mem _ (List.mem_append_left _ hkpos)
    · rw [List.filter_append, List.map_append]
      exact List.mem_append_left _ hkpos

/-! #### All blocks -/

/-- A block that can be read with and without a mark in its prelude is the same in both unless the
mark tells. -/
theorem alike_block_iff (path : String) (nodes : List Node) {xs rest : List Cell}
    {opening closing : Cell}
    (hxs : xs = before ++ opening :: (content ++ closing :: rest)) (hbody : Reads content body)
    (hpos : ((xs.filter fun x => !isBlank x.char).map Cell.pos).Pairwise Pos.Before) :
    (Sheet.ofNodes path (.block (preludeOf before) content
          (if holdsNodes (chars (preludeOf before)) then body else []) :: nodes)).Alike
        (Relocation.right.onSheet
          (.ofNodes path (.block (preludeOf (markCell :: before)) content body :: nodes))) ↔
      ¬ MarkTells (preludeOf before) body := by
  cases hrule : AtRule.of? (chars (preludeOf before)) with
  | none =>
    simp only [holdsNodes, MarkTells, hrule, if_true]
    exact alike_rule_iff (.inl hrule)
  | some rule =>
    cases rule with
    | media query =>
      simp only [holdsNodes, MarkTells, hrule, if_true, not_true_eq_false, iff_false]
      exact not_alike_media hrule
    | keyframes name =>
      simp only [holdsNodes, MarkTells, hrule, Bool.false_eq_true, if_false, not_true_eq_false,
        iff_false]
      exact not_alike_keyframes hrule hxs hbody hpos
    | descriptors =>
      simp only [holdsNodes, MarkTells, hrule, Bool.false_eq_true, if_false]
      exact alike_descriptors_iff hrule
    | group =>
      simp only [holdsNodes, MarkTells, hrule, if_true]
      exact alike_rule_iff (.inr hrule)

end

/-! ### A mark before a text -/

/-- A mark before a block changes what is read of the block or of the text.  That is so if both
can be read and the mark tells, and if the mark makes nodes of a content that is not read and
cannot be. -/
def BlockShows (before content rest : List Cell) : Prop :=
  (∃ body nodes, readNodes content = .ok body ∧ readNodes rest = .ok nodes ∧
    MarkTells (preludeOf before) body) ∨
  (holdsNodes (chars (preludeOf before)) = false ∧ ∃ e, readNodes content = .error e ∧
    ∀ e', readNodes rest = .error e' → e'.line ≠ e.line)

/-- A mark before a text changes what is read of it: the text begins with a block, which shows
it. -/
def MarkShows (xs : List Cell) : Prop :=
  ∃ before p after content rest, cut xs = ⟨before, .openBrace p, after⟩ ∧
    takeBlock after = some (content, rest) ∧ BlockShows before content rest

theorem not_markShows {xs : List Cell} (h : ∀ p, (cut xs).stop ≠ .openBrace p) :
    ¬ MarkShows xs := by
  rintro ⟨before, p, after, -, -, hcut, -, -⟩
  exact h p (by rw [hcut])

section

variable {xs before after : List Cell} {p : Pos}

theorem not_markShows_of_unclosed (hcut : cut xs = ⟨before, .openBrace p, after⟩)
    (hb : takeBlock after = none) : ¬ MarkShows xs := by
  rintro ⟨before', p', after', content, rest, hcut', hb', -⟩
  obtain ⟨-, -, rfl⟩ := Cut.mk.inj (hcut.symm.trans hcut')
  rw [hb] at hb'
  cases hb'

theorem markShows_iff (hcut : cut xs = ⟨before, .openBrace p, after⟩) {content rest : List Cell}
    (hb : takeBlock after = some (content, rest)) :
    MarkShows xs ↔ BlockShows before content rest := by
  constructor
  · rintro ⟨before', p', after', content', rest', hcut', hb', h⟩
    obtain ⟨rfl, -, rfl⟩ := Cut.mk.inj (hcut.symm.trans hcut')
    rw [hb] at hb'
    cases hb'
    exact h
  · intro h
    exact ⟨before, p, after, content, rest, hcut, hb, h⟩

end

/-- With a mark in the prelude every content is read. -/
theorem readBody_mark (before content : List Cell) :
    readBody (preludeOf (markCell :: before)) content = readNodes content := by
  rw [readBody, holdsNodes, atRule_mark]
  rfl

/-- A mark before a block is harmless unless the block shows it. -/
theorem readBlock_mark_iff {path : String} {xs before content rest : List Cell}
    {opening closing : Cell} (hxs : xs = before ++ opening :: (content ++ closing :: rest))
    (hpos : ((xs.filter fun x => !isBlank x.char).map Cell.pos).Pairwise Pos.Before) :
    ReadAlike
        (((readBody (preludeOf before) content).bind fun body =>
          (readNodes rest).map (.block (preludeOf before) content body :: ·)).map
            (Sheet.ofNodes path))
        (movedRight (((readNodes content).bind fun body =>
          (readNodes rest).map (.block (preludeOf (markCell :: before)) content body :: ·)).map
            (Sheet.ofNodes path))) ↔
      ¬ BlockShows before content rest := by
  rw [readBody, BlockShows, not_or]
  cases hcontent : readNodes content with
  | ok body =>
    have hplain : (if holdsNodes (chars (preludeOf before)) = true then .ok body else .ok []) =
        (.ok (if holdsNodes (chars (preludeOf before)) then body else []) :
          Except ReadError (List Node)) := by
      split <;> rfl
    rw [hplain]
    cases hrest : readNodes rest with
    | ok nodes =>
      have halike := alike_block_iff path nodes hxs
        (reads_of_readNodes hcontent) hpos
      simpa [Except.bind, Except.map, movedRight, Except.mapError, ReadAlike] using halike
    | error e =>
      simp [Except.bind, Except.map, movedRight, Except.mapError, ReadAlike, line_onError]
  | error e =>
    cases hholds : holdsNodes (chars (preludeOf before)) with
    | true => simp [Except.bind, Except.map, movedRight, Except.mapError, ReadAlike, line_onError]
    | false =>
      -- the content was not read without the mark
      cases hrest : readNodes rest with
      | ok nodes => simp [Except.bind, Except.map, movedRight, Except.mapError, ReadAlike]
      | error e' =>
        simp [Except.bind, Except.map, movedRight, Except.mapError, ReadAlike, line_onError]

theorem parensAfter?_mark {text : List Cell} {d : Nat} (h : parensAfter? 0 text = some d) :
    parensAfter? 0 (markCell :: text) = some d := by
  rw [parensAfter?, if_neg (by decide)]
  exact h

/-- **A mark before a text without comments is harmless unless it shows.** -/
theorem readNodes_mark_iff (path : String) {xs : List Cell}
    (hpos : ((xs.filter fun x => !isBlank x.char).map Cell.pos).Pairwise Pos.Before) :
    ReadAlike ((readNodes xs).map (Sheet.ofNodes path))
        (movedRight ((readNodes (markCell :: xs)).map (Sheet.ofNodes path))) ↔
      ¬ MarkShows xs := by
  rcases cut_cases xs with ⟨text, x, rest, hxs, ht, hx, hcut⟩ | ⟨d, hd, hcut⟩
  · have hmarkCut : cut (markCell :: xs) = ⟨markCell :: text, x.stop, rest⟩ := by
      rw [hxs]
      exact cut_append (parensAfter?_mark ht) hx rest
    rcases Cell.delimits_cases hx with ho | hc | hs
    · rw [Cell.stop_of_opens ho] at hcut hmarkCut
      cases hb : takeBlock rest with
      | none =>
        rw [readNodes_of_unclosed hcut hb, readNodes_of_unclosed hmarkCut hb]
        exact iff_of_true (readAlike_movedRight _) (not_markShows_of_unclosed hcut hb)
      | some r =>
        obtain ⟨content, tail⟩ := r
        obtain ⟨-, closing, -, rfl⟩ := takeBlock_eq_some_iff.1 hb
        rw [readNodes_of_block hcut hb, readNodes_of_block hmarkCut hb, readBody_mark,
          readBlock_mark_iff hxs hpos, markShows_iff hcut hb]
    · rw [Cell.stop_of_closes hc] at hcut hmarkCut
      rw [readNodes_of_closeBrace hcut, readNodes_of_closeBrace hmarkCut]
      exact iff_of_true (readAlike_movedRight _) (not_markShows (by simp [hcut]))
    · rw [Cell.stop_of_semicolon hs] at hcut hmarkCut
      rw [readNodes_of_semicolon hcut, readNodes_of_semicolon hmarkCut, map_ofNodes_statement,
        map_ofNodes_statement]
      exact iff_of_true (readAlike_movedRight _) (not_markShows (by simp [hcut]))
  · -- no block follows, so the mark is part of a statement outside all rules
    have hmarkCut : cut (markCell :: xs) = ⟨markCell :: xs, .finish, []⟩ :=
      cut_eq_self (parensAfter?_mark hd)
    rw [map_ofNodes_of_finish path hcut, map_ofNodes_of_finish path hmarkCut]
    exact iff_of_true (readAlike_movedRight _) (not_markShows (by simp [hcut]))

/-! ### A mark before a source -/

/-- A mark before a source sticks to the prelude of the block that the source begins with, where it
changes what is read. -/
def MarkSticks (source : String) : Prop :=
  ∃ xs, strip (cells source.toList) = .ok xs ∧ MarkShows (markStrings xs)

/-- **A byte order mark changes nothing but columns exactly if it does not stick to the first
prelude.**  The exception are sources that open with a line comment: behind a mark this is no
comment but code. -/
theorem Sheet.parse_mark_iff (path source : String)
    (h : opensWithLineComment (pieces (cells source.toList)) = false) :
    ReadAlike (parse path source) (parse path ("\ufeff" ++ source)) ↔ ¬ MarkSticks source := by
  have htext : ("\ufeff" ++ source).toList = byteOrderMark :: source.toList := by
    simp [byteOrderMark]
  rw [parse_eq_ofCells, parse_eq_ofCells, htext, cells_mark, ofCells_map, ofCells, ofCells,
    strip_mark h, MarkSticks]
  cases hstrip : strip (cells source.toList) with
  | error line => exact iff_of_true (readAlike_movedRight _) (by simp)
  | ok xs =>
    simp only [Except.map, markStrings_mark]
    refine (readNodes_mark_iff path (pairwise_pos hstrip)).trans (not_congr ?_)
    simp

/-- Behind a mark the statement before the first block is not read, so nothing changes. -/
theorem Sheet.parse_mark_of_charset :
    opensWithLineComment (pieces (cells "@charset x;\n.a\x7bb:c\x7d".toList)) = false ∧
      ReadAlike (parse "a.css" "@charset x;\n.a\x7bb:c\x7d")
        (parse "a.css" ("\ufeff" ++ "@charset x;\n.a\x7bb:c\x7d")) := by
  have hopens :
      opensWithLineComment (pieces (cells "@charset x;\n.a\x7bb:c\x7d".toList)) = false := by
    decide +kernel
  have hstop : (strip (cells "@charset x;\n.a\x7bb:c\x7d".toList)).toOption.map
      (fun xs => (cut (markStrings xs)).stop) = some .semicolon := by decide +kernel
  refine ⟨hopens, (parse_mark_iff "a.css" _ hopens).2 ?_⟩
  rintro ⟨xs, hstrip, hshows⟩
  rw [hstrip] at hstop
  have hstop : (cut (markStrings xs)).stop = .semicolon := by simpa [Except.toOption] using hstop
  exact not_markShows (by simp [hstop]) hshows

/-- A mark becomes part of a selector, and makes code of a line comment. -/
theorem Sheet.mark_not_read_alike :
    ¬ ReadAlike (parse "a.css" ".a\x7bcolor:red\x7d")
        (parse "a.css" ("\ufeff" ++ ".a\x7bcolor:red\x7d")) ∧
      ¬ ReadAlike (parse "a.css" "//\x7b\n") (parse "a.css" ("\ufeff" ++ "//\x7b\n")) :=
  ⟨fun h => absurd h.selectors (by decide +kernel),
    fun h => absurd h.selectors (by decide +kernel)⟩

end SheetAudit
