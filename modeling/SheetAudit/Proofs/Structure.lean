import Mathlib.Data.List.DropRight
import SheetAudit.Proofs.Braces
import SheetAudit.Proofs.Draft
import SheetAudit.Proofs.Relocation

/-!
# How a written style sheet is structured

The stages before the parts are gathered, on a style sheet that was written from a tree: comments
make way for spaces, no string is found, and the statements and blocks are those of the tree.

## Main definitions

* `Source.place` — the cells of a text that stands nowhere in particular.
* `Strips a b` — the text `a` becomes `b` when its comments are blanked, whatever stands around it.
* `Level` — a text that leaves all parentheses and braces as they are.
* `Item.node` — the node of an item.

## Main results

* `strips_writeAll` — blanking the comments of a written body blanks its gaps and nothing else.
* `reads_writeAll` — **a written body is read as the nodes of its items.**
-/

namespace SheetAudit

open Source Text

/-! ### Texts without places -/

/-- The cells of a text, outside strings and all at the start. -/
def Source.place (cs : List Char) : List Cell := cs.map fun c => ⟨c, .start, false⟩

@[simp] theorem Source.place_nil : place [] = [] := rfl

@[simp] theorem Source.place_cons (c : Char) (cs : List Char) :
    place (c :: cs) = ⟨c, .start, false⟩ :: place cs := rfl

@[simp] theorem Source.place_append (cs ds : List Char) :
    place (cs ++ ds) = place cs ++ place ds :=
  List.map_append

@[simp] theorem Source.chars_place (cs : List Char) : chars (place cs) = cs := by
  simp [chars, place, Function.comp_def]

theorem Source.mem_place {x : Cell} {cs : List Char} (h : x ∈ place cs) : x.char ∈ cs := by
  obtain ⟨c, hc, rfl⟩ := List.mem_map.1 h
  exact hc

/-- Moved to the start, a text stands nowhere in particular. -/
theorem Relocation.cells_map_toStart (cs : List Char) :
    (cells cs).map toStart.onCell = place cs := by
  have h : ∀ p : Pos, (cellsFrom p cs).map toStart.onCell = place cs := by
    induction cs with
    | nil => intro p; rfl
    | cons c cs ih =>
      intro p
      rw [cellsFrom, List.map_cons, ih, place_cons]
      rfl
  exact h .start

namespace Draft

/-! ### Characters -/

/-- Blanked gaps are spaces. -/
theorem isSpace_of_mem_blanked {g : Gap} {c : Char} (h : c ∈ g.flatMap Filler.blanked) :
    isSpace c = true := by
  obtain ⟨f, -, hc⟩ := List.mem_flatMap.1 h
  cases f with
  | blank d hd =>
    obtain rfl := List.mem_singleton.1 hc
    exact hd
  | comment text _ =>
    obtain ⟨d, -, hd⟩ := List.mem_flatMap.1 hc
    rw [Filler.spaces] at hd
    split at hd
    · next hn =>
      obtain rfl := List.mem_singleton.1 hd
      rw [beq_iff_eq] at hn
      rw [hn]
      rfl
    · obtain rfl := List.eq_of_mem_replicate hd
      rfl

theorem isBlank_of_mem_blanked {g : Gap} {c : Char} (h : c ∈ g.flatMap Filler.blanked) :
    isBlank c = true :=
  isBlank_of_isSpace (isSpace_of_mem_blanked h)

theorem isSpace_of_mem_gap {g : Gap} {x : Cell} (h : x ∈ place (g.flatMap Filler.blanked)) :
    isSpace x.char = true :=
  isSpace_of_mem_blanked (mem_place h)

theorem isBlank_of_mem_gap {g : Gap} {x : Cell} (h : x ∈ place (g.flatMap Filler.blanked)) :
    isBlank x.char = true :=
  isBlank_of_isSpace (isSpace_of_mem_gap h)

theorem ne_of_isSpace {c d : Char} (hc : isSpace c = true) (hd : isSpace d = false) : c ≠ d := by
  rintro rfl
  rw [hc] at hd
  simp at hd

theorem isReserved_of_isSpace {c : Char} (h : isSpace c = true) : isReserved c = false := by
  simp only [isSpace, Bool.or_eq_true, beq_iff_eq] at h
  rcases h with (((rfl | rfl) | rfl) | rfl) | rfl <;> decide

/-- Letters, digits, hyphens and underscores. -/
theorem ne_of_isNameChar {c d : Char} (hc : isAlphanumeric c = true ∨ c = '-' ∨ c = '_')
    (hd : isAlphanumeric d = false) (h₁ : d ≠ '-') (h₂ : d ≠ '_') : c ≠ d := by
  rintro rfl
  rcases hc with hc | hc | hc
  · rw [hc] at hd
    simp at hd
  · exact h₁ hc
  · exact h₂ hc

theorem Name.plain (n : Name) :
    ∀ c ∈ n.chars, isAlphanumeric c = true ∨ c = '-' ∨ c = '_' := by
  intro c hc
  cases n with
  | property n =>
    rcases n.plain c hc with h | h
    · exact .inl h
    · exact .inr (.inl h)
  | «variable» n =>
    simp only [Name.chars, VariableName.chars, List.mem_cons] at hc
    rcases hc with rfl | rfl | hc
    · exact .inr (.inl rfl)
    · exact .inr (.inl rfl)
    · exact n.plain c hc

theorem Name.isReserved {n : Name} {c : Char} (hc : c ∈ n.chars) : isReserved c = false := by
  have h {d : Char} (hd : isAlphanumeric d = false) (h₁ : d ≠ '-') (h₂ : d ≠ '_') :
      (c == d) = false :=
    beq_false_of_ne (ne_of_isNameChar (n.plain c hc) hd h₁ h₂)
  simp only [Draft.isReserved, h (d := '"') (by decide) (by decide) (by decide),
    h (d := '\'') (by decide) (by decide) (by decide),
    h (d := '\\') (by decide) (by decide) (by decide),
    h (d := '/') (by decide) (by decide) (by decide),
    h (d := '{') (by decide) (by decide) (by decide),
    h (d := '}') (by decide) (by decide) (by decide),
    h (d := ';') (by decide) (by decide) (by decide), Bool.or_self]

/-! ### Blanking comments -/

/-- The text `a` becomes `b` when its comments are blanked, whatever stands around it, and no
string begins in it. -/
structure Strips (a b : List Char) : Prop where
  pieces : ∀ code rest, ∃ ps after,
    piecesFrom none code (place a ++ rest) = ps ++ piecesFrom none after rest ∧
      ps.flatMap Piece.stripped = place b ∧
      ∀ tail, unclosedLine (ps ++ tail) = unclosedLine tail
  unquoted : ∀ c ∈ b, (c == '"' || c == '\'') = false

namespace Strips

theorem nil : Strips [] [] :=
  ⟨fun code rest => ⟨[], code, rfl, rfl, fun _ => rfl⟩, by simp⟩

theorem append {a b a' b' : List Char} (h : Strips a b) (h' : Strips a' b') :
    Strips (a ++ a') (b ++ b') := by
  refine ⟨fun code rest => ?_, fun c hc => ?_⟩
  · obtain ⟨ps, mid, hps, hb, hu⟩ := h.pieces code (place a' ++ rest)
    obtain ⟨ps', after, hps', hb', hu'⟩ := h'.pieces mid rest
    refine ⟨ps ++ ps', after, ?_, ?_, fun tail => ?_⟩
    · rw [place_append, List.append_assoc, hps, hps', List.append_assoc]
    · rw [List.flatMap_append, hb, hb', place_append]
    · rw [List.append_assoc, hu, hu']
  · rcases List.mem_append.1 hc with hc | hc
    · exact h.unquoted c hc
    · exact h'.unquoted c hc

/-- A character that begins neither a string nor a comment stays. -/
theorem singleton {c : Char} (hq : (c == '"' || c == '\'') = false) (hs : c ≠ '/') :
    Strips [c] [c] := by
  refine ⟨fun code rest => ?_, by simpa using hq⟩
  have hu : ∀ (x : Cell) (tail : List Piece),
      unclosedLine ([.code x] ++ tail) = unclosedLine tail := fun _ _ => rfl
  by_cases hn : c = '\n'
  · exact ⟨[.code ⟨c, .start, false⟩], false, piecesFrom_newline hn code rest, rfl, hu _⟩
  · exact ⟨[.code ⟨c, .start, false⟩], code || !isSpace c,
      piecesFrom_plain (by simp [hq]) hn hs code rest, rfl, hu _⟩

theorem of_forall {cs : List Char} (h : ∀ c ∈ cs, (c == '"' || c == '\'') = false ∧ c ≠ '/') :
    Strips cs cs := by
  induction cs with
  | nil => exact nil
  | cons c cs ih =>
    have hc := h c List.mem_cons_self
    exact (singleton hc.1 hc.2).append (ih fun d hd => h d (List.mem_cons_of_mem _ hd))

theorem of_isReserved {cs : List Char} (h : ∀ c ∈ cs, isReserved c = false) : Strips cs cs := by
  refine of_forall fun c hc => ?_
  have hr := h c hc
  simp only [isReserved, Bool.or_eq_false_iff] at hr
  exact ⟨by simp [hr], by simpa using hr.1.1.1.2⟩

theorem filler (f : Filler) : Strips f.written f.blanked := by
  cases f with
  | blank c hc =>
    refine singleton ?_ (ne_of_isSpace hc (by decide))
    simp [ne_of_isSpace hc (d := '"') (by decide), ne_of_isSpace hc (d := '\'') (by decide)]
  | comment text h =>
    refine ⟨fun code rest => ?_, fun c hc => ?_⟩
    · refine ⟨[.comment true (place (Filler.comment text h).written)], code, ?_, ?_, fun _ => rfl⟩
      · have hclose : closeComment
            (place text ++ ⟨'*', .start, false⟩ :: ⟨'/', .start, false⟩ :: rest) =
              some (place text ++ [⟨'*', .start, false⟩, ⟨'/', .start, false⟩], rest) :=
          closeComment_append (by simpa using h) rfl rfl rest
        have hwritten : place (Filler.comment text h).written = ⟨'/', .start, false⟩ ::
            ⟨'*', .start, false⟩ ::
              (place text ++ [⟨'*', .start, false⟩, ⟨'/', .start, false⟩]) := by
          simp [Filler.written]
        rw [hwritten]
        simpa using piecesFrom_block rfl rfl hclose code
      · have hblank : ∀ cs : List Char,
            (place cs).flatMap blank = place (cs.flatMap Filler.spaces) := by
          intro cs
          induction cs with
          | nil => rfl
          | cons c cs ih =>
            rw [place_cons, List.flatMap_cons, List.flatMap_cons, place_append, ih]
            congr 1
            rw [blank, Filler.spaces]
            split
            · rfl
            · simp [place]
        rw [List.flatMap_singleton]
        exact hblank _
    · have hspace : isSpace c = true :=
        isSpace_of_mem_blanked (g := [.comment text h]) (by simpa using hc)
      simp [ne_of_isSpace hspace (d := '"') (by decide),
        ne_of_isSpace hspace (d := '\'') (by decide)]

theorem gap : ∀ g : Gap, Strips (g.flatMap Filler.written) (g.flatMap Filler.blanked)
  | [] => nil
  | f :: g => (filler f).append (gap g)

theorem spaced {α : Type} {chars : α → List Char} (s : Spaced α)
    (h : ∀ c ∈ chars s.token, isReserved c = false) :
    Strips (s.write Filler.written chars) (s.write Filler.blanked chars) :=
  (gap s.before).append ((of_isReserved h).append (gap s.after))

theorem writeSelectors (first : Spaced SelectorText) (others : List (Spaced SelectorText)) :
    Strips (writeSelectors Filler.written first others)
      (writeSelectors Filler.blanked first others) := by
  refine (spaced first first.token.plain).append ?_
  induction others with
  | nil => exact nil
  | cons s others ih =>
    have hcomma : Strips [','] [','] := singleton (by decide) (by decide)
    exact (hcomma.append (spaced s s.token.plain)).append ih

theorem writeDeclaration (name : Spaced Name) (value : Spaced Phrase) :
    Strips (writeDeclaration Filler.written name value)
      (writeDeclaration Filler.blanked name value) := by
  have hcolon : Strips [':'] [':'] := singleton (by decide) (by decide)
  exact (spaced name fun _ hc => Name.isReserved hc).append
    (hcolon.append (spaced value value.token.plain))

theorem writeQuery (before : Gap) (query : Spaced QueryText) :
    Strips (writeQuery Filler.written before query) (writeQuery Filler.blanked before query) := by
  have hkeyword : Strips "@media".toList "@media".toList := of_forall (by simp)
  exact (gap before).append (hkeyword.append (spaced query query.token.plain))

theorem braces {a b : List Char} (h : Strips a b) :
    Strips ('{' :: (a ++ ['}'])) ('{' :: (b ++ ['}'])) := by
  have ho : Strips ['{'] ['{'] := singleton (by decide) (by decide)
  have hc : Strips ['}'] ['}'] := singleton (by decide) (by decide)
  exact ho.append (h.append hc)

end Strips

mutual

theorem strips_write : ∀ i : Item, Strips (i.write Filler.written) (i.write Filler.blanked)
  | .declaration name value => by
    rw [Item.write, Item.write]
    have hsemicolon : Strips [';'] [';'] := .singleton (by decide) (by decide)
    exact (Strips.writeDeclaration name value).append hsemicolon
  | .rule first others body last => by
    rw [Item.write, Item.write]
    exact (Strips.writeSelectors first others).append (strips_writeAll body last).braces
  | .media before query _ body last => by
    rw [Item.write, Item.write]
    exact (Strips.writeQuery before query).append (strips_writeAll body last).braces

/-- Blanking the comments of a written body blanks its gaps and nothing else. -/
theorem strips_writeAll : ∀ (is : List Item) (last : Gap),
    Strips (Item.writeAll Filler.written is last) (Item.writeAll Filler.blanked is last)
  | [], last => by
    rw [Item.writeAll, Item.writeAll]
    exact .gap last
  | i :: is, last => by
    rw [Item.writeAll, Item.writeAll]
    exact (strips_write i).append (strips_writeAll is last)

end

theorem Strips.strip {a b : List Char} (h : Strips a b) : strip (place a) = .ok (place b) := by
  obtain ⟨ps, after, hps, hb, hu⟩ := h.pieces false []
  rw [List.append_nil, piecesFrom_nil, List.append_nil] at hps
  have hline : unclosedLine ps = none := by
    have := hu []
    rwa [List.append_nil] at this
  simp only [Source.strip, Source.pieces, hps, hline, hb]

/-- Where no string begins none is marked. -/
theorem markStrings_place {cs : List Char} (h : ∀ c ∈ cs, (c == '"' || c == '\'') = false) :
    markStrings (place cs) = place cs := by
  rw [markStrings]
  induction cs with
  | nil => rfl
  | cons c cs ih =>
    have hc := h c List.mem_cons_self
    rw [place_cons, markFrom]
    simp only [hc, Bool.false_eq_true, if_false]
    rw [ih fun d hd => h d (List.mem_cons_of_mem _ hd)]

/-! ### Parentheses and braces -/

/-- The text leaves all parentheses and braces as they are, and no delimiter stands outside
parentheses in it. -/
structure Level (cs : List Char) : Prop where
  parens : ∀ depth, parensAfter? depth (place cs) = some depth
  braces : ∀ depth, bracesAfter? depth (place cs) = some depth

namespace Level

theorem append {cs ds : List Char} (h : Level cs) (h' : Level ds) : Level (cs ++ ds) := by
  refine ⟨fun depth => ?_, fun depth => ?_⟩
  · rw [place_append, parensAfter?_append, h.parens, Option.bind_some, h'.parens]
  · rw [place_append, bracesAfter?_append, h.braces, Option.bind_some, h'.braces]

theorem nil : Level [] := ⟨fun _ => rfl, fun _ => rfl⟩

/-- A placed cell stands for its character. -/
theorem is_place (c d : Char) : (⟨c, .start, false⟩ : Cell).is d = (c == d) := by
  simp [Cell.is]

theorem delimits_place {c : Char} (h : isReserved c = false) :
    (⟨c, .start, false⟩ : Cell).delimits = false := by
  simp only [isReserved, Bool.or_eq_false_iff] at h
  simp [Cell.delimits, is_place, h]

theorem braces_place {cs : List Char} (h : ∀ c ∈ cs, isReserved c = false) (depth : Nat) :
    bracesAfter? depth (place cs) = some depth := by
  refine bracesAfter?_of_forall (fun x hx => ?_) depth
  obtain ⟨c, hc, rfl⟩ := List.mem_map.1 hx
  have hr := h c hc
  simp only [isReserved, Bool.or_eq_false_iff] at hr
  exact Cell.braces?_of_not (by simp [is_place, hr]) (by simp [is_place, hr])

/-- Parentheses that are nested leave as many open as they found; `awaited` are found open. -/
theorem parens_of_nested {awaited cs : List Char} (hn : nested awaited cs = true)
    (hr : ∀ c ∈ cs, isReserved c = false) (depth : Nat) :
    parensAfter? (awaited.count ')' + depth) (place cs) = some depth := by
  induction cs generalizing awaited with
  | nil =>
    obtain rfl : awaited = [] := by simpa [nested] using hn
    simp [parensAfter?]
  | cons c cs ih =>
    have hd : (⟨c, .start, false⟩ : Cell).delimits = false :=
      delimits_place (hr c List.mem_cons_self)
    have hrest : ∀ d ∈ cs, isReserved d = false := fun d hm => hr d (List.mem_cons_of_mem _ hm)
    rw [place_cons, parensAfter?, if_neg (by simp [hd]), Cell.parens, is_place, is_place]
    rw [nested.eq_def] at hn
    dsimp only at hn
    split at hn
    · next ho =>
      have h := ih hn hrest
      rw [List.count_cons_self] at h
      rw [if_pos ho, ← h]
      congr 1
      omega
    split at hn
    · next ho hb =>
      -- a bracket is awaited as well, but only parentheses are counted
      have h := ih hn hrest
      rw [List.count_cons_of_ne (by decide)] at h
      obtain rfl := eq_of_beq hb
      exact h
    split at hn
    · next ho hb hc =>
      -- a closing one is the one that was awaited
      cases awaited with
      | nil => simp at hn
      | cons d rest =>
        rw [Bool.and_eq_true, beq_iff_eq] at hn
        obtain ⟨rfl, hn⟩ := hn
        have h := ih hn hrest
        rw [Bool.or_eq_true, beq_iff_eq, beq_iff_eq] at hc
        rcases hc with rfl | rfl
        · rw [if_neg (by decide), if_pos (by decide), List.count_cons_self, ← h]
          congr 1
          omega
        · rw [if_neg (by decide), if_neg (by decide), List.count_cons_of_ne (by decide)]
          exact h
    · next ho hb hc =>
      rw [Bool.or_eq_true, not_or] at hc
      rw [if_neg ho, if_neg hc.1]
      exact ih hn hrest

theorem phrase (p : Phrase) : Level p.chars :=
  ⟨fun depth => by simpa using parens_of_nested p.nested p.plain depth, braces_place p.plain⟩

/-- A text without reserved characters and parentheses. -/
theorem of_forall {cs : List Char}
    (h : ∀ c ∈ cs, isReserved c = false ∧ c ≠ '(' ∧ c ≠ ')') : Level cs := by
  refine ⟨fun depth => ?_, braces_place fun c hc => (h c hc).1⟩
  induction cs with
  | nil => rfl
  | cons c cs ih =>
    obtain ⟨hr, ho, hc⟩ := h c List.mem_cons_self
    rw [place_cons, parensAfter?, if_neg (by simp [delimits_place hr]), Cell.parens, is_place,
      is_place, if_neg (by simpa using ho), if_neg (by simpa using hc)]
    exact ih fun d hd => h d (List.mem_cons_of_mem _ hd)

theorem gap (g : Gap) : Level (g.flatMap Filler.blanked) := by
  refine of_forall fun c hc => ?_
  have hs := isSpace_of_mem_blanked hc
  exact ⟨isReserved_of_isSpace hs, ne_of_isSpace hs (by decide), ne_of_isSpace hs (by decide)⟩

theorem name (n : Name) : Level n.chars := by
  refine of_forall fun c hc => ⟨Name.isReserved hc, ?_, ?_⟩
  · exact ne_of_isNameChar (n.plain c hc) (by decide) (by decide) (by decide)
  · exact ne_of_isNameChar (n.plain c hc) (by decide) (by decide) (by decide)

theorem spaced {α : Type} {chars : α → List Char} (s : Spaced α) (h : Level (chars s.token)) :
    Level (s.write Filler.blanked chars) :=
  (gap s.before).append (h.append (gap s.after))

theorem writeSelectors (first : Spaced SelectorText) (others : List (Spaced SelectorText)) :
    Level (writeSelectors Filler.blanked first others) := by
  refine (spaced first (phrase _)).append ?_
  induction others with
  | nil => exact nil
  | cons s others ih =>
    have hcomma : Level [','] := of_forall (by simp [isReserved])
    exact (hcomma.append (spaced s (phrase _))).append ih

theorem writeDeclaration (name : Spaced Name) (value : Spaced Phrase) :
    Level (writeDeclaration Filler.blanked name value) := by
  have hcolon : Level [':'] := of_forall (by simp [isReserved])
  exact (spaced name (Level.name _)).append (hcolon.append (spaced value (phrase _)))

theorem writeQuery (before : Gap) (query : Spaced QueryText) :
    Level (writeQuery Filler.blanked before query) := by
  have hkeyword : Level "@media".toList := of_forall (by simp [isReserved])
  exact (gap before).append (hkeyword.append (spaced query (phrase _)))

end Level

/-! ### Preludes -/

/-- A prelude begins at the first character that is not blank, and only blanks are missing at its
end. -/
theorem exists_preludeOf {left : List Cell} {x : Cell} (hl : ∀ y ∈ left, isSpace y.char = true)
    (hx : isBlank x.char = false) (ys : List Cell) :
    ∃ zs right, preludeOf (left ++ x :: ys) = x :: zs ∧ ys = zs ++ right ∧
      ∀ y ∈ right, isBlank y.char = true := by
  have hs : isSpace x.char = false := by
    cases h : isSpace x.char with
    | false => rfl
    | true =>
      rw [isBlank_of_isSpace h] at hx
      simp at hx
  refine ⟨ys.rdropWhile fun y => isBlank y.char, ys.rtakeWhile fun y => isBlank y.char, ?_,
    (List.rdropWhile_append_rtakeWhile ..).symm, fun y hy => ?_⟩
  · rw [preludeOf, List.dropWhile_append_of_pos hl, List.dropWhile_cons_of_neg (by simp [hs]),
      List.reverse_cons, List.dropWhile_append]
    split
    · next h =>
      rw [List.isEmpty_iff] at h
      rw [List.dropWhile_cons_of_neg (by simp [hx]), List.rdropWhile, h]
      rfl
    · rw [List.reverse_append, List.rdropWhile]
      rfl
  · have h := List.mem_rtakeWhile_imp hy
    exact h

/-- The keyword of an at-rule goes on to a blank or a parenthesis. -/
def inKeyword (c : Char) : Bool := !(isBlank c || c == '(')

theorem not_inKeyword_of_isBlank {c : Char} (h : isBlank c = true) : ¬ inKeyword c = true := by
  simp [inKeyword, h]

theorem takeWhile_inKeyword_append {right : List Char} (hr : ∀ c ∈ right, isBlank c = true)
    (cs : List Char) : (cs ++ right).takeWhile inKeyword = cs.takeWhile inKeyword := by
  induction cs with
  | nil =>
    cases right with
    | nil => rfl
    | cons c right =>
      exact List.takeWhile_cons_of_neg (not_inKeyword_of_isBlank (hr c List.mem_cons_self))
  | cons c cs ih => rw [List.cons_append, List.takeWhile_cons, List.takeWhile_cons, ih]

theorem collapse_dropWhile_inKeyword_append {right : List Char}
    (hr : ∀ c ∈ right, isBlank c = true) (cs : List Char) :
    collapse ((cs ++ right).dropWhile inKeyword) = collapse (cs.dropWhile inKeyword) := by
  induction cs with
  | nil =>
    cases right with
    | nil => rfl
    | cons c right =>
      rw [List.nil_append,
        List.dropWhile_cons_of_neg (not_inKeyword_of_isBlank (hr c List.mem_cons_self))]
      exact collapse_append_blank hr []
  | cons c cs ih =>
    rw [List.cons_append, List.dropWhile_cons, List.dropWhile_cons]
    split
    · exact ih
    · exact collapse_append_blank hr (c :: cs)

/-- The keyword of an at-rule ends before a blank, and what follows it is collapsed: blanks at
the end of a prelude do not matter. -/
theorem of?_append_blank {prelude right : List Char} (hne : prelude ≠ [])
    (hr : ∀ c ∈ right, isBlank c = true) : AtRule.of? (prelude ++ right) = AtRule.of? prelude := by
  have hhead : (prelude ++ right).head? = prelude.head? := by
    cases prelude with
    | nil => exact absurd rfl hne
    | cons c prelude => rfl
  have htake := takeWhile_inKeyword_append hr prelude
  have hdrop := collapse_dropWhile_inKeyword_append hr prelude
  unfold inKeyword at htake hdrop
  rw [AtRule.of?, AtRule.of?, hhead]
  simp only [htake, hdrop]

/-- The at-rule of a block, read off the text before it. -/
theorem of?_preludeOf {left : Gap} {c : Char} (hc : isBlank c = false) (cs : List Char) :
    AtRule.of? (chars (preludeOf (place (left.flatMap Filler.blanked ++ c :: cs)))) =
      AtRule.of? (c :: cs) := by
  obtain ⟨zs, right, hp, hcs, hr⟩ :=
    exists_preludeOf (x := ⟨c, .start, false⟩) (fun _ => isSpace_of_mem_gap) hc (place cs)
  have hchars : c :: cs = (c :: chars zs) ++ chars right := by
    have h := congrArg chars hcs
    rw [chars_place] at h
    rw [h, chars, chars, chars, List.map_append, List.cons_append]
  rw [place_append, place_cons, hp, hchars, of?_append_blank (by simp)]
  · rfl
  · intro d hd
    obtain ⟨y, hy, rfl⟩ := List.mem_map.1 hd
    exact hr y hy

theorem Phrase.exists_cons (p : Phrase) :
    ∃ c cs, p.chars = c :: cs ∧ isBlank c = false := by
  obtain ⟨c, cs, h⟩ := List.exists_cons_of_ne_nil p.ne_nil
  exact ⟨c, cs, h, isBlank_head_of_trim (h ▸ p.trimmed)⟩

/-- A rule is no at-rule. -/
theorem of?_writeSelectors (first : Spaced SelectorText) (others : List (Spaced SelectorText)) :
    AtRule.of? (chars (preludeOf (place (writeSelectors Filler.blanked first others)))) = none := by
  obtain ⟨c, cs, h, hc⟩ := first.token.toPhrase.exists_cons
  have hat : c ≠ '@' := by
    rintro rfl
    exact first.token.noAt (h ▸ List.mem_cons_self)
  rw [writeSelectors, Spaced.write, h, List.append_assoc, List.append_assoc, List.cons_append,
    of?_preludeOf hc, AtRule.of?, if_pos (by simpa using hat)]

/-- A gap that is not empty leaves a blank at least. -/
theorem exists_blanked_cons {g : Gap} (h : g ≠ []) :
    ∃ c cs, g.flatMap Filler.blanked = c :: cs ∧ isBlank c = true := by
  cases hg : g.flatMap Filler.blanked with
  | cons c cs => exact ⟨c, cs, rfl, isBlank_of_mem_blanked (g := g) (hg ▸ List.mem_cons_self)⟩
  | nil =>
    obtain ⟨f, g, rfl⟩ := List.exists_cons_of_ne_nil h
    rw [List.flatMap_cons, List.append_eq_nil_iff] at hg
    cases f with
    | blank c hc => simp [Filler.blanked] at hg
    | comment text h =>
      have hslash : Filler.spaces '/' = [' '] := by decide
      simp [Filler.blanked, Filler.written, hslash] at hg

/-- A blank ends the keyword of a media query. -/
theorem of?_media {c : Char} (hc : isBlank c = true) (cs : List Char) :
    AtRule.of? ("@media".toList ++ c :: cs) = some (.media (collapse (c :: cs))) := by
  have hin : ∀ d ∈ "@media".toList, inKeyword d = true := by simp [inKeyword, isBlank]
  have htake : ("@media".toList ++ c :: cs).takeWhile inKeyword = "@media".toList := by
    rw [List.takeWhile_append_of_pos hin,
      List.takeWhile_cons_of_neg (not_inKeyword_of_isBlank hc), List.append_nil]
  have hdrop : ("@media".toList ++ c :: cs).dropWhile inKeyword = c :: cs := by
    rw [List.dropWhile_append_of_pos hin,
      List.dropWhile_cons_of_neg (not_inKeyword_of_isBlank hc)]
  unfold inKeyword at htake hdrop
  rw [AtRule.of?, if_neg (by simp)]
  simp only [htake, hdrop]
  rfl

/-- A media query announces itself. -/
theorem of?_writeQuery (before : Gap) {query : Spaced QueryText} (apart : query.before ≠ []) :
    AtRule.of? (chars (preludeOf (place (writeQuery Filler.blanked before query)))) =
      some (.media query.token.chars) := by
  have hkeyword : "@media".toList = '@' :: "media".toList := rfl
  have hcollapse : collapse (query.write Filler.blanked fun t => t.chars) = query.token.chars := by
    rw [Spaced.write, collapse_append (fun _ h => isBlank_of_mem_blanked h)
      (fun _ h => isBlank_of_mem_blanked h),
      collapse_eq_self query.token.trimmed query.token.spaced]
  obtain ⟨c, cs, hgap, hc⟩ := exists_blanked_cons apart
  rw [Spaced.write, hgap, List.cons_append] at hcollapse
  rw [writeQuery, hkeyword, List.cons_append, of?_preludeOf (by decide), ← List.cons_append,
    ← hkeyword, Spaced.write, hgap, List.cons_append, of?_media hc, hcollapse]

/-! ### The nodes of a tree -/

/-- The gap at the end of a body is a statement if it is written at all. -/
def lastNodes (last : Gap) : List Node :=
  if last.flatMap Filler.blanked = [] then []
  else [.statement (place (last.flatMap Filler.blanked))]

mutual

/-- The node of an item. -/
def Item.node : Item → Node
  | .declaration name value => .statement (place (writeDeclaration Filler.blanked name value))
  | .rule first others body last =>
    .block (preludeOf (place (writeSelectors Filler.blanked first others)))
      (place (Item.writeAll Filler.blanked body last)) (Item.nodes body last)
  | .media before query _ body last =>
    .block (preludeOf (place (writeQuery Filler.blanked before query)))
      (place (Item.writeAll Filler.blanked body last)) (Item.nodes body last)

def Item.nodes : List Item → (last : Gap) → List Node
  | [], last => lastNodes last
  | i :: is, last => i.node :: Item.nodes is last

end

/-- A block between its braces leaves the count of braces as it is. -/
theorem braces_block {cs : List Char} (h : bracesAfter? 0 (place cs) = some 0) (depth : Nat) :
    bracesAfter? depth (place ('{' :: (cs ++ ['}']))) = some depth := by
  rw [place_cons, place_append]
  exact bracesAfter?_block rfl h rfl depth []

mutual

theorem braces_write (depth : Nat) : ∀ i : Item,
    bracesAfter? depth (place (i.write Filler.blanked)) = some depth
  | .declaration name value => by
    rw [Item.write, place_append, bracesAfter?_append, (Level.writeDeclaration name value).braces]
    rfl
  | .rule first others body last => by
    rw [Item.write, place_append, bracesAfter?_append, (Level.writeSelectors first others).braces]
    exact braces_block (braces_writeAll 0 body last) depth
  | .media before query _ body last => by
    rw [Item.write, place_append, bracesAfter?_append, (Level.writeQuery before query).braces]
    exact braces_block (braces_writeAll 0 body last) depth

/-- The braces of a written body are balanced. -/
theorem braces_writeAll (depth : Nat) : ∀ (is : List Item) (last : Gap),
    bracesAfter? depth (place (Item.writeAll Filler.blanked is last)) = some depth
  | [], last => by
    rw [Item.writeAll]
    exact (Level.gap last).braces depth
  | i :: is, last => by
    rw [Item.writeAll, place_append, bracesAfter?_append, braces_write depth i]
    exact braces_writeAll depth is last

end

/-- A block whose prelude lets its body be read. -/
theorem reads_block {before cs : List Char} (hb : Level before)
    (hh : holdsNodes (chars (preludeOf (place before))) = true)
    (hbal : bracesAfter? 0 (place cs) = some 0) {body rest : List Node} {xs : List Cell}
    (hbody : Reads (place cs) body) (hrest : Reads xs rest) :
    Reads (place (before ++ '{' :: (cs ++ ['}'])) ++ xs)
      (.block (preludeOf (place before)) (place cs) body :: rest) := by
  have h : Reads (place before ++ ⟨'{', .start, false⟩ :: (place cs ++ ⟨'}', .start, false⟩ :: xs))
      (.block (preludeOf (place before)) (place cs) body :: rest) :=
    .block (hb.parens 0) rfl hbal rfl hh hbody hrest
  simpa using h

mutual

theorem reads_write {xs : List Cell} {rest : List Node} (hrest : Reads xs rest) :
    ∀ i : Item, Reads (place (i.write Filler.blanked) ++ xs) (i.node :: rest)
  | .declaration name value => by
    rw [Item.write, Item.node, place_append, List.append_assoc]
    exact Reads.statement ((Level.writeDeclaration name value).parens 0) rfl hrest
  | .rule first others body last => by
    rw [Item.write, Item.node]
    refine reads_block (Level.writeSelectors first others) ?_ (braces_writeAll 0 body last)
      (reads_writeAll body last) hrest
    rw [holdsNodes, of?_writeSelectors]
  | .media before query apart body last => by
    rw [Item.write, Item.node]
    refine reads_block (Level.writeQuery before query) ?_ (braces_writeAll 0 body last)
      (reads_writeAll body last) hrest
    rw [holdsNodes, of?_writeQuery before apart]

/-- **A written body is read as the nodes of its items.** -/
theorem reads_writeAll : ∀ (is : List Item) (last : Gap),
    Reads (place (Item.writeAll Filler.blanked is last)) (Item.nodes is last)
  | [], last => by
    rw [Item.writeAll, Item.nodes, lastNodes]
    split
    · next h =>
      rw [h]
      exact .nil
    · next h => exact .last (by simpa [place] using h) ((Level.gap last).parens 0)
  | i :: is, last => by
    rw [Item.writeAll, Item.nodes, place_append]
    exact reads_write (reads_writeAll is last) i

end

end Draft
end SheetAudit
