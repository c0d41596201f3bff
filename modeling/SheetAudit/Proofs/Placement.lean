import Mathlib
import SheetAudit.Proofs.Places

/-!
# The parts of a style sheet in their places

The name of a declaration, the first word of a selector and the `@` of an at-rule are words of the
text without comments, and the place of a part is that of the first character of its word.

## Main definitions

* `Text.firstWord` — a text up to its first blank.
* `HeadBegins` — what stands where a rule is placed.
* `WellPlaced` — every part of a style sheet stands where its own text begins.

## Main results

* `readDeclaration?_infix` — a declaration is placed at its name.
* `heads_infix` — a rule is placed at a selector of its own list, or at its at-rule.
* `parse_wellPlaced` — **every part of a style sheet that was read is well placed.**
-/

namespace SheetAudit

open Source Text

/-! ### First words -/

namespace Text

/-- A text up to its first blank. -/
def firstWord (cs : List Char) : List Char := cs.takeWhile fun c => !isBlank c

theorem isBlank_of_mem_firstWord {c : Char} {cs : List Char} (h : c ∈ firstWord cs) :
    isBlank c = false := by
  have := List.mem_takeWhile_imp h
  simpa using this

theorem words_cons {c : Char} (hc : isBlank c = false) (cs : List Char) :
    ∃ ws, words (c :: cs) = firstWord (c :: cs) :: ws := by
  induction cs generalizing c with
  | nil => exact ⟨[], by rw [words_singleton hc, firstWord, List.takeWhile_cons, hc]; rfl⟩
  | cons d cs ih =>
    cases hd : isBlank d with
    | true =>
      refine ⟨words cs, ?_⟩
      rw [words_cons_of_blank hc hd, firstWord, List.takeWhile_cons, List.takeWhile_cons, hc, hd]
      rfl
    | false =>
      obtain ⟨w, ws, hw, hcw⟩ := words_cons_of_not_blank hc hd cs
      obtain ⟨vs, hv⟩ := ih hd
      rw [hw, List.cons.injEq] at hv
      refine ⟨ws, ?_⟩
      rw [hcw, hv.1, firstWord, firstWord, List.takeWhile_cons (a := c), hc]
      rfl

/-- Collapsing leaves the first word of a text as it is. -/
theorem firstWord_collapse {c : Char} (hc : isBlank c = false) (cs : List Char) :
    firstWord (collapse (c :: cs)) = firstWord (c :: cs) := by
  obtain ⟨ws, hws⟩ := words_cons hc cs
  have hall : ∀ d ∈ firstWord (c :: cs), (!isBlank d) = true := by
    intro d hd
    rw [isBlank_of_mem_firstWord hd]
    rfl
  rw [collapse, hws]
  cases ws with
  | nil =>
    rw [List.intercalate_singleton, firstWord, List.takeWhile_eq_self_iff.2 hall]
  | cons v vs =>
    rw [List.intercalate_cons_cons, List.append_assoc, firstWord, List.takeWhile_append_of_pos hall,
      List.singleton_append, List.takeWhile_cons_of_neg (by decide), List.append_nil]

theorem splitAt?_eq_some {c : Char} {text before after : List Char}
    (h : splitAt? [c] text = some (before, after)) : text = before ++ c :: after := by
  rw [splitAt?] at h
  induction text generalizing before with
  | nil => simp [splitBy?, List.isPrefixOf?] at h
  | cons d text ih =>
    rw [splitBy?] at h
    split at h
    · next rest hrest =>
      obtain ⟨rfl, rfl⟩ : [] = before ∧ rest = after := by simpa using h
      exact (List.isPrefixOf?_eq_some_iff_append_eq.1 hrest).symm
    · obtain ⟨⟨b, a⟩, hr, heq⟩ := Option.map_eq_some_iff.1 h
      simp only [Prod.mk.injEq] at heq
      obtain ⟨rfl, rfl⟩ := heq
      rw [ih hr, List.cons_append]

end Text

/-! ### Declarations -/

/-- A declaration is placed at its name, which is one word. -/
theorem readDeclaration?_infix {text : List Cell} {name value : List Char} {pos : Pos}
    (h : readDeclaration? text = some (name, value, pos)) :
    ∃ x word, x :: word <:+: text ∧ chars (x :: word) = name ∧ pos = x.pos ∧
      ∀ y ∈ x :: word, isBlank y.char = false := by
  unfold readDeclaration? at h
  dsimp only at h
  split at h
  · next x tail before after htrim hsplit =>
    split at h
    · simp at h
    · next hok =>
      simp only [Option.some.injEq, Prod.mk.injEq] at h
      obtain ⟨rfl, -, rfl⟩ := h
      simp only [Bool.or_eq_true, not_or, List.isEmpty_iff, Bool.not_eq_true,
        List.any_eq_false] at hok
      obtain ⟨⟨hne, hany⟩, -⟩ := hok
      -- the name is what the trimmed statement begins with
      obtain ⟨more, hmore⟩ : trimRight before <+: before := List.rdropWhile_prefix isBlank before
      have hsplit := splitAt?_eq_some hsplit
      rw [htrim, ← hmore, List.append_assoc] at hsplit
      obtain ⟨word, rest, hword, hname, -⟩ := List.map_eq_append_iff.1 hsplit
      cases word with
      | nil => exact absurd hname.symm hne
      | cons y word =>
        rw [List.cons_append, List.cons.injEq] at hword
        obtain ⟨rfl, rfl⟩ := hword
        refine ⟨x, word, ?_, hname, rfl, fun z hz => ?_⟩
        · have hpre : x :: word <+: x :: (word ++ rest) := ⟨rest, rfl⟩
          have hsuf : x :: (word ++ rest) <:+ text := htrim ▸ List.dropWhile_suffix _
          exact hpre.isInfix.trans hsuf.isInfix
        · have hin : z.char ∈ trimRight before := hname ▸ List.mem_map_of_mem hz
          simpa using hany _ hin
  · simp at h

namespace Node

/-- A custom property is placed at a character of its own statement. -/
theorem pos_of_ownVariables {p : Scope × Node} {v : Variable} (h : v ∈ ownVariables p) :
    v.pos ∈ places p := by
  obtain ⟨scope, n⟩ := p
  cases n with
  | statement text =>
    obtain ⟨⟨name, value, pos⟩, hread, hv⟩ := Option.bind_eq_some_iff.1 (Option.mem_toList.1 h)
    obtain ⟨x, word, hin, -, rfl, hblank⟩ := readDeclaration?_infix hread
    have hpos : v.pos = x.pos := by
      dsimp only at hv
      split at hv
      · rw [← Option.some.inj hv]
      · cases hv
    rw [hpos]
    exact mem_places hin (hblank x List.mem_cons_self)
  | block prelude content body => exact absurd h List.not_mem_nil

end Node

/-! ### Selectors and at-rules -/

/-- In front of a piece stand the pieces before it, each with its comma. -/
theorem exists_of_splitTop_eq {α : Type} {char : α → Char} {depth : Nat} {xs piece : List α}
    {ps qs : List (List α)} (h : Selector.splitTop char depth xs = ps ++ piece :: qs) :
    ∃ left right, xs = left ++ (piece ++ right) ∧
      left.map char = ps.flatMap fun p => p.map char ++ [','] := by
  induction xs generalizing depth ps piece with
  | nil =>
    cases ps with
    | nil =>
      obtain ⟨rfl, -⟩ := List.cons.inj h
      exact ⟨[], [], rfl, rfl⟩
    | cons p ps => exact absurd (List.cons.inj h).2 (by simp)
  | cons x xs ih =>
    by_cases hx : (char x == ',' && depth == 0) = true
    · rw [Selector.splitTop, if_pos hx] at h
      cases ps with
      | nil =>
        obtain ⟨rfl, -⟩ := List.cons.inj h
        exact ⟨[], x :: xs, rfl, rfl⟩
      | cons p ps =>
        obtain ⟨rfl, hrest⟩ := List.cons.inj h
        obtain ⟨left, right, rfl, hleft⟩ := ih hrest
        refine ⟨x :: left, right, rfl, ?_⟩
        rw [List.map_cons, hleft, eq_of_beq (Bool.and_eq_true_iff.1 hx).1]
        rfl
    · obtain ⟨q, qs', hq⟩ := List.exists_cons_of_ne_nil
        (Selector.splitTop_ne_nil char (Selector.deepen depth (char x)) xs)
      rw [Selector.splitTop_cons (by simpa using hx) hq] at h
      -- the character belongs to the first piece, which may be the one in question
      cases ps with
      | nil =>
        obtain ⟨rfl, rfl⟩ := List.cons.inj h
        obtain ⟨left, right, rfl, hleft⟩ := ih (hq.trans (List.nil_append _).symm)
        rw [List.flatMap_nil, List.map_eq_nil_iff] at hleft
        exact ⟨[], right, by rw [hleft]; rfl, rfl⟩
      | cons p ps =>
        obtain ⟨rfl, rfl⟩ := List.cons.inj h
        obtain ⟨left, right, rfl, hleft⟩ := ih (hq.trans (List.cons_append).symm)
        exact ⟨x :: left, right, rfl, by rw [List.map_cons, hleft]; rfl⟩

theorem infix_of_mem_splitTop {α : Type} {char : α → Char} {depth : Nat} {xs piece : List α}
    (h : piece ∈ Selector.splitTop char depth xs) : piece <:+: xs := by
  obtain ⟨ps, qs, hsplit⟩ := List.append_of_mem h
  obtain ⟨left, right, rfl, -⟩ := exists_of_splitTop_eq hsplit
  exact ⟨left, right, List.append_assoc _ _ _⟩

/-- The selector of a piece begins behind the blanks of the piece. -/
theorem Selector.selectorOf?_eq_some {α : Type} {char : α → Char} {piece : List α}
    {e : α × List Char} (h : selectorOf? char piece = some e) :
    ∃ blanks rest, piece = blanks ++ e.1 :: rest ∧ (∀ b ∈ blanks, isBlank (char b) = true) ∧
      isBlank (char e.1) = false ∧ e.2 = collapse (char e.1 :: rest.map char) := by
  rw [selectorOf?] at h
  cases hdrop : piece.dropWhile fun x => isBlank (char x) with
  | nil => rw [hdrop] at h; cases h
  | cons x xs =>
    rw [hdrop] at h
    obtain rfl := Option.some.inj h
    have hx : isBlank (char x) = false := by
      have hnot := List.head?_dropWhile_not (fun x => isBlank (char x)) piece
      simpa [hdrop] using hnot
    refine ⟨piece.takeWhile fun x => isBlank (char x), xs, ?_, fun b hb => ?_, hx, rfl⟩
    · rw [← hdrop, List.takeWhile_append_dropWhile]
    · exact List.mem_takeWhile_imp (p := fun x => isBlank (char x)) hb

/-- A selector is placed at its first word. -/
theorem entries_infix {prelude : List Cell} {e : Cell × List Char}
    (h : e ∈ Selector.entries Cell.char prelude) :
    ∃ x word, x :: word <:+: prelude ∧ chars (x :: word) = firstWord e.2 ∧ e.1 = x ∧
      ∀ y ∈ x :: word, isBlank y.char = false := by
  obtain ⟨piece, hp, he⟩ := List.mem_filterMap.1 h
  obtain ⟨blanks, tail, rfl, -, hx, htext⟩ := Selector.selectorOf?_eq_some he
  -- collapsing the piece leaves its first word as it is written
  have hfirst : chars ((e.1 :: tail).takeWhile fun y => !isBlank y.char) = firstWord e.2 := by
    rw [htext, firstWord_collapse hx, firstWord, ← List.map_cons (f := Cell.char),
      List.takeWhile_map]
    rfl
  have hpre : (e.1 :: tail).takeWhile (fun y => !isBlank y.char) <+: e.1 :: tail :=
    List.takeWhile_prefix _
  have hcons : (e.1 :: tail).takeWhile (fun y => !isBlank y.char) =
      e.1 :: tail.takeWhile fun y => !isBlank y.char :=
    List.takeWhile_cons_of_pos (by simp [hx])
  rw [hcons] at hfirst hpre
  refine ⟨e.1, _, (hpre.isInfix.trans (List.suffix_append blanks _).isInfix).trans
    (infix_of_mem_splitTop hp), hfirst, rfl, fun y hy => ?_⟩
  rw [← hcons] at hy
  have := List.mem_takeWhile_imp hy
  simpa using this

/-- An at-rule begins with its `@`. -/
theorem char_of_atRule {x : Cell} {xs : List Cell} {rule : AtRule}
    (h : AtRule.of? (chars (x :: xs)) = some rule) : x.char = '@' := by
  rw [AtRule.of?] at h
  split at h
  · simp at h
  · next hat => simpa [chars] using hat

theorem atRule_infix {x : Cell} {xs : List Cell} {rule : AtRule}
    (h : AtRule.of? (chars (x :: xs)) = some rule) :
    [x] <:+: x :: xs ∧ chars [x] = ['@'] ∧ ∀ y ∈ [x], isBlank y.char = false := by
  have hx := char_of_atRule h
  refine ⟨⟨[], xs, rfl⟩, by simp [chars, hx], fun y hy => ?_⟩
  rw [List.mem_singleton.1 hy, hx]
  decide

/-- The selectors of a list do not depend on what its characters carry. -/
theorem map_snd_entries {α : Type} (char : α → Char) (xs : List α) :
    (Selector.entries char xs).map Prod.snd = Selector.selectors (xs.map char) := by
  rw [Selector.selectors, Selector.entries_map, List.map_map]
  rfl

theorem map_entries (xs : List Cell) :
    (Selector.entries Cell.char xs).map Prod.snd = Selector.selectors (chars xs) :=
  map_snd_entries Cell.char xs

/-- The selectors of a rule are those of its prelude, put into the selectors around it. -/
theorem map_heads_of_none {scope : Scope} {prelude : List Cell}
    (h : AtRule.of? (chars prelude) = none) :
    (heads scope prelude).map Prod.snd =
      (Selector.selectors (chars prelude)).flatMap (Selector.resolve scope.selectors) := by
  rw [← map_entries, List.flatMap_map]
  unfold heads
  rw [h]
  dsimp only
  rw [List.map_flatMap]
  simp only [List.map_map, Function.comp_def, List.map_id']

/-- A block applies its declarations to the selectors that it hands down. -/
theorem map_heads (scope : Scope) (prelude : List Cell) :
    (heads scope prelude).map Prod.snd = (scope.inside prelude).selectors := by
  cases hrule : AtRule.of? (chars prelude) with
  | none =>
    rw [Scope.inside, hrule]
  | some rule =>
    cases prelude with
    | nil => cases hrule
    | cons x xs =>
      have hselectors : (heads scope (x :: xs)).map Prod.snd = scope.selectors := by
        unfold heads
        rw [hrule]
        dsimp only
        rw [List.map_map]
        exact List.map_id' _
      rw [hselectors, Scope.inside, hrule]
      cases rule <;> rfl

/-- What stands where a rule is placed: the first word of one of its own selectors, or the `@` of
the at-rule that goes on with the selectors around it. -/
def HeadBegins (scope : Scope) (prelude : List Cell) (selector rest : List Char) : Prop :=
  match AtRule.of? (chars prelude) with
  | some _ => selector ∈ scope.selectors ∧ Begins ['@'] rest
  | none => ∃ own ∈ Selector.selectors (chars prelude),
      selector ∈ Selector.resolve scope.selectors own ∧ Begins (firstWord own) rest

/-- A rule is placed at a selector of its own list, or at its at-rule. -/
theorem heads_infix {scope : Scope} {prelude : List Cell} {pos : Pos} {selector : List Char}
    (h : (pos, selector) ∈ heads scope prelude) :
    ∃ x word, x :: word <:+: prelude ∧ pos = x.pos ∧
      (∀ y ∈ x :: word, isBlank y.char = false) ∧
      ∀ rest, Begins (chars (x :: word)) rest → HeadBegins scope prelude selector rest := by
  unfold heads at h
  cases hrule : AtRule.of? (chars prelude) with
  | some rule =>
    rw [hrule] at h
    cases prelude with
    | nil => exact absurd h List.not_mem_nil
    | cons x xs =>
      obtain ⟨s, hs, heq⟩ := List.mem_map.1 h
      simp only [Prod.mk.injEq] at heq
      obtain ⟨rfl, rfl⟩ := heq
      obtain ⟨hin, hat, hblank⟩ := atRule_infix hrule
      refine ⟨x, [], hin, rfl, hblank, fun rest hrest => ?_⟩
      rw [HeadBegins, hrule]
      exact ⟨hs, hat ▸ hrest⟩
  | none =>
    rw [hrule] at h
    dsimp only at h
    obtain ⟨e, he, hmem⟩ := List.mem_flatMap.1 h
    obtain ⟨s, hs, heq⟩ := List.mem_map.1 hmem
    simp only [Prod.mk.injEq] at heq
    obtain ⟨rfl, rfl⟩ := heq
    obtain ⟨x, word, hin, hfirst, hx, hblank⟩ := entries_infix he
    refine ⟨x, word, hin, by rw [hx], hblank, fun rest hrest => ?_⟩
    rw [HeadBegins, hrule]
    exact ⟨e.2, map_entries prelude ▸ List.mem_map_of_mem he, hs, hfirst ▸ hrest⟩

/-! ### The whole style sheet -/

/-- Every part of a style sheet stands where its own text begins. -/
structure WellPlaced (source : String) (nodes : List Node) (s : Sheet) : Prop where
  /-- A custom property stands at its name. -/
  customProperties : ∀ v ∈ s.customProperties, ∃ rest,
    Stands source v.pos rest ∧ Begins v.name.toList rest
  /-- A declaration stands at its name as it is written, in letters of either case. -/
  declarations : ∀ r ∈ s.rules, ∀ d ∈ r.declarations, ∃ written rest,
    Stands source d.pos rest ∧ Begins written rest ∧ lowerAscii written = d.name.toList
  /-- A rule comes from a block of the tree, and stands at one of the selectors before the block
  or at the `@` before it. -/
  rules : ∀ r ∈ s.rules, ∃ scope prelude content body rest,
    (scope, .block prelude content body) ∈ Node.walkIn {} nodes ∧
      r ∈ ownRules scope prelude body ∧ Stands source r.pos rest ∧
      HeadBegins scope prelude r.selector.toList rest
  /-- A class stands where the rule that defines it stands. -/
  classes : ∀ c ∈ s.classes, ∃ r ∈ s.rules, c.pos = r.pos ∧ c.selector = r.selector ∧
    c.declarations = r.declarations
  mediaQueries : ∀ m ∈ s.mediaQueries, ∃ rest, Stands source m.pos rest ∧ Begins ['@'] rest
  keyframes : ∀ k ∈ s.keyframes, ∃ rest, Stands source k.pos rest ∧ Begins ['@'] rest

theorem mem_ownDeclarations {body : List Node} {d : Declaration} (h : d ∈ ownDeclarations body) :
    ∃ text, .statement text ∈ body ∧ ownDeclaration? text = some d := by
  obtain ⟨n, hn, hd⟩ := List.mem_filterMap.1 h
  cases n with
  | statement text => exact ⟨text, hn, hd⟩
  | block prelude content body => simp at hd

theorem mem_ownRules {scope : Scope} {prelude : List Cell} {body : List Node} {r : Rule}
    (h : r ∈ ownRules scope prelude body) :
    (r.pos, r.selector.toList) ∈ heads scope prelude ∧ r.declarations = ownDeclarations body := by
  simp only [ownRules] at h
  split at h
  · exact absurd h List.not_mem_nil
  · obtain ⟨⟨pos, selector⟩, hp, rfl⟩ := List.mem_map.1 h
    exact ⟨by simpa using hp, rfl⟩

/-- A declaration of a rule is a statement that the walk meets. -/
theorem mem_walkIn_of_declaration {nodes : List Node} {r : Rule} {d : Declaration}
    (hr : r ∈ Node.rulesIn {} nodes) (hd : d ∈ r.declarations) :
    ∃ scope text, (scope, .statement text) ∈ Node.walkIn {} nodes ∧
      ownDeclaration? text = some d := by
  rw [Node.rulesIn_eq] at hr
  obtain ⟨⟨scope, n⟩, hn, hr⟩ := List.mem_flatMap.1 hr
  cases n with
  | statement text => exact absurd hr List.not_mem_nil
  | block prelude content body =>
    rw [(mem_ownRules hr).2] at hd
    obtain ⟨text, ht, hdt⟩ := mem_ownDeclarations hd
    exact ⟨_, text, Node.mem_walkIn_body ht nodes hn, hdt⟩

theorem ownDeclaration?_eq_some {text : List Cell} {d : Declaration}
    (h : ownDeclaration? text = some d) :
    ∃ name value, readDeclaration? text = some (name, value, d.pos) ∧
      d.name.toList = lowerAscii name := by
  obtain ⟨⟨name, value, pos⟩, hread, hd⟩ := Option.bind_eq_some_iff.1 h
  dsimp only at hd
  split at hd
  · simp at hd
  · obtain rfl := Option.some.inj hd
    exact ⟨name, value, hread, by simp⟩

theorem readTree_eq_ok {source : List Char} {nodes : List Node}
    (h : readTree source = .ok nodes) :
    ∃ xs, strip (cells source) = .ok xs ∧ Reads (markStrings xs) nodes := by
  rw [readTree] at h
  split at h
  · simp at h
  · next xs hxs => exact ⟨xs, hxs, reads_of_readNodes h⟩

theorem parse_eq_ok {path source : String} {s : Sheet} (h : Sheet.parse path source = .ok s) :
    ∃ nodes, readTree source.toList = .ok nodes ∧ s = Sheet.ofNodes path nodes := by
  rw [Sheet.parse] at h
  split at h
  · simp at h
  · next nodes hnodes => exact ⟨nodes, hnodes, (Except.ok.inj h).symm⟩

/-- **Every part of a style sheet that was read is well placed.**  Its position is that of a
character of the source outside all comments, and there its own text begins. -/
theorem parse_wellPlaced {path source : String} {s : Sheet}
    (h : Sheet.parse path source = .ok s) :
    ∃ nodes, readTree source.toList = .ok nodes ∧ WellPlaced source nodes s := by
  obtain ⟨nodes, hnodes, rfl⟩ := parse_eq_ok h
  obtain ⟨xs, hxs, hreads⟩ := readTree_eq_ok hnodes
  refine ⟨nodes, hnodes, ?_⟩
  -- a word of a node that is met on the walk stands in the source
  have hstands : ∀ {scope : Scope} {n : Node}, (scope, n) ∈ Node.walkIn {} nodes →
      ∀ {x : Cell} {word : List Cell}, x :: word <:+: n.outer →
      (∀ y ∈ x :: word, isBlank y.char = false) →
      ∃ rest, Stands source x.pos rest ∧ Begins (chars (x :: word)) rest :=
    fun hn _ _ hin hblank => stands_of_infix hxs (hin.trans (hreads.outer_infix hn)) hblank
  have hat : ∀ {scope : Scope} {x : Cell} {prelude content : List Cell} {body : List Node}
      {rule : AtRule}, (scope, .block (x :: prelude) content body) ∈ Node.walkIn {} nodes →
      AtRule.of? (chars (x :: prelude)) = some rule →
      ∃ rest, Stands source x.pos rest ∧ Begins ['@'] rest := by
    intro scope x prelude content body rule hn hrule
    obtain ⟨hin, hchars, hblank⟩ := atRule_infix hrule
    exact hchars ▸ hstands hn hin hblank
  refine ⟨?_, ?_, ?_, ?_, ?_, ?_⟩
  · -- custom properties
    intro v hv
    rw [Sheet.ofNodes, Node.customPropertiesIn_eq {}] at hv
    obtain ⟨⟨scope, n⟩, hn, hv⟩ := List.mem_flatMap.1 hv
    cases n with
    | block prelude content body => exact absurd hv List.not_mem_nil
    | statement text =>
      rw [Node.ownVariables, Option.mem_toList] at hv
      obtain ⟨⟨name, value, pos⟩, hread, hv⟩ := Option.bind_eq_some_iff.1 hv
      dsimp only at hv
      split at hv
      · obtain rfl := Option.some.inj hv
        obtain ⟨x, word, hin, hname, rfl, hblank⟩ := readDeclaration?_infix hread
        rw [String.toList_ofList, ← hname]
        exact hstands hn hin hblank
      · simp at hv
  · -- declarations
    intro r hr d hd
    obtain ⟨scope, text, hn, hdt⟩ := mem_walkIn_of_declaration hr hd
    obtain ⟨name, value, hread, hlower⟩ := ownDeclaration?_eq_some hdt
    obtain ⟨x, word, hin, rfl, hpos, hblank⟩ := readDeclaration?_infix hread
    obtain ⟨rest, hrest, hbegins⟩ := hstands hn hin hblank
    exact ⟨_, rest, hpos ▸ hrest, hbegins, hlower.symm⟩
  · -- rules
    intro r hr
    rw [Sheet.ofNodes, Node.rulesIn_eq] at hr
    obtain ⟨⟨scope, n⟩, hn, hr⟩ := List.mem_flatMap.1 hr
    cases n with
    | statement text => exact absurd hr List.not_mem_nil
    | block prelude content body =>
      obtain ⟨x, word, hin, hpos, hblank, hhead⟩ := heads_infix (mem_ownRules hr).1
      obtain ⟨rest, hrest, hbegins⟩ := hstands hn hin hblank
      exact ⟨scope, prelude, content, body, rest, hn, hr, hpos ▸ hrest, hhead rest hbegins⟩
  · -- classes
    intro c hc
    obtain ⟨r, hr, hc⟩ := List.mem_filterMap.1 hc
    obtain ⟨name, -, rfl⟩ := Option.map_eq_some_iff.1 hc
    exact ⟨r, hr, rfl, rfl, rfl⟩
  · -- media queries
    intro m hm
    rw [Sheet.ofNodes, Node.mediaQueriesIn_eq {}] at hm
    obtain ⟨⟨scope, n⟩, hn, hm⟩ := List.mem_flatMap.1 hm
    cases n with
    | statement text => exact absurd hm List.not_mem_nil
    | block prelude content body =>
      rw [Node.ownQueries.eq_def] at hm
      dsimp only at hm
      split at hm
      · next hrule =>
        obtain rfl := List.mem_singleton.1 hm
        exact hat hn hrule
      · exact absurd hm List.not_mem_nil
  · -- keyframes
    intro k hk
    rw [Sheet.ofNodes, Node.keyframesIn_eq {}] at hk
    obtain ⟨⟨scope, n⟩, hn, hk⟩ := List.mem_flatMap.1 hk
    cases n with
    | statement text => exact absurd hk List.not_mem_nil
    | block prelude content body =>
      rw [Node.ownKeyframes.eq_def] at hk
      dsimp only at hk
      split at hk
      · next hrule =>
        obtain rfl := List.mem_singleton.1 hk
        exact hat hn hrule
      · exact absurd hk List.not_mem_nil

/-- A rule with a media query in it, after a comment. -/
theorem wellPlaced_nested : ∃ s, Sheet.parse "a.css" "/**/a\x7b@media b\x7bC:d\x7d\x7d" = .ok s ∧
    s.rules.length = 1 ∧ s.mediaQueries.length = 1 ∧
      ∃ nodes, readTree "/**/a\x7b@media b\x7bC:d\x7d\x7d".toList = .ok nodes ∧
        WellPlaced "/**/a\x7b@media b\x7bC:d\x7d\x7d" nodes s := by
  have hlength : (Sheet.parse "a.css" "/**/a\x7b@media b\x7bC:d\x7d\x7d").toOption.map
      (fun s => (s.rules.length, s.mediaQueries.length)) = some (1, 1) := by
    cbv
  cases hs : Sheet.parse "a.css" "/**/a\x7b@media b\x7bC:d\x7d\x7d" with
  | error e =>
    rw [hs] at hlength
    simp [Except.toOption] at hlength
  | ok s =>
    rw [hs] at hlength
    obtain ⟨hr, hm⟩ := Prod.mk.inj (Option.some.inj hlength)
    exact ⟨s, rfl, hr, hm, parse_wellPlaced hs⟩

end SheetAudit
