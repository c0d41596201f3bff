import Mathlib
import SheetAudit.Proofs.Contents
import SheetAudit.Proofs.Structure

/-!
# Reading a written style sheet

The parts that are gathered from a written style sheet are those of the tree it was written from,
whatever blanks and comments stand between its tokens.

## Main results

* `Surroundings.toScope_inMedia`, `Surroundings.describe_toScope` — the scope that a reader keeps
  and words.
* `class?_eq` — the class of a rule.
* `heads_writeSelectors`, `inside_writeSelectors` — the selectors of a written rule.
* `readDeclaration?_writeDeclaration` — the name and the value of a written declaration.
* `customPropertiesIn_nodes`, `rulesIn_nodes`, `mediaQueriesIn_nodes` — the parts of a written body.
* `Draft.parse_text` — **reading what was written from a tree finds what the tree holds.**
-/

namespace SheetAudit

open Source Text

namespace Draft

/-! ### Scopes and classes -/

theorem intercalate_concat {separator last : List Char} {parts : List (List Char)}
    (h : parts ≠ []) : separator.intercalate (parts ++ [last]) =
      separator.intercalate parts ++ separator ++ last := by
  induction parts with
  | nil => exact absurd rfl h
  | cons part parts ih =>
    cases parts with
    | nil => simp [List.intercalate]
    | cons next parts =>
      rw [List.cons_append, List.cons_append, List.intercalate_cons_cons, ← List.cons_append,
        ih (List.cons_ne_nil _ _), List.intercalate_cons_cons]
      simp only [List.append_assoc]

namespace Surroundings

/-- What a reader keeps of the surroundings. -/
def toScope (around : Surroundings) : Scope := ⟨around.media, around.selectors⟩

/-- The media queries are joined one by one. -/
theorem media_inMedia (around : Surroundings) (query : List Char) :
    (around.inMedia query).media = some (match around.media with
      | some outer => outer ++ " and ".toList ++ query
      | none => query) := by
  have hne : around.queries ++ [query] ≠ [] := by simp
  show (if around.queries ++ [query] = [] then none
    else some (" and ".toList.intercalate (around.queries ++ [query]))) = _
  rw [if_neg hne, media]
  by_cases hnone : around.queries = []
  · rw [if_pos hnone, hnone]
    simp [List.intercalate]
  · rw [if_neg hnone, intercalate_concat hnone]

/-- A reader of a media query inside others asks for all of them. -/
theorem toScope_inMedia (around : Surroundings) (query : List Char) :
    (around.inMedia query).toScope = around.toScope.addMedia query := by
  unfold toScope Scope.addMedia
  rw [media_inMedia]
  rfl

/-- A reader words its scope as it is. -/
theorem describe_toScope (around : Surroundings) : around.toScope.describe = around.scope := by
  unfold Scope.describe scope toScope media
  by_cases hnone : around.queries = []
  · rw [if_pos hnone, if_pos hnone]
    rfl
  · rw [if_neg hnone, if_neg hnone]
    simp

/-- Two media queries and two selectors in words. -/
example :
    scope ⟨["print".toList, "(color)".toList], [".a".toList, ".b".toList]⟩ =
      "@media print and (color) .a, .b".toList := by
  decide

end Surroundings

/-- The class of a rule whose selector has no blanks at its ends. -/
theorem class?_eq {r : Rule} (h : trim r.selector.toList = r.selector.toList) :
    r.class? = classOf? r := by
  unfold Rule.class? classOf?
  rw [Selector.subjectClass_eq]
  simp only [ClassKind.infer_eq h]

/-! ### Written selectors -/

/-- Brackets that are nested take the depth back to where it was. -/
theorem foldl_deepen_of_nested {awaited cs : List Char} (h : nested awaited cs = true) :
    cs.foldl Selector.deepen awaited.length = 0 := by
  induction cs generalizing awaited with
  | nil =>
    obtain rfl : awaited = [] := by simpa [nested] using h
    rfl
  | cons c cs ih =>
    rw [nested.eq_def] at h
    dsimp only at h
    rw [List.foldl_cons]
    split at h
    · next ho =>
      obtain rfl := eq_of_beq ho
      exact ih h
    split at h
    · next ho hb =>
      obtain rfl := eq_of_beq hb
      exact ih h
    split at h
    · next ho hb hc =>
      cases awaited with
      | nil => simp at h
      | cons d rest =>
        rw [Bool.and_eq_true] at h
        have hdeep : Selector.deepen (d :: rest).length c = rest.length := by
          rw [Selector.deepen, if_neg (by simp [Selector.opens, ho, hb]),
            if_pos (show Selector.closes c = true from hc)]
          rfl
        rw [hdeep]
        exact ih h.2
    · next ho hb hc =>
      have hdeep : Selector.deepen awaited.length c = awaited.length := by
        rw [Selector.deepen, if_neg (by simp [Selector.opens, ho, hb]),
          if_neg (show ¬ Selector.closes c = true from hc)]
      rw [hdeep]
      exact ih h

/-- A text without a comma outside its brackets goes to one piece as a whole. -/
theorem splitTop_place_append {depth : Nat} {cs : List Char} (h : hasTopComma depth cs = false)
    {xs piece : List Cell} {pieces : List (List Cell)}
    (hs : Selector.splitTop Cell.char (cs.foldl Selector.deepen depth) xs = piece :: pieces) :
    Selector.splitTop Cell.char depth (place cs ++ xs) = (place cs ++ piece) :: pieces := by
  induction cs generalizing depth with
  | nil => exact hs
  | cons c cs ih =>
    rw [hasTopComma, Bool.or_eq_false_iff] at h
    have hrest : hasTopComma (Selector.deepen depth c) cs = false := h.2
    have ih := ih hrest hs
    rw [place_cons, List.cons_append]
    exact Selector.splitTop_cons h.1 ih

theorem splitTop_spaced (s : Spaced SelectorText) {xs piece : List Cell}
    {pieces : List (List Cell)} (h : Selector.splitTop Cell.char 0 xs = piece :: pieces) :
    Selector.splitTop Cell.char 0 (place (s.write Filler.blanked fun t => t.chars) ++ xs) =
      (place (s.write Filler.blanked fun t => t.chars) ++ piece) :: pieces := by
  have hgap (g : Gap) : ∀ x ∈ place (g.flatMap Filler.blanked), isBlank x.char = true :=
    fun _ => isBlank_of_mem_gap
  have hdepth := foldl_deepen_of_nested s.token.nested
  rw [Spaced.write, place_append, place_append]
  simp only [List.append_assoc]
  refine Selector.splitTop_blank_append (hgap s.before) (splitTop_place_append s.token.single ?_)
  rw [← List.length_nil (α := Char), hdepth]
  exact Selector.splitTop_blank_append (hgap s.after) h

/-- The pieces of a written list are the written selectors. -/
theorem splitTop_writeSelectors (first : Spaced SelectorText)
    (others : List (Spaced SelectorText)) :
    Selector.splitTop Cell.char 0 (place (writeSelectors Filler.blanked first others)) =
      (first :: others).map fun s => place (s.write Filler.blanked fun t => t.chars) := by
  have hothers : Selector.splitTop Cell.char 0 (place (writeOthers Filler.blanked others)) =
      [] :: others.map fun s => place (s.write Filler.blanked fun t => t.chars) := by
    induction others with
    | nil => rfl
    | cons s others ih =>
      have h := splitTop_spaced s ih
      rw [List.append_nil] at h
      rw [writeOthers, List.flatMap_cons, List.cons_append, place_cons, place_append,
        Selector.splitTop, if_pos (by simp), ← writeOthers, h]
      rfl
  have h := splitTop_spaced first hothers
  rw [List.append_nil] at h
  rw [writeSelectors, place_append, h]
  rfl

/-- A written selector is read as it is. -/
theorem selectorOf?_spaced (s : Spaced SelectorText) :
    ∃ x : Cell, x.pos = .start ∧
      Selector.selectorOf? Cell.char (place (s.write Filler.blanked fun t => t.chars)) =
        some (x, s.token.chars) := by
  obtain ⟨c, cs, h, hc⟩ := s.token.toPhrase.exists_cons
  have hgap (g : Gap) : ∀ x ∈ place (g.flatMap Filler.blanked), isBlank x.char = true :=
    fun _ => isBlank_of_mem_gap
  have hcollapse := collapse_eq_self s.token.trimmed s.token.spaced
  refine ⟨⟨c, .start, false⟩, rfl, ?_⟩
  rw [Spaced.write, place_append, place_append, Selector.selectorOf?_blank_append (hgap _),
    Selector.selectorOf?_append_blank (hgap _), h, place_cons, Selector.selectorOf?,
    List.dropWhile_cons_of_neg (by simp [hc])]
  dsimp only
  rw [← chars, chars_place, ← h, hcollapse]

/-- A nested selector without `&` stands below each of its parents. -/
theorem resolve_eq_descend (outer : List (List Char)) (s : SelectorText) :
    Selector.resolve outer s.chars =
      if outer.isEmpty then [s.chars] else outer.map fun parent => parent ++ ' ' :: s.chars := by
  have h : s.chars.contains '&' = false := by simpa using s.noParent
  rw [Selector.resolve]
  simp only [h, Bool.false_eq_true, if_false]

/-- The selectors of a written rule. -/
theorem heads_writeSelectors (around : Surroundings) (first : Spaced SelectorText)
    (others : List (Spaced SelectorText)) :
    heads around.toScope (preludeOf (place (writeSelectors Filler.blanked first others))) =
      (around.inRule first others).selectors.map fun s => (.start, s) := by
  unfold heads
  rw [of?_writeSelectors]
  dsimp only
  rw [Selector.entries_preludeOf, Selector.entries, splitTop_writeSelectors, Surroundings.inRule,
    Surroundings.toScope, descend]
  induction first :: others with
  | nil => rfl
  | cons s list ih =>
    obtain ⟨x, hx, hs⟩ := selectorOf?_spaced s
    rw [List.map_cons, List.map_cons, List.filterMap_cons, hs, List.flatMap_cons,
      List.flatMap_cons, ih, List.map_append, resolve_eq_descend, hx]

/-- The scope of the body of a written rule. -/
theorem inside_writeSelectors (around : Surroundings) (first : Spaced SelectorText)
    (others : List (Spaced SelectorText)) :
    around.toScope.inside (preludeOf (place (writeSelectors Filler.blanked first others))) =
      (around.inRule first others).toScope := by
  have hselectors : ((around.inRule first others).selectors.map fun s => (Pos.start, s)).map
      Prod.snd = (around.inRule first others).selectors := by
    rw [List.map_map]
    exact List.map_id _
  rw [Scope.inside, of?_writeSelectors, heads_writeSelectors]
  dsimp only
  rw [hselectors]
  rfl

/-! ### Written media queries -/

theorem preludeOf_writeQuery (before : Gap) (query : Spaced QueryText) :
    ∃ xs, preludeOf (place (writeQuery Filler.blanked before query)) =
      ⟨'@', .start, false⟩ :: xs := by
  have hkeyword : "@media".toList = '@' :: "media".toList := rfl
  obtain ⟨zs, -, h, -⟩ := exists_preludeOf (x := ⟨'@', .start, false⟩)
    (fun _ => isSpace_of_mem_gap (g := before)) (by decide)
    (place ("media".toList ++ query.write Filler.blanked fun t => t.chars))
  refine ⟨zs, ?_⟩
  rw [writeQuery, hkeyword, List.cons_append, place_append, place_cons, h]

/-- Inside a rule a media query goes on with the selectors of the rule. -/
theorem heads_writeQuery (around : Surroundings) (before : Gap) {query : Spaced QueryText}
    (apart : query.before ≠ []) :
    heads around.toScope (preludeOf (place (writeQuery Filler.blanked before query))) =
      (around.inMedia query.token.chars).selectors.map fun s => (.start, s) := by
  obtain ⟨xs, h⟩ := preludeOf_writeQuery before query
  unfold heads
  rw [of?_writeQuery before apart, h]
  rfl

theorem inside_writeQuery (around : Surroundings) (before : Gap) {query : Spaced QueryText}
    (apart : query.before ≠ []) :
    around.toScope.inside (preludeOf (place (writeQuery Filler.blanked before query))) =
      (around.inMedia query.token.chars).toScope := by
  rw [Scope.inside, of?_writeQuery before apart, Surroundings.toScope_inMedia]

/-! ### Written declarations -/

theorem isPrefixOf?_singleton (c d : Char) (cs : List Char) :
    [c].isPrefixOf? (d :: cs) = if c == d then some cs else none := rfl

theorem splitAt?_append {c : Char} {before : List Char} (h : c ∉ before) (after : List Char) :
    splitAt? [c] (before ++ c :: after) = some (before, after) := by
  rw [splitAt?]
  induction before with
  | nil => rw [List.nil_append, splitBy?, isPrefixOf?_singleton, if_pos (beq_self_eq_true c)]
  | cons d before ih =>
    obtain ⟨hd, hrest⟩ := not_or.1 (mt List.mem_cons.2 h)
    have hne : (c == d) = false := beq_false_of_ne hd
    rw [List.cons_append, splitBy?, isPrefixOf?_singleton, hne, if_neg Bool.false_ne_true, ih hrest]
    rfl

theorem Name.isBlank_eq_false {n : Name} {c : Char} (h : c ∈ n.chars) : isBlank c = false := by
  rcases n.plain c h with h | rfl | rfl
  · exact isBlank_of_isAlphanumeric h
  · decide
  · decide

theorem Name.ne_nil (n : Name) : n.chars ≠ [] := by
  cases n with
  | property n =>
    obtain ⟨c, cs, h, -⟩ := n.initial
    simp [Name.chars, h]
  | «variable» n => simp [Name.chars, VariableName.chars]

/-- A written declaration is read as its name and its value. -/
theorem readDeclaration?_writeDeclaration (name : Spaced Name) (value : Spaced Phrase) :
    readDeclaration? (place (writeDeclaration Filler.blanked name value)) =
      some (name.token.chars, value.token.chars, .start) := by
  have hspace (g : Gap) : ∀ c ∈ g.flatMap Filler.blanked, isBlank c = true :=
    fun _ hc => isBlank_of_mem_blanked hc
  obtain ⟨c, cs, hn⟩ := List.exists_cons_of_ne_nil name.token.ne_nil
  have hc : isBlank c = false := Name.isBlank_eq_false (hn ▸ List.mem_cons_self)
  let after := value.write Filler.blanked Phrase.chars
  -- blanks before the name go
  have htrim : (place (writeDeclaration Filler.blanked name value)).dropWhile
      (fun x => isBlank x.char) =
      place (name.token.chars ++ name.after.flatMap Filler.blanked ++ ':' :: after) := by
    rw [writeDeclaration, Spaced.write, List.append_assoc, place_append,
      List.dropWhile_append_of_pos (fun _ => isBlank_of_mem_gap), hn,
      List.cons_append, List.cons_append, place_cons, List.dropWhile_cons_of_neg (by simp [hc])]
  have hcolon : ':' ∉ name.token.chars ++ name.after.flatMap Filler.blanked := by
    intro hin
    rcases List.mem_append.1 hin with hin | hin
    · exact ne_of_isNameChar (Name.plain _ _ hin) (by decide) (by decide) (by decide) rfl
    · exact ne_of_isSpace (isSpace_of_mem_blanked hin) (by decide) rfl
  have hname : trimRight (name.token.chars ++ name.after.flatMap Filler.blanked) =
      name.token.chars := by
    rw [trimRight_append (hspace _), trimRight, List.dropWhile_eq_self_iff.2, List.reverse_reverse]
    intro hl
    have hm := List.mem_reverse.1 (List.getElem_mem hl)
    rw [Name.isBlank_eq_false hm]
    simp
  have hvalue : trim after = value.token.chars :=
    trim_append (hspace _) (hspace _) value.token.trimmed
  have hany : name.token.chars.any isBlank = false := by
    rw [List.any_eq_false]
    intro d hd
    rw [Name.isBlank_eq_false hd]
    simp
  unfold readDeclaration?
  rw [htrim]
  dsimp only
  rw [chars_place, splitAt?_append hcolon, hn, List.cons_append, List.cons_append, place_cons]
  dsimp only
  rw [← List.cons_append, ← hn, hname, hvalue, hany]
  simp [name.token.ne_nil, value.token.ne_nil]

theorem readDeclaration?_gap (g : Gap) :
    readDeclaration? (place (g.flatMap Filler.blanked)) = none := by
  have h : (place (g.flatMap Filler.blanked)).dropWhile (fun x => isBlank x.char) = [] :=
    List.dropWhile_eq_nil_iff.2 fun _ => isBlank_of_mem_gap
  rw [readDeclaration?, h]

theorem isVariableName_variable (n : VariableName) : isVariableName n.chars = true := rfl

theorem isVariableName_property (n : PropertyName) : isVariableName n.chars = false := by
  obtain ⟨c, cs, h, hc⟩ := n.initial
  have hne : ('-' == c) = false := by
    refine beq_false_of_ne ?_
    rintro rfl
    exact absurd hc (by decide)
  have hhead : isVariableName n.chars = ('-' == c && ['-'].isPrefixOf cs) := by rw [h]; rfl
  rw [hhead, hne, Bool.false_and]

/-- A name in small letters stays as it is. -/
theorem lowerAscii_property (n : PropertyName) : lowerAscii n.chars = n.chars := by
  rw [lowerAscii, List.map_congr_left (g := id), List.map_id]
  intro c hc
  rw [Char.toLower_eq_of_not_isUpper (by simp [n.small c hc]), id]

/-! ### Written bodies -/

theorem ownDeclarations_nodes (is : List Item) (last : Gap) :
    ownDeclarations (Item.nodes is last) = ordinary is := by
  induction is with
  | nil =>
    rw [Item.nodes, lastNodes]
    split
    · rfl
    · simp [ownDeclarations, ownDeclaration?, readDeclaration?_gap, ordinary]
  | cons i is ih =>
    rw [ownDeclarations, ordinary] at ih
    rw [Item.nodes, ownDeclarations, ordinary, List.filterMap_cons, List.filterMap_cons, ih]
    cases i with
    | rule first others body last => rfl
    | media before query apart body last => rfl
    | declaration name value =>
      obtain ⟨before, name, after⟩ := name
      rw [Item.node]
      dsimp only
      rw [ownDeclaration?, readDeclaration?_writeDeclaration, Option.bind_some]
      dsimp only
      cases name with
      | property n =>
        rw [Name.chars, if_neg (by simp [isVariableName_property]), lowerAscii_property]
      | «variable» n => rw [Name.chars, if_pos (isVariableName_variable n)]

theorem ownRules_nodes {scope : Scope} {inner : Surroundings} {prelude : List Cell}
    {body : List Item} {last : Gap}
    (hh : heads scope prelude = inner.selectors.map fun s => (.start, s))
    (hi : scope.inside prelude = inner.toScope) :
    ownRules scope prelude (Item.nodes body last) = rulesOf inner body := by
  rw [ownRules, rulesOf, ownDeclarations_nodes, hh, hi]
  simp only [List.map_map, Function.comp_def, Surroundings.toScope]

theorem selectors_inRule (around : Surroundings) (first : Spaced SelectorText)
    (others : List (Spaced SelectorText)) : (around.inRule first others).selectors ≠ [] := by
  rw [Surroundings.inRule, descend, List.map_cons, List.flatMap_cons]
  split
  · simp
  · next h => simpa using fun h' => absurd h' (by simpa using h)

mutual

theorem rules_node (around : Surroundings) : ∀ i : Item,
    i.node.rules around.toScope = i.rules around
  | .declaration name value => by rw [Item.node, Node.rules, Item.rules]
  | .rule first others body last => by
    rw [Item.node, Node.rules, Item.rules, inside_writeSelectors,
      ownRules_nodes (heads_writeSelectors around first others)
        (inside_writeSelectors around first others), rulesIn_nodes _ body last]
  | .media before query apart body last => by
    rw [Item.node, Node.rules, Item.rules, inside_writeQuery around before apart,
      ownRules_nodes (heads_writeQuery around before apart)
        (inside_writeQuery around before apart), rulesIn_nodes _ body last]

/-- The rules of a written body are those of its items. -/
theorem rulesIn_nodes (around : Surroundings) : ∀ (is : List Item) (last : Gap),
    Node.rulesIn around.toScope (Item.nodes is last) = Item.rulesIn around is
  | [], last => by
    rw [Item.nodes, Item.rulesIn, lastNodes]
    split <;> rfl
  | i :: is, last => by
    rw [Item.nodes, Node.rulesIn, Item.rulesIn, rules_node around i, rulesIn_nodes around is last]

end

mutual

theorem customProperties_node {around : Surroundings} {inRule : Bool}
    (hs : inRule = true → around.selectors ≠ []) : ∀ i : Item, i.placed inRule = true →
    i.node.customProperties around.toScope = i.variables around
  | .declaration ⟨before, name, after⟩ value, hp => by
    -- the declaration stands in a rule, so it has a selector to apply to
    have hne : around.toScope.selectors.isEmpty = false := by
      rw [Item.placed] at hp
      exact List.isEmpty_eq_false_iff.2 (hs hp)
    rw [Item.node, Node.customProperties, readVariable?, readDeclaration?_writeDeclaration,
      Option.bind_some]
    dsimp only
    cases name with
    | property n =>
      rw [Name.chars, if_neg (by simp [isVariableName_property])]
      rfl
    | «variable» n =>
      rw [Name.chars, if_pos (by simp [isVariableName_variable, hne]), Purpose.infer_eq,
        Surroundings.describe_toScope]
      rfl
  | .rule first others body last, hp => by
    rw [Item.placed] at hp
    rw [Item.node, Node.customProperties, Item.variables, inside_writeSelectors,
      customPropertiesIn_nodes (fun _ => selectors_inRule around first others) body last hp]
  | .media before query apart body last, hp => by
    rw [Item.placed] at hp
    have hs : inRule = true → (around.inMedia query.token.chars).selectors ≠ [] := hs
    rw [Item.node, Node.customProperties, Item.variables, inside_writeQuery around before apart,
      customPropertiesIn_nodes hs body last hp]

/-- The custom properties of a written body are those of its items. -/
theorem customPropertiesIn_nodes {around : Surroundings} {inRule : Bool}
    (hs : inRule = true → around.selectors ≠ []) : ∀ (is : List Item) (last : Gap),
    Item.placedAll inRule is = true →
    Node.customPropertiesIn around.toScope (Item.nodes is last) = Item.variablesIn around is
  | [], last, _ => by
    rw [Item.nodes, Item.variablesIn, lastNodes]
    split
    · rfl
    · rw [Node.customPropertiesIn, Node.customProperties, readVariable?, readDeclaration?_gap]
      rfl
  | i :: is, last, hp => by
    rw [Item.placedAll, Bool.and_eq_true] at hp
    rw [Item.nodes, Node.customPropertiesIn, Item.variablesIn, customProperties_node hs i hp.1,
      customPropertiesIn_nodes hs is last hp.2]

end

mutual

theorem mediaQueries_node : ∀ i : Item, i.node.mediaQueries = i.queries
  | .declaration name value => by rw [Item.node, Node.mediaQueries, Item.queries]
  | .rule first others body last => by
    rw [Item.node, Node.mediaQueries.eq_def, Item.queries]
    dsimp only
    rw [of?_writeSelectors, mediaQueriesIn_nodes body last]
    rfl
  | .media before query apart body last => by
    obtain ⟨xs, hp⟩ := preludeOf_writeQuery before query
    rw [Item.node, Node.mediaQueries.eq_def, Item.queries]
    dsimp only
    rw [of?_writeQuery before apart, hp, mediaQueriesIn_nodes body last, chars_place]
    rfl

/-- The media queries of a written body are those of its items. -/
theorem mediaQueriesIn_nodes : ∀ (is : List Item) (last : Gap),
    Node.mediaQueriesIn (Item.nodes is last) = Item.queriesIn is
  | [], last => by
    rw [Item.nodes, Item.queriesIn, lastNodes]
    split <;> rfl
  | i :: is, last => by
    rw [Item.nodes, Node.mediaQueriesIn, Item.queriesIn, mediaQueries_node i,
      mediaQueriesIn_nodes is last]

end

mutual

theorem keyframes_node : ∀ i : Item, i.node.keyframes = []
  | .declaration name value => by rw [Item.node, Node.keyframes]
  | .rule first others body last => by
    rw [Item.node, Node.keyframes.eq_def]
    dsimp only
    rw [of?_writeSelectors, keyframesIn_nodes body last]
    rfl
  | .media before query apart body last => by
    rw [Item.node, Node.keyframes.eq_def]
    dsimp only
    rw [of?_writeQuery before apart, keyframesIn_nodes body last]
    rfl

theorem keyframesIn_nodes : ∀ (is : List Item) (last : Gap),
    Node.keyframesIn (Item.nodes is last) = []
  | [], last => by
    rw [Item.nodes, lastNodes]
    split <;> rfl
  | i :: is, last => by
    rw [Item.nodes, Node.keyframesIn, keyframes_node i, keyframesIn_nodes is last]
    rfl

end

/-! ### The whole text -/

/-- The classes of a tree are those of its rules. -/
theorem filterMap_class? (items : List Item) :
    (Item.rulesIn {} items).filterMap Rule.class? = (Item.rulesIn {} items).filterMap classOf? := by
  have hnone : ∀ s ∈ ({} : Surroundings).selectors, Trimmed s := List.forall_mem_nil _
  refine List.filterMap_congr fun r hr => ?_
  exact class?_eq (trimmed_of_mem_rulesIn hnone items r hr).2

theorem ofCells_place (path : String) (d : Draft) :
    Sheet.ofCells path (place (Item.writeAll Filler.written d.items d.last)) =
      .ok (d.sheet path) := by
  have hstrips := strips_writeAll d.items d.last
  have hs : false = true → ({} : Surroundings).selectors ≠ [] := nofun
  have hvars := customPropertiesIn_nodes hs d.items d.last d.placed
  have hrules := rulesIn_nodes {} d.items d.last
  have hnone : ({} : Surroundings).toScope = {} := rfl
  rw [hnone] at hvars hrules
  rw [Sheet.ofCells, hstrips.strip]
  dsimp only
  rw [markStrings_place hstrips.unquoted, readNodes_of_reads (reads_writeAll d.items d.last)]
  simp only [Except.map, Sheet.ofNodes, hvars, hrules, filterMap_class?, mediaQueriesIn_nodes,
    keyframesIn_nodes, Draft.sheet]

/-- **Reading what was written from a tree finds what the tree holds.**  The reader accepts the
text, whatever blanks and comments were put between its tokens, and every part of the style sheet
is the one the tree has in its place; only the positions depend on the writing. -/
theorem parse_text (path : String) (d : Draft) :
    ∃ s, Sheet.parse path d.text = .ok s ∧ Relocation.toStart.onSheet s = d.sheet path := by
  -- moved to the start the text is one of which everything is known
  have h := Sheet.ofCells_map Relocation.toStart path
    (cells (Item.writeAll Filler.written d.items d.last))
  rw [Relocation.cells_map_toStart, ofCells_place] at h
  rw [Sheet.parse_eq_ofCells, Draft.text, String.toList_ofList]
  cases hs : Sheet.ofCells path (cells (Item.writeAll Filler.written d.items d.last)) with
  | error e =>
    rw [hs] at h
    simp [Except.map, Except.mapError] at h
  | ok s =>
    rw [hs] at h
    simp only [Except.map, Except.mapError, Except.ok.injEq] at h
    exact ⟨s, rfl, h.symm⟩

/-- A comment between the tokens of a rule. -/
example :
    text
      { items :=
          [.rule
            ⟨[], ⟨⟨['.', 'a'], by simp, rfl, by simp [isReserved], rfl⟩, rfl, rfl, by simp,
              by simp⟩, [.blank ' ' rfl]⟩ []
            [.declaration
              ⟨[], .property ⟨['t', 'o', 'p'], ⟨'t', ['o', 'p'], rfl, rfl⟩,
                by simp [isAlphanumeric, isAlphabetic, isAscii], by simp [Char.isUpper]⟩, []⟩
              ⟨[.comment ['b'] (by decide)],
                ⟨['0'], by simp, rfl, by simp [isReserved], rfl⟩, []⟩]
            [.blank '\n' rfl]]
        last := []
        placed := rfl } = ".a \x7btop:/*b*/0;\n\x7d" := by
  rfl

end Draft
end SheetAudit
