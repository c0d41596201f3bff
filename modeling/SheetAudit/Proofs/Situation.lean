import SheetAudit.Proofs.Firsts
import SheetAudit.Proofs.Placement
import SheetAudit.Rules.Naming

/-!
# What surrounds a custom property

A custom property stands in rules and at-rules.  Its scope is a text that names the selectors and
the media queries among these, one after the other.  It is a duplicate of another one if the two
texts are equal, whatever else is around them.

## Main definitions

* `Situation` — the selectors and the at-rules around a node; `Situation.scope` is what its
  scope keeps of them.
* `situated` — the custom properties of a source text, each with its situation.
* `Naming.FirstIn` — custom properties are called duplicates of the first in their situation.
* `TellsApart` — different situations of one name have different scopes.

## Main results

* `map_situated` — these are the custom properties of the style sheet, in the order of the text.
* `Naming.firstIn_iff` — **custom properties are called duplicates of the first in their
  situation exactly if their scopes tell these apart.**
-/

namespace SheetAudit

open Source Text

/-! ### Situations -/

/-- The keyword of an at-rule in small letters and the rest of its prelude, its blanks
collapsed. -/
def AtRule.parts (prelude : List Char) : List Char × List Char :=
  let inKeyword (c : Char) : Bool := !(isBlank c || c == '(')
  (lowerAscii (prelude.takeWhile inKeyword), collapse (prelude.dropWhile inKeyword))

/-- The rules and at-rules around a node. -/
structure Situation where
  /-- The selectors of the innermost rule, those around it resolved. -/
  selectors : List (List Char) := []
  /-- Keywords and the rest of the preludes, from the outermost at-rule to the innermost. -/
  atRules : List (List Char × List Char) := []
  deriving DecidableEq

namespace Situation

/-- The situation of the nodes in a block. -/
def inside (t : Situation) (prelude : List Cell) : Situation :=
  match AtRule.of? (chars prelude) with
  | some _ => { t with atRules := t.atRules ++ [AtRule.parts (chars prelude)] }
  | none =>
    { t with selectors :=
        (Selector.selectors (chars prelude)).flatMap (Selector.resolve t.selectors) }

/-- One more at-rule, which counts if it is a media query. -/
def addMedia (media : Option (List Char)) (rule : List Char × List Char) : Option (List Char) :=
  if rule.1 = "@media".toList then (Scope.addMedia { media } rule.2).media else media

/-- The scope keeps the media queries only. -/
def scope (t : Situation) : Scope := ⟨t.atRules.foldl addMedia none, t.selectors⟩

end Situation

mutual

/-- The custom properties of a node with their situations. -/
def Node.situated (t : Situation) : Node → List (Situation × Variable)
  | .statement text => (readVariable? t.scope text).toList.map fun v => (t, v)
  | .block prelude _ body => Node.situatedIn (t.inside prelude) body

def Node.situatedIn (t : Situation) : List Node → List (Situation × Variable)
  | [] => []
  | n :: ns => n.situated t ++ Node.situatedIn t ns

end

/-- The custom properties of a source text with their situations. -/
def situated (source : String) : List (Situation × Variable) :=
  match readTree source.toList with
  | .error _ => []
  | .ok nodes => Node.situatedIn {} nodes

/-! ### Scopes and situations -/

/-- An at-rule is a media query by its keyword. -/
theorem AtRule.parts_of_of? {prelude : List Char} {rule : AtRule}
    (h : AtRule.of? prelude = some rule) :
    (∃ query, rule = .media query ∧ AtRule.parts prelude = ("@media".toList, query)) ∨
      (∀ query, rule ≠ .media query) ∧ (AtRule.parts prelude).1 ≠ "@media".toList := by
  rw [AtRule.of?] at h
  split at h
  · cases h
  · obtain rfl := Option.some.inj h
    split
    · next hmedia => exact .inl ⟨_, rfl, Prod.ext (eq_of_beq hmedia) rfl⟩
    · next hmedia =>
      refine .inr ⟨fun query hquery => ?_, fun heq => hmedia (beq_iff_eq.2 heq)⟩
      split at hquery
      · cases hquery
      · split at hquery <;> cases hquery

namespace Situation

/-- Going into a block, the scope follows the situation. -/
theorem scope_inside (t : Situation) (prelude : List Cell) :
    (t.inside prelude).scope = t.scope.inside prelude := by
  cases hrule : AtRule.of? (chars prelude) with
  | none =>
    rw [inside, Scope.inside, hrule]
    dsimp only
    rw [map_heads_of_none hrule]
    rfl
  | some rule =>
    rw [inside, Scope.inside, hrule]
    dsimp only
    rw [scope, List.foldl_append, List.foldl_cons, List.foldl_nil, addMedia]
    rcases AtRule.parts_of_of? hrule with ⟨query, rfl, hparts⟩ | ⟨hmedia, hparts⟩
    · have hkeyword : (AtRule.parts (chars prelude)).1 = "@media".toList := by rw [hparts]
      rw [if_pos hkeyword, hparts]
      rfl
    · rw [if_neg hparts]
      cases rule with
      | media query => exact absurd rfl (hmedia query)
      | keyframes | descriptors | group => rfl

end Situation

mutual

theorem Node.map_situated (t : Situation) :
    ∀ n : Node, (n.situated t).map Prod.snd = n.customProperties t.scope
  | .statement text => by
    rw [Node.situated, Node.customProperties, List.map_map]
    exact List.map_id' _
  | .block prelude content body => by
    rw [Node.situated, Node.customProperties, Node.map_situatedIn, t.scope_inside]

theorem Node.map_situatedIn (t : Situation) :
    ∀ ns : List Node, (Node.situatedIn t ns).map Prod.snd = Node.customPropertiesIn t.scope ns
  | [] => rfl
  | n :: ns => by
    rw [Node.situatedIn, Node.customPropertiesIn, List.map_append, Node.map_situated t n,
      Node.map_situatedIn t ns]

end

theorem scope_of_readVariable? {scope : Scope} {text : List Cell} {v : Variable}
    (h : readVariable? scope text = some v) : v.scope = String.ofList scope.describe := by
  obtain ⟨⟨name, value, pos⟩, -, hv⟩ := Option.bind_eq_some_iff.1 h
  dsimp only at hv
  split at hv
  · obtain rfl := Option.some.inj hv
    rfl
  · cases hv

mutual

theorem Node.scope_of_mem_situated {t : Situation} {d : Situation × Variable} :
    ∀ n : Node, d ∈ n.situated t → d.2.scope = String.ofList d.1.scope.describe
  | .statement text, h => by
    rw [Node.situated] at h
    obtain ⟨v, hv, rfl⟩ := List.mem_map.1 h
    exact scope_of_readVariable? (Option.mem_toList.1 hv)
  | .block prelude content body, h => by
    rw [Node.situated] at h
    exact Node.scope_of_mem_situatedIn body h

/-- The scope of a custom property says what the scope of its situation is. -/
theorem Node.scope_of_mem_situatedIn {t : Situation} {d : Situation × Variable} :
    ∀ ns : List Node, d ∈ Node.situatedIn t ns → d.2.scope = String.ofList d.1.scope.describe
  | [], h => absurd h List.not_mem_nil
  | n :: ns, h => by
    rw [Node.situatedIn, List.mem_append] at h
    rcases h with h | h
    · exact Node.scope_of_mem_situated n h
    · exact Node.scope_of_mem_situatedIn ns h

end

/-! ### Custom properties in their places -/

/-- A text whose tree can be read holds a style sheet. -/
theorem exists_parse_eq_ok (path : String) {source : String}
    (h : (readTree source.toList).isOk = true) : ∃ s, Sheet.parse path source = .ok s := by
  rw [Sheet.parse]
  cases hread : readTree source.toList with
  | error e =>
    rw [hread] at h
    cases h
  | ok nodes => exact ⟨_, rfl⟩

theorem pos_sublist_places (p : Scope × Node) :
    ((Node.ownVariables p).map (·.pos)).Sublist (Node.places p) := by
  obtain ⟨scope, n⟩ := p
  cases n with
  | block prelude content body => exact List.nil_sublist _
  | statement text =>
    cases hv : readVariable? scope text with
    | none =>
      rw [Node.ownVariables, hv]
      exact List.nil_sublist _
    | some v =>
      have hmem : v ∈ Node.ownVariables (scope, .statement text) := Option.mem_toList.2 hv
      rw [Node.ownVariables, hv]
      exact List.singleton_sublist.2 (Node.pos_of_ownVariables hmem)

/-- The custom properties of a style sheet are in the order of the text. -/
theorem pairwise_customProperties {path source : String} {s : Sheet}
    (h : Sheet.parse path source = .ok s) :
    s.customProperties.Pairwise fun v w => v.pos.Before w.pos := by
  obtain ⟨nodes, hnodes, rfl⟩ := parse_eq_ok h
  obtain ⟨xs, hxs, hreads⟩ := readTree_eq_ok hnodes
  rw [Sheet.ofNodes, Node.customPropertiesIn_eq {}]
  exact hreads.pairwise_parts hxs pos_sublist_places

/-- The custom properties with their situations are those of the style sheet. -/
theorem map_situated {path source : String} {s : Sheet} (h : Sheet.parse path source = .ok s) :
    (situated source).map Prod.snd = s.customProperties := by
  obtain ⟨nodes, hnodes, rfl⟩ := parse_eq_ok h
  rw [situated, hnodes]
  exact Node.map_situatedIn {} nodes

theorem scope_of_mem_situated {source : String} {d : Situation × Variable}
    (h : d ∈ situated source) : d.2.scope = String.ofList d.1.scope.describe := by
  rw [situated] at h
  split at h
  · exact absurd h List.not_mem_nil
  · exact Node.scope_of_mem_situatedIn _ h

/-- Different situations of custom properties of one name have different scopes. -/
def TellsApart (ds : List (Situation × Variable)) : Prop :=
  ∀ d ∈ ds, ∀ e ∈ ds, d.2.name = e.2.name → d.2.scope = e.2.scope → d.1 = e.1

/-! ### Duplicates -/

namespace Naming

/-- A custom property is declared again. -/
def redeclared (s : Sheet) (first v : Variable) : Issue :=
  { rule := "naming/duplicate-variable"
    severity := .moderate
    category := .duplication
    message :=
      s!"Variable '{v.name}' is declared again in '{v.scope}' (first on line {first.pos.line}); " ++
        "the last declaration silently wins"
    location := s.locate v.pos
    suggestion := "Keep a single declaration per scope and remove the others" }

/-- What is said of a custom property about its being a duplicate. -/
def duplicatesAt (settings : NamingSettings) (s : Sheet) (v : Variable) : List Issue :=
  (check settings s).filter fun i =>
    i.rule == "naming/duplicate-variable" && i.location == s.locate v.pos

/-- A custom property is called a duplicate if an earlier one of its name has its situation,
and the line is that of the first of these. -/
def FirstIn (settings : NamingSettings) (s : Sheet) (ds : List (Situation × Variable)) : Prop :=
  ∀ before t v after, ds = before ++ (t, v) :: after →
    duplicatesAt settings s v =
      ((before.find? fun d => d.1 = t ∧ d.2.name = v.name).map fun d => redeclared s d.2 v).toList

variable {settings : NamingSettings} {s : Sheet}

theorem duplicates_eq (s : Sheet) : duplicates s =
    (Repeats.repeats (fun v => (v.scope, v.name)) s.customProperties).map fun p =>
      redeclared s p.1 p.2 := rfl

theorem rule_of_mem_variableIssues {v : Variable} {i : Issue}
    (h : i ∈ variableIssues settings s v) : i.rule ≠ "naming/duplicate-variable" := by
  simp only [variableIssues, List.mem_append, Option.mem_toList] at h
  rcases h with (h | h) | h
  · simp only [misspelled, Option.ite_none_left_eq_some] at h
    obtain ⟨-, h⟩ := h
    obtain rfl := Option.some.inj h
    simp
  · simp only [namedByLook, Option.ite_none_left_eq_some, Option.map_eq_some_iff] at h
    obtain ⟨-, word, -, rfl⟩ := h
    simp
  · rw [unprefixed] at h
    split at h
    · cases h
    · simp only [Option.ite_none_left_eq_some] at h
      obtain ⟨-, h⟩ := h
      obtain rfl := Option.some.inj h
      simp

theorem rule_of_mem_classIssues {c : StyledClass} {i : Issue} (h : i ∈ classIssues s c) :
    i.rule ≠ "naming/duplicate-variable" := by
  simp only [classIssues, List.mem_append, Option.mem_toList] at h
  rcases h with h | h
  · simp only [misspelledClass, Option.ite_none_left_eq_some] at h
    obtain ⟨-, h⟩ := h
    obtain rfl := Option.some.inj h
    simp
  · simp only [offPattern, Option.ite_none_left_eq_some, Option.map_eq_some_iff] at h
    obtain ⟨-, pattern, -, rfl⟩ := h
    simp

/-- The other naming rules say nothing about duplicates. -/
theorem duplicatesAt_eq (v : Variable) :
    duplicatesAt settings s v = (duplicates s).filter fun i => i.location == s.locate v.pos := by
  have hvariables : ((Repeats.firsts (·.name) s.customProperties).flatMap
      (variableIssues settings s)).filter (fun i =>
        i.rule == "naming/duplicate-variable" && i.location == s.locate v.pos) = [] := by
    refine List.filter_eq_nil_iff.2 fun i hi => ?_
    obtain ⟨w, -, hw⟩ := List.mem_flatMap.1 hi
    simp [rule_of_mem_variableIssues hw]
  have hclasses : ((Repeats.firsts (·.name) s.classes).flatMap (classIssues s)).filter (fun i =>
        i.rule == "naming/duplicate-variable" && i.location == s.locate v.pos) = [] := by
    refine List.filter_eq_nil_iff.2 fun i hi => ?_
    obtain ⟨c, -, hc⟩ := List.mem_flatMap.1 hi
    simp [rule_of_mem_classIssues hc]
  rw [duplicatesAt, check, List.filter_append, List.filter_append, hvariables, hclasses,
    List.nil_append, List.append_nil]
  refine List.filter_congr fun i hi => ?_
  obtain ⟨p, -, rfl⟩ := List.mem_map.1 (duplicates_eq s ▸ hi)
  rfl

/-- A custom property is called a duplicate of the first one with its scope and its name. -/
theorem duplicatesAt_of_append
    (hpairwise : s.customProperties.Pairwise fun v w => v.pos.Before w.pos)
    {before after : List Variable} {v : Variable}
    (h : s.customProperties = before ++ v :: after) :
    duplicatesAt settings s v =
      ((before.find? fun w => (w.scope, w.name) == (v.scope, v.name)).map fun w =>
        redeclared s w v).toList := by
  rw [h] at hpairwise
  obtain ⟨-, hafter, hbefore⟩ := List.pairwise_append.1 hpairwise
  have hafter := (List.pairwise_cons.1 hafter).1
  -- what is said of the others is said in other places
  have hothers : ∀ ps : List (Variable × Variable), (∀ p ∈ ps, p.2.pos ≠ v.pos) →
      (ps.map fun p => redeclared s p.1 p.2).filter (fun i => i.location == s.locate v.pos) =
        [] := by
    intro ps hps
    refine List.filter_eq_nil_iff.2 fun i hi hloc => ?_
    obtain ⟨p, hp, rfl⟩ := List.mem_map.1 hi
    exact hps p hp (congrArg Location.pos (eq_of_beq hloc))
  obtain ⟨later, hrepeats, hlater⟩ :=
    Repeats.exists_repeats_append (fun w : Variable => (w.scope, w.name)) before v after
  have hearlier := hothers (Repeats.repeats (fun w : Variable => (w.scope, w.name)) before)
    fun p hp => (hbefore p.2 (Repeats.mem_of_mem_repeats hp) v List.mem_cons_self).ne
  have hlater := hothers later fun p hp => (hafter p.2 (hlater p hp)).ne.symm
  rw [duplicatesAt_eq, duplicates_eq, h, hrepeats, List.map_append, List.map_append,
    List.filter_append, List.filter_append, hearlier, hlater, List.nil_append, List.append_nil]
  cases before.find? fun w => (w.scope, w.name) == (v.scope, v.name) with
  | none => rfl
  | some w =>
    refine List.filter_eq_self.2 fun i hi => ?_
    obtain rfl := List.mem_singleton.1 hi
    exact beq_self_eq_true _

/-- If scopes tell situations apart, the first in the scope is the first in the situation. -/
theorem find?_eq {before : List (Situation × Variable)} {e : Situation × Variable}
    (h : ∀ d ∈ before, d.2.name = e.2.name → (d.2.scope = e.2.scope ↔ d.1 = e.1)) :
    (before.map Prod.snd).find? (fun w => (w.scope, w.name) == (e.2.scope, e.2.name)) =
      (before.find? fun d => d.1 = e.1 ∧ d.2.name = e.2.name).map Prod.snd := by
  rw [List.find?_map]
  congr 1
  refine List.find?_congr fun d hd => ?_
  rw [Bool.eq_iff_iff]
  simp only [Function.comp_apply, beq_iff_eq, Prod.mk.injEq, decide_eq_true_eq]
  exact and_congr_left (h d hd)

section

variable {path source : String} (h : Sheet.parse path source = .ok s)
include h

theorem duplicatesAt_situated {before after : List (Situation × Variable)}
    {e : Situation × Variable} (hds : situated source = before ++ e :: after) :
    duplicatesAt settings s e.2 =
      (((before.map Prod.snd).find? fun w => (w.scope, w.name) == (e.2.scope, e.2.name)).map
        fun w => redeclared s w e.2).toList := by
  have hsplit : s.customProperties = before.map Prod.snd ++ e.2 :: after.map Prod.snd := by
    rw [← map_situated h, hds, List.map_append, List.map_cons]
  exact duplicatesAt_of_append (pairwise_customProperties h) hsplit

/-- Where scopes tell situations apart, duplicates come after the first in their
situation. -/
theorem firstIn_of_tellsApart (htells : TellsApart (situated source)) :
    FirstIn settings s (situated source) := by
  intro before t v after hds
  have hin : ∀ d ∈ before, d ∈ situated source := fun d hd => hds ▸ List.mem_append_left _ hd
  have he : (t, v) ∈ situated source :=
    hds ▸ List.mem_append_right _ List.mem_cons_self
  rw [duplicatesAt_situated h hds, find?_eq, Option.map_map]
  · rfl
  · intro d hd hname
    refine ⟨htells d (hin d hd) (t, v) he hname, fun heq => ?_⟩
    rw [scope_of_mem_situated (hin d hd), scope_of_mem_situated he, heq]

/-- A custom property that is called a duplicate has an earlier one in its situation, which
has its scope; so each new one with a scope has the situation of those before it. -/
theorem tellsApart_of_firstIn (hfirst : FirstIn settings s (situated source)) :
    TellsApart (situated source) := by
  have key : ∀ before after, situated source = before ++ after → TellsApart before := by
    intro before
    induction before using List.reverseRecOn with
    | nil => exact fun _ _ d hd => absurd hd List.not_mem_nil
    | append_singleton before e ih =>
      intro after hds
      rw [List.append_assoc, List.singleton_append] at hds
      have ih := ih _ hds
      have hnew : ∀ d ∈ before, d.2.name = e.2.name → d.2.scope = e.2.scope → d.1 = e.1 := by
        intro d hd hname hscope
        have hsome : ((before.map Prod.snd).find? fun w =>
            (w.scope, w.name) == (e.2.scope, e.2.name)).isSome :=
          List.find?_isSome.2 ⟨d.2, List.mem_map_of_mem hd, by rw [hname, hscope, beq_self_eq_true]⟩
        obtain ⟨w, hw⟩ := Option.isSome_iff_exists.1 hsome
        have heq := (duplicatesAt_situated h hds).symm.trans (hfirst before e.1 e.2 after hds)
        rw [hw] at heq
        cases hg : before.find? fun d => d.1 = e.1 ∧ d.2.name = e.2.name with
        | none =>
          rw [hg] at heq
          cases heq
        | some g =>
          have hgmem := List.mem_of_find?_eq_some hg
          obtain ⟨hgt, hgname⟩ : g.1 = e.1 ∧ g.2.name = e.2.name := by
            simpa using List.find?_some hg
          have hgscope : g.2.scope = e.2.scope := by
            rw [scope_of_mem_situated (hds ▸ List.mem_append_left _ hgmem),
              scope_of_mem_situated (hds ▸ List.mem_append_right _ List.mem_cons_self), hgt]
          exact (ih d hd g hgmem (hname.trans hgname.symm) (hscope.trans hgscope.symm)).trans hgt
      intro d hd d' hd' hname hscope
      rcases List.mem_append.1 hd with hd | hd <;> rcases List.mem_append.1 hd' with hd' | hd'
      · exact ih d hd d' hd' hname hscope
      · rw [List.mem_singleton.1 hd'] at hname hscope ⊢
        exact hnew d hd hname hscope
      · rw [List.mem_singleton.1 hd] at hname hscope ⊢
        exact (hnew d' hd' hname.symm hscope.symm).symm
      · rw [List.mem_singleton.1 hd, List.mem_singleton.1 hd']
  exact key _ [] (List.append_nil _).symm

end

/-- **Custom properties are called duplicates of the first in their situation exactly if their
scopes tell these apart.**  A scope keeps the selectors and the media queries, and it puts them
into one text. -/
theorem firstIn_iff {path source : String} (h : Sheet.parse path source = .ok s)
    (settings : NamingSettings) :
    (situated source).map Prod.snd = s.customProperties ∧
      (FirstIn settings s (situated source) ↔ TellsApart (situated source)) :=
  ⟨map_situated h, tellsApart_of_firstIn h, firstIn_of_tellsApart h⟩

/-- The same custom property in a rule, under a media query and in the rule again. -/
theorem firstIn_of_media :
    ∃ s, Sheet.parse "a.css" "a\x7b--b:1;@media c\x7b--b:2\x7d--b:3\x7d" = .ok s ∧
      (situated "a\x7b--b:1;@media c\x7b--b:2\x7d--b:3\x7d").map Prod.snd = s.customProperties ∧
      FirstIn {} s (situated "a\x7b--b:1;@media c\x7b--b:2\x7d--b:3\x7d") := by
  have hread : (readTree "a\x7b--b:1;@media c\x7b--b:2\x7d--b:3\x7d".toList).isOk = true := by
    decide +kernel
  have htells : TellsApart (situated "a\x7b--b:1;@media c\x7b--b:2\x7d--b:3\x7d") := by
    unfold TellsApart
    decide +kernel
  obtain ⟨s, hs⟩ := exists_parse_eq_ok "a.css" hread
  obtain ⟨hmap, hiff⟩ := firstIn_iff hs {}
  exact ⟨s, hs, hmap, hiff.2 htells⟩

/-- The first of two custom properties stands under a condition, which its scope does not
keep. -/
theorem condition_not_told_apart :
    ∃ s, Sheet.parse "a.css" "@supports (b:c)\x7ba\x7b--b:1\x7d\x7da\x7b--b:2\x7d" = .ok s ∧
      ¬ FirstIn {} s (situated "@supports (b:c)\x7ba\x7b--b:1\x7d\x7da\x7b--b:2\x7d") := by
  have hread :
      (readTree "@supports (b:c)\x7ba\x7b--b:1\x7d\x7da\x7b--b:2\x7d".toList).isOk = true := by
    decide +kernel
  have htells :
      ¬ TellsApart (situated "@supports (b:c)\x7ba\x7b--b:1\x7d\x7da\x7b--b:2\x7d") := by
    unfold TellsApart
    decide +kernel
  obtain ⟨s, hs⟩ := exists_parse_eq_ok "a.css" hread
  exact ⟨s, hs, fun hfirst => htells (tellsApart_of_firstIn hs hfirst)⟩

end Naming
end SheetAudit
