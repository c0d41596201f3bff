import Mathlib
import SheetAudit.Proofs.Placement

/-!
# What a prelude governs

The selectors of a prelude show in a style sheet through the declarations that stand under them,
in the block or in blocks inside it.  Nodes without declarations add the same to a style sheet
whatever the selectors around them are.  Where there are declarations, selectors that hold a
character more often make rules and scopes that hold it more often.

## Main definitions

* `Node.declaresIn` — some declaration stands in the nodes, under a selector if a rule is around
  it.
* `tally` — how often a character occurs in some texts.
* `Node.weightIn` — how often it occurs in the selectors and scopes that nodes are recorded with.
* `Scope.Heavier` — the selectors of one scope hold a character more often than those of another.
* `Sheet.weight` — how often a character occurs in the selectors and scopes of a style sheet.
* `Sheet.size` — how many parts a style sheet has.

## Main results

* `Node.customPropertiesIn_congr`, `Node.rulesIn_congr` — **nodes without declarations do not show
  the selectors around them.**
* `Node.weightIn_le` — **nodes with declarations show that the selectors are heavier.**
* `Sheet.weight_ofNodes_block` — the weight of a style sheet is that of its nodes.
* `Sheet.ofNodes_block_of_not_declares` — a block without declarations makes way for what it
  holds, unless it is a media query or keyframes.
-/

namespace SheetAudit

open Source Text

/-! ### Counting a character -/

/-- How often a character occurs in some texts. -/
def tally (c : Char) (texts : List (List Char)) : Nat := (texts.map fun text => text.count c).sum

@[simp] theorem tally_nil (c : Char) : tally c [] = 0 := rfl

@[simp] theorem tally_cons (c : Char) (text : List Char) (texts : List (List Char)) :
    tally c (text :: texts) = text.count c + tally c texts := by
  simp [tally]

@[simp] theorem tally_append (c : Char) (texts texts' : List (List Char)) :
    tally c (texts ++ texts') = tally c texts + tally c texts' := by
  simp [tally]

theorem count_intercalate {c : Char} {separator : List Char} (h : c ∉ separator)
    (texts : List (List Char)) : (separator.intercalate texts).count c = tally c texts := by
  induction texts with
  | nil => rfl
  | cons text texts ih =>
    cases texts with
    | nil => simp
    | cons text' texts =>
      rw [List.intercalate_cons_cons, List.count_append, List.count_append, ih,
        List.count_eq_zero_of_not_mem h, Nat.add_zero, ← tally_cons]

/-- A character that is no blank stays in the words of a text. -/
theorem tally_words {c : Char} (hc : isBlank c = false) (cs : List Char) :
    tally c (words cs) = cs.count c := by
  induction cs with
  | nil => rfl
  | cons d cs ih =>
    cases hd : isBlank d with
    | true =>
      have hne : d ≠ c := by rintro rfl; simp [hd] at hc
      rw [words_blank hd, List.count_cons_of_ne hne, ih]
    | false =>
      rcases words_cons_or hd cs with hw | ⟨w, ws, hv, hw⟩
      · rw [hw, tally_cons, ih, ← List.count_append]
        rfl
      · rw [hv, tally_cons] at ih
        rw [hw, tally_cons, List.count_cons, List.count_cons, ← ih]
        exact Nat.add_right_comm _ _ _

theorem count_collapse {c : Char} (hc : isBlank c = false) (cs : List Char) :
    (collapse cs).count c = cs.count c := by
  have hspace : c ∉ [' '] := by
    rintro h
    rw [List.mem_singleton.1 h] at hc
    cases hc
  rw [collapse, count_intercalate hspace, tally_words hc]

/-! ### Selectors inside selectors -/

/-- Putting selectors into a list or into one another neither adds nor takes away the
character. -/
structure Telltale (c : Char) : Prop where
  ne_ampersand : c ≠ '&'
  ne_comma : c ≠ ','
  ne_space : c ≠ ' '

theorem Telltale.not_mem_separator {c : Char} (h : Telltale c) : c ∉ ", ".toList := by
  simp [h.ne_comma, h.ne_space]

namespace Selector

/-- How often a nested selector takes up each of its parents. -/
def uses (child : List Char) : Nat := if child.contains '&' then child.count '&' else 1

theorem uses_pos (child : List Char) : 0 < uses child := by
  rw [uses]
  split
  · next h => exact List.count_pos_iff.2 (List.contains_iff_mem.1 h)
  · exact Nat.one_pos

theorem resolve_nil (child : List Char) : resolve [] child = [child] := rfl

theorem length_resolve {parents : List (List Char)} (h : parents ≠ []) (child : List Char) :
    (resolve parents child).length = parents.length := by
  rw [resolve, if_neg (by simpa using h), List.length_map]

variable {c : Char}

/-- A nested selector has its own characters, and those of its parent as often as it takes it
up. -/
theorem tally_resolve (hc : Telltale c) {parents : List (List Char)} (h : parents ≠ [])
    (child : List Char) :
    tally c (resolve parents child) =
      parents.length * child.count c + uses child * tally c parents := by
  have hplace : ∀ parent : List Char,
      (child.flatMap fun d => if d == '&' then parent else [d]).count c =
        child.count c + child.count '&' * parent.count c := by
    intro parent
    induction child with
    | nil => simp
    | cons d child ih =>
      rw [List.flatMap_cons, List.count_append, ih, List.count_cons, List.count_cons]
      by_cases hd : d = '&'
      · subst hd
        have hne : ('&' == c) = false := by simpa using hc.ne_ampersand.symm
        simp only [beq_self_eq_true, if_true, hne, Bool.false_eq_true, if_false]
        ring
      · have hne : (d == '&') = false := by simpa using hd
        simp only [hne, Bool.false_eq_true, if_false, List.count_singleton]
        ring
  rw [resolve, if_neg (by simpa using h), uses]
  clear h
  induction parents with
  | nil => simp
  | cons parent parents ih =>
    rw [List.map_cons, tally_cons, ih, tally_cons, List.length_cons]
    split
    · rw [hplace]
      ring
    · rw [List.count_append, List.count_cons_of_ne hc.ne_space.symm]
      ring

variable {parents parents' : List (List Char)}

/-- Under heavier parents a selector is heavier. -/
theorem resolve_heavier (hc : Telltale c) (hlength : parents.length ≤ parents'.length)
    (htally : tally c parents < tally c parents') (child : List Char) :
    (resolve parents child).length ≤ (resolve parents' child).length ∧
      tally c (resolve parents child) < tally c (resolve parents' child) := by
  have hne' : parents' ≠ [] := by
    rintro rfl
    exact absurd htally (Nat.not_lt_zero _)
  have huses := uses_pos child
  rw [length_resolve hne', tally_resolve hc hne']
  by_cases hne : parents = []
  · subst hne
    have hpos : 0 < parents'.length := List.length_pos_iff.2 hne'
    have hown : child.count c ≤ parents'.length * child.count c := Nat.le_mul_of_pos_left _ hpos
    have hparents : 0 < uses child * tally c parents' := Nat.mul_pos huses htally
    rw [resolve_nil, tally_cons, tally_nil]
    exact ⟨hpos, by omega⟩
  · have hown : parents.length * child.count c ≤ parents'.length * child.count c :=
      Nat.mul_le_mul_right _ hlength
    have hparents : uses child * tally c parents < uses child * tally c parents' :=
      Nat.mul_lt_mul_of_pos_left htally huses
    rw [length_resolve hne, tally_resolve hc hne]
    exact ⟨hlength, by omega⟩

/-- Under heavier parents a list of selectors is heavier, if it is not empty. -/
theorem flatMap_resolve_heavier (hc : Telltale c) (hlength : parents.length ≤ parents'.length)
    (htally : tally c parents < tally c parents') {children : List (List Char)}
    (hne : children ≠ []) :
    (children.flatMap (resolve parents)).length ≤ (children.flatMap (resolve parents')).length ∧
      tally c (children.flatMap (resolve parents)) <
        tally c (children.flatMap (resolve parents')) := by
  induction children with
  | nil => exact absurd rfl hne
  | cons child children ih =>
    obtain ⟨hlength₁, htally₁⟩ := resolve_heavier hc hlength htally child
    rw [List.flatMap_cons, List.flatMap_cons, List.length_append, List.length_append,
      tally_append, tally_append]
    by_cases hchildren : children = []
    · subst hchildren
      simpa using ⟨hlength₁, htally₁⟩
    · obtain ⟨hlength₂, htally₂⟩ := ih hchildren
      exact ⟨Nat.add_le_add hlength₁ hlength₂, Nat.add_lt_add htally₁ htally₂⟩

end Selector

/-! ### Blocks with a selector -/

/-- The block is that of an at-rule, or of a rule that has a selector. -/
def selects (prelude : List Cell) : Bool :=
  (AtRule.of? (chars prelude)).isSome || !(Selector.selectors (chars prelude)).isEmpty

theorem not_selects {prelude : List Cell} (h : selects prelude = false) :
    AtRule.of? (chars prelude) = none ∧ Selector.selectors (chars prelude) = [] := by
  rw [selects, Bool.or_eq_false_iff] at h
  exact ⟨by simpa using h.1, by simpa using h.2⟩

/-- A rule without a selector applies its declarations to nothing. -/
theorem heads_of_not_selects {prelude : List Cell} (h : selects prelude = false)
    (scope : Scope) : heads scope prelude = [] := by
  obtain ⟨hrule, hselectors⟩ := not_selects h
  have hmap : (heads scope prelude).map Prod.snd = [] := by
    rw [map_heads_of_none hrule, hselectors]
    rfl
  exact List.map_eq_nil_iff.1 hmap

variable {s t : Scope}

theorem media_inside (h : s.media = t.media) (prelude : List Cell) :
    (s.inside prelude).media = (t.inside prelude).media := by
  rw [Scope.inside, Scope.inside]
  cases AtRule.of? (chars prelude) with
  | none => exact h
  | some rule =>
    cases rule with
    | media query =>
      dsimp only [Scope.addMedia]
      rw [h]
    | keyframes | descriptors | group => exact h

/-- In a rule without a selector the selectors around it are lost. -/
theorem inside_of_not_selects {prelude : List Cell} (h : selects prelude = false)
    (hmedia : s.media = t.media) : s.inside prelude = t.inside prelude := by
  have hselectors : (s.inside prelude).selectors = (t.inside prelude).selectors := by
    rw [← map_heads, ← map_heads, heads_of_not_selects h, heads_of_not_selects h]
  have hmedia := media_inside hmedia prelude
  cases hs : s.inside prelude
  cases ht : t.inside prelude
  rw [hs, ht] at hmedia hselectors
  exact congrArg₂ Scope.mk hmedia hselectors

/-! ### Nodes without declarations -/

namespace Node

mutual

/-- Some declaration stands in the node, under a selector if a rule of the node is around it. -/
def declares : Node → Bool
  | .statement text => (readDeclaration? text).isSome
  | .block prelude _ body => selects prelude && declaresIn body

def declaresIn : List Node → Bool
  | [] => false
  | n :: ns => n.declares || declaresIn ns

end

theorem readVariable?_of_none {text : List Cell} (h : readDeclaration? text = none)
    (scope : Scope) : readVariable? scope text = none := by
  rw [readVariable?, h, Option.bind_none]

theorem ownDeclaration?_of_none {text : List Cell} (h : readDeclaration? text = none) :
    ownDeclaration? text = none := by
  rw [ownDeclaration?, h, Option.bind_none]

theorem ownDeclarations_eq_nil {ns : List Node} (h : declaresIn ns = false) :
    ownDeclarations ns = [] := by
  induction ns with
  | nil => rfl
  | cons n ns ih =>
    rw [declaresIn, Bool.or_eq_false_iff] at h
    cases n with
    | statement text =>
      have hnone : readDeclaration? text = none := by simpa [declares] using h.1
      rw [ownDeclarations_statement, ownDeclaration?_of_none hnone, ih h.2]
      rfl
    | block prelude content body => exact ih h.2

/-- A block without declarations makes no rules of its own. -/
theorem ownRules_eq_nil {prelude : List Cell} {body : List Node}
    (h : (selects prelude && declaresIn body) = false) (scope : Scope) :
    ownRules scope prelude body = [] := by
  rw [ownRules]
  rcases Bool.and_eq_false_iff.1 h with h | h
  · rw [heads_of_not_selects h, List.map_nil, ite_self]
  · rw [ownDeclarations_eq_nil h]
    rfl

mutual

theorem customProperties_congr {s t : Scope} (hm : s.media = t.media) :
    ∀ n : Node, n.declares = false → n.customProperties s = n.customProperties t
  | .statement text, h => by
    have hnone : readDeclaration? text = none := by simpa [declares] using h
    rw [Node.customProperties, Node.customProperties, readVariable?_of_none hnone,
      readVariable?_of_none hnone]
  | .block prelude content body, h => by
    rw [Node.customProperties, Node.customProperties]
    rw [declares] at h
    rcases Bool.and_eq_false_iff.1 h with h | h
    · rw [inside_of_not_selects h hm]
    · exact customPropertiesIn_congr (media_inside hm prelude) body h

/-- Nodes without declarations do not show the selectors around them in custom properties. -/
theorem customPropertiesIn_congr {s t : Scope} (hm : s.media = t.media) :
    ∀ ns : List Node, declaresIn ns = false → customPropertiesIn s ns = customPropertiesIn t ns
  | [], _ => rfl
  | n :: ns, h => by
    rw [declaresIn, Bool.or_eq_false_iff] at h
    rw [customPropertiesIn, customPropertiesIn, customProperties_congr hm n h.1,
      customPropertiesIn_congr hm ns h.2]

end

mutual

theorem rules_congr {s t : Scope} (hm : s.media = t.media) :
    ∀ n : Node, n.declares = false → n.rules s = n.rules t
  | .statement text, _ => rfl
  | .block prelude content body, h => by
    rw [declares] at h
    rw [Node.rules, Node.rules, ownRules_eq_nil h, ownRules_eq_nil h]
    rcases Bool.and_eq_false_iff.1 h with h | h
    · rw [inside_of_not_selects h hm]
    · rw [rulesIn_congr (media_inside hm prelude) body h]

/-- Nodes without declarations do not show the selectors around them in rules. -/
theorem rulesIn_congr {s t : Scope} (hm : s.media = t.media) :
    ∀ ns : List Node, declaresIn ns = false → rulesIn s ns = rulesIn t ns
  | [], _ => rfl
  | n :: ns, h => by
    rw [declaresIn, Bool.or_eq_false_iff] at h
    rw [rulesIn, rulesIn, rules_congr hm n h.1, rulesIn_congr hm ns h.2]

end

end Node

/-! ### Heavier scopes -/

/-- The selectors of a scope hold a character more often than those of another scope, and are not
fewer. -/
structure Scope.Heavier (c : Char) (s t : Scope) : Prop where
  media : s.media = t.media
  length_le : s.selectors.length ≤ t.selectors.length
  tally_lt : tally c s.selectors < tally c t.selectors

variable {c : Char}

theorem Scope.Heavier.ne_nil (h : Scope.Heavier c s t) : t.selectors ≠ [] := by
  intro hnil
  have hlt := h.tally_lt
  rw [hnil] at hlt
  exact absurd hlt (Nat.not_lt_zero _)

/-- A heavier scope has a heavier description. -/
theorem Scope.Heavier.count_describe (h : Scope.Heavier c s t) (hc : Telltale c) :
    s.describe.count c < t.describe.count c := by
  have hlt := h.tally_lt
  have hc := hc.not_mem_separator
  rw [Scope.describe, Scope.describe, h.media]
  cases t.media with
  | none =>
    dsimp only
    rwa [count_intercalate hc, count_intercalate hc]
  | some media =>
    simp only [List.count_append, List.count_cons, count_intercalate hc]
    omega

/-- Going into a block, a heavier scope stays heavier, unless the block has no selector. -/
theorem Scope.Heavier.inside (h : Scope.Heavier c s t) (hc : Telltale c) {prelude : List Cell}
    (hs : selects prelude = true) :
    Scope.Heavier c (s.inside prelude) (t.inside prelude) := by
  cases hrule : AtRule.of? (chars prelude) with
  | none =>
    have hne : Selector.selectors (chars prelude) ≠ [] := by simpa [selects, hrule] using hs
    obtain ⟨hlength, htally⟩ :=
      Selector.flatMap_resolve_heavier hc h.length_le h.tally_lt hne
    rw [← map_heads_of_none hrule, ← map_heads_of_none hrule, map_heads, map_heads]
      at hlength htally
    exact ⟨media_inside h.media prelude, hlength, htally⟩
  | some rule =>
    have hselectors : ∀ u : Scope, (u.inside prelude).selectors = u.selectors := by
      intro u
      rw [Scope.inside, hrule]
      cases rule <;> rfl
    refine ⟨media_inside h.media prelude, ?_, ?_⟩
    · rw [hselectors, hselectors]
      exact h.length_le
    · rw [hselectors, hselectors]
      exact h.tally_lt

/-! ### Nodes with declarations -/

namespace Node

mutual

/-- How often a character occurs in what a node adds to a style sheet in a scope: in the scopes of
its custom properties, and in the selectors of its other declarations. -/
def weight (c : Char) (s : Scope) : Node → Nat
  | .statement text =>
    ((readVariable? s text).toList.map fun v => v.scope.toList.count c).sum +
      tally c s.selectors * (ownDeclaration? text).toList.length
  | .block prelude _ body => weightIn c (s.inside prelude) body

def weightIn (c : Char) (s : Scope) : List Node → Nat
  | [] => 0
  | n :: ns => n.weight c s + weightIn c s ns

end

/-- A statement with a declaration shows that the scope is heavier. -/
theorem weight_statement_lt (h : Scope.Heavier c s t) (hc : Telltale c) {text : List Cell}
    (hdeclares : (readDeclaration? text).isSome = true) :
    (Node.statement text).weight c s < (Node.statement text).weight c t := by
  obtain ⟨⟨name, value, pos⟩, hread⟩ := Option.isSome_iff_exists.1 hdeclares
  have hne := h.ne_nil
  rw [weight, weight, readVariable?, readVariable?, ownDeclaration?, hread]
  dsimp only [Option.bind_some]
  cases hname : isVariableName name with
  | true =>
    -- a custom property, which is recorded only where there is a selector
    have hlt := h.count_describe hc
    have hpos : 0 < t.describe.count c := Nat.zero_lt_of_lt hlt
    by_cases hnil : s.selectors = []
    · simpa [hnil, hne] using hpos
    · simpa [hnil, hne] using hlt
  | false => simpa using h.tally_lt

mutual

theorem weight_le {s t : Scope} (h : Scope.Heavier c s t) (hc : Telltale c) : ∀ n : Node,
    n.weight c s ≤ n.weight c t ∧ (n.declares = true → n.weight c s < n.weight c t)
  | .statement text => by
    cases hd : (readDeclaration? text).isSome with
    | true =>
      have hlt := weight_statement_lt h hc hd
      exact ⟨hlt.le, fun _ => hlt⟩
    | false =>
      have hnone : readDeclaration? text = none := by simpa using hd
      rw [weight, weight, readVariable?_of_none hnone, readVariable?_of_none hnone,
        ownDeclaration?_of_none hnone, declares, hd]
      exact ⟨Nat.le_refl _, nofun⟩
  | .block prelude content body => by
    rw [weight, weight, declares]
    cases hs : selects prelude with
    | true => exact weightIn_le (h.inside hc hs) hc body
    | false =>
      rw [inside_of_not_selects hs h.media]
      exact ⟨Nat.le_refl _, nofun⟩

/-- In a heavier scope nodes weigh no less, and more if there are declarations. -/
theorem weightIn_le {s t : Scope} (h : Scope.Heavier c s t) (hc : Telltale c) :
    ∀ ns : List Node, weightIn c s ns ≤ weightIn c t ns ∧
      (declaresIn ns = true → weightIn c s ns < weightIn c t ns)
  | [] => ⟨Nat.le_refl _, nofun⟩
  | n :: ns => by
    obtain ⟨hle, hlt⟩ := weight_le h hc n
    obtain ⟨hle', hlt'⟩ := weightIn_le h hc ns
    rw [weightIn, weightIn, declaresIn, Bool.or_eq_true]
    refine ⟨Nat.add_le_add hle hle', ?_⟩
    rintro (hd | hd)
    · exact Nat.add_lt_add_of_lt_of_le (hlt hd) hle'
    · exact Nat.add_lt_add_of_le_of_lt hle (hlt' hd)

end

end Node

/-! ### The weight of a style sheet -/

/-- How often a character occurs in the selectors of the declarations. -/
def Rule.weight (c : Char) (rules : List Rule) : Nat :=
  (rules.map fun r => r.selector.toList.count c * r.declarations.length).sum

/-- How often a character occurs in the scopes of the custom properties. -/
def Variable.weight (c : Char) (vs : List Variable) : Nat :=
  (vs.map fun v => v.scope.toList.count c).sum

def Sheet.weight (c : Char) (s : Sheet) : Nat :=
  Rule.weight c s.rules + Variable.weight c s.customProperties

theorem Rule.weight_append (c : Char) (rules rules' : List Rule) :
    Rule.weight c (rules ++ rules') = Rule.weight c rules + Rule.weight c rules' := by
  simp [Rule.weight]

theorem Variable.weight_append (c : Char) (vs vs' : List Variable) :
    Variable.weight c (vs ++ vs') = Variable.weight c vs + Variable.weight c vs' := by
  simp [Variable.weight]

/-- Every declaration of a block counts once for each selector. -/
theorem Rule.weight_ownRules (c : Char) (scope : Scope) (prelude : List Cell) (body : List Node) :
    Rule.weight c (ownRules scope prelude body) =
      tally c (scope.inside prelude).selectors * (ownDeclarations body).length := by
  rw [ownRules]
  cases hd : ownDeclarations body with
  | nil => rfl
  | cons d ds =>
    rw [← map_heads, tally, List.map_map, ← List.sum_map_mul_right, Rule.weight]
    simp [Function.comp_def]

namespace Node

mutual

theorem weight_eq (c : Char) (scope : Scope) : ∀ n : Node,
    n.weight c scope =
      Rule.weight c (n.rules scope) + Variable.weight c (n.customProperties scope) +
        tally c scope.selectors * (ownDeclarations [n]).length
  | .statement text => by
    rw [weight, Node.rules, Node.customProperties, ownDeclarations_statement]
    simp [Rule.weight, Variable.weight, ownDeclarations]
  | .block prelude content body => by
    rw [weight, weightIn_eq c _ body, Node.rules, Node.customProperties, Rule.weight_append,
      Rule.weight_ownRules, ownDeclarations_block]
    simp only [ownDeclarations, List.filterMap_nil, List.length_nil, Nat.mul_zero]
    omega

/-- The weight of nodes is that of the rules and custom properties that they add, and of the
declarations that are left for the block around them. -/
theorem weightIn_eq (c : Char) (scope : Scope) : ∀ ns : List Node,
    weightIn c scope ns =
      Rule.weight c (rulesIn scope ns) + Variable.weight c (customPropertiesIn scope ns) +
        tally c scope.selectors * (ownDeclarations ns).length
  | [] => rfl
  | n :: ns => by
    have hcons : ownDeclarations (n :: ns) = ownDeclarations [n] ++ ownDeclarations ns := by
      cases n with
      | statement text =>
        rw [ownDeclarations_statement, ownDeclarations_statement, List.append_assoc]
        rfl
      | block prelude content body => rfl
    rw [weightIn, weight_eq c scope n, weightIn_eq c scope ns, rulesIn, customPropertiesIn, hcons,
      Rule.weight_append, Variable.weight_append, List.length_append, Nat.mul_add]
    omega

end

end Node

/-! ### Style sheets of nodes -/

/-- How many parts a style sheet has. -/
def Sheet.size (s : Sheet) : Nat :=
  s.customProperties.length + s.rules.length + s.mediaQueries.length + s.keyframes.length

namespace Sheet

variable (path : String) (prelude content : List Cell) (body nodes : List Node)

theorem weight_ofNodes_block (c : Char) :
    (ofNodes path (.block prelude content body :: nodes)).weight c =
      Node.weightIn c (Scope.inside {} prelude) body + (ofNodes path nodes).weight c := by
  have hblock := Node.weight_eq c {} (.block prelude content body)
  rw [Node.weight, Node.ownDeclarations_block] at hblock
  simp only [weight, ofNodes, Node.rulesIn, Node.customPropertiesIn, Rule.weight_append,
    Variable.weight_append]
  simp only [ownDeclarations, List.filterMap_nil, List.length_nil, Nat.mul_zero] at hblock
  omega

theorem ofNodes_append (before : List Node) :
    ofNodes path (before ++ nodes) =
      { path
        customProperties := (ofNodes path before).customProperties ++
          (ofNodes path nodes).customProperties
        classes := (ofNodes path before).classes ++ (ofNodes path nodes).classes
        rules := (ofNodes path before).rules ++ (ofNodes path nodes).rules
        mediaQueries := (ofNodes path before).mediaQueries ++ (ofNodes path nodes).mediaQueries
        keyframes := (ofNodes path before).keyframes ++ (ofNodes path nodes).keyframes } := by
  have hwalk : Node.walkIn {} (before ++ nodes) =
      Node.walkIn {} before ++ Node.walkIn {} nodes := by
    induction before with
    | nil => rfl
    | cons n before ih => rw [List.cons_append, Node.walkIn, Node.walkIn, ih, List.append_assoc]
  simp only [ofNodes, Node.customPropertiesIn_eq {}, Node.rulesIn_eq, Node.mediaQueriesIn_eq {},
    Node.keyframesIn_eq {}, hwalk, List.flatMap_append, List.filterMap_append]

theorem size_ofNodes_append (before : List Node) :
    (ofNodes path (before ++ nodes)).size =
      (ofNodes "" before).size + (ofNodes path nodes).size := by
  rw [ofNodes_append]
  simp only [size, ofNodes, List.length_append]
  omega

/-- Nodes that add no parts can be left out. -/
theorem ofNodes_append_of_size_eq_zero {before : List Node} (h : (ofNodes "" before).size = 0) :
    ofNodes path (before ++ nodes) = ofNodes path nodes := by
  obtain ⟨⟨⟨hvariables, hrules⟩, hqueries⟩, hkeyframes⟩ :
      ((Node.customPropertiesIn {} before = [] ∧ Node.rulesIn {} before = []) ∧
        Node.mediaQueriesIn before = []) ∧ Node.keyframesIn before = [] := by
    simpa [size, ofNodes] using h
  rw [ofNodes_append]
  simp only [ofNodes, hrules, hvariables, hqueries, hkeyframes, List.nil_append,
    List.filterMap_nil]

variable {prelude body}

/-- A block that is neither a media query nor keyframes shows in the declarations under it only;
without these it may make way for what it holds. -/
theorem ofNodes_block_of_not_declares
    (hmedia : ∀ query, AtRule.of? (chars prelude) ≠ some (.media query))
    (hkeyframes : ∀ name, AtRule.of? (chars prelude) ≠ some (.keyframes name))
    (h : Node.declaresIn body = false) :
    ofNodes path (.block prelude content body :: nodes) = ofNodes path (body ++ nodes) := by
  have hscope : (Scope.inside {} prelude).media = ({} : Scope).media := by
    rw [Scope.inside]
    split
    · next hrule => exact absurd hrule (hmedia _)
    · rfl
    · rfl
  have hrules : (Node.block prelude content body).rules {} = Node.rulesIn {} body := by
    rw [Node.rules, Node.ownRules_eq_nil (by rw [h, Bool.and_false]), List.nil_append,
      Node.rulesIn_congr hscope body h]
  have hvariables : (Node.block prelude content body).customProperties {} =
      Node.customPropertiesIn {} body := by
    rw [Node.customProperties, Node.customPropertiesIn_congr hscope body h]
  have hqueries : (Node.block prelude content body).mediaQueries = Node.mediaQueriesIn body := by
    rw [Node.mediaQueries.eq_def]
    dsimp only
    split
    · next hrule => exact absurd hrule (hmedia _)
    · rfl
  have hkeyframes : (Node.block prelude content body).keyframes = Node.keyframesIn body := by
    rw [Node.keyframes.eq_def]
    dsimp only
    split
    · next hrule => exact absurd hrule (hkeyframes _)
    · rfl
  rw [ofNodes_append]
  simp only [ofNodes, Node.rulesIn, Node.customPropertiesIn, Node.mediaQueriesIn,
    Node.keyframesIn, hrules, hvariables, hqueries, hkeyframes, List.filterMap_append]

end Sheet
end SheetAudit
