import SheetAudit.Proofs.Draft
import SheetAudit.Proofs.Purposes
import SheetAudit.Proofs.Subjects

/-!
# What a written style sheet holds

What a reader has to find in a style sheet is read off its tree, without reading any text: the media
queries around a rule are collected on the way down, and so are the selectors that its declarations
apply to.

## Main definitions

* `Surroundings` — the media queries and the selectors around an item.
* `Surroundings.media`, `Surroundings.scope` — both in words.
* `Item.variables`, `Item.rules`, `Item.queries` — what an item holds.
* `classOf?` — the class that a rule is about.
* `Draft.sheet` — what a style sheet holds.

## Main results

* `trimmed_of_mem_rulesIn` — no selector of a tree begins or ends with a blank.
-/

namespace SheetAudit
namespace Draft

open Text

/-! ### Surroundings -/

/-- What stands around an item. -/
structure Surroundings where
  /-- The media queries, outer ones first. -/
  queries : List (List Char) := []
  /-- The selectors that a declaration applies to here. -/
  selectors : List (List Char) := []

/-- The selectors of a rule: each alone at the top, below every selector around it elsewhere. -/
def descend (outer selectors : List (List Char)) : List (List Char) :=
  selectors.flatMap fun s =>
    if outer.isEmpty then [s] else outer.map fun parent => parent ++ ' ' :: s

namespace Surroundings

/-- What stands around the body of a media query. -/
def inMedia (around : Surroundings) (query : List Char) : Surroundings :=
  { around with queries := around.queries ++ [query] }

/-- What stands around the body of a rule. -/
def inRule (around : Surroundings) (first : Spaced SelectorText)
    (others : List (Spaced SelectorText)) : Surroundings :=
  { around with
    selectors := descend around.selectors ((first :: others).map fun s => s.token.chars) }

/-- All the media queries, if there are any. -/
def media (around : Surroundings) : Option (List Char) :=
  if around.queries = [] then none else some (" and ".toList.intercalate around.queries)

/-- The selectors, behind the media queries if there are any. -/
def scope (around : Surroundings) : List Char :=
  (if around.queries = [] then []
    else "@media ".toList ++ (" and ".toList.intercalate around.queries ++ [' '])) ++
    ", ".toList.intercalate around.selectors

end Surroundings

/-! ### What a tree holds -/

/-- The ordinary declarations that stand directly in a body. -/
def ordinary (body : List Item) : List Declaration :=
  body.filterMap fun
    | .declaration ⟨_, .property name, _⟩ value =>
      some ⟨String.ofList name.chars, String.ofList value.token.chars, .start⟩
    | _ => none

/-- What a body declares directly, once for each selector it applies to. -/
def rulesOf (around : Surroundings) (body : List Item) : List Rule :=
  if (ordinary body).isEmpty then []
  else
    around.selectors.map fun s =>
      { selector := String.ofList s
        declarations := ordinary body
        media := around.media.map String.ofList
        pos := .start }

mutual

/-- The custom properties of an item, in order. -/
def Item.variables (around : Surroundings) : Item → List Variable
  | .declaration ⟨_, .variable name, _⟩ value =>
    [{ name := String.ofList name.chars
       value := String.ofList value.token.chars
       purpose := .told name.chars value.token.chars
       scope := String.ofList around.scope
       pos := .start }]
  | .declaration _ _ => []
  | .rule first others body _ => Item.variablesIn (around.inRule first others) body
  | .media _ query _ body _ => Item.variablesIn (around.inMedia query.token.chars) body

def Item.variablesIn (around : Surroundings) : List Item → List Variable
  | [] => []
  | i :: is => i.variables around ++ Item.variablesIn around is

end

mutual

/-- The rules of an item: its own declarations first, then what its body holds. -/
def Item.rules (around : Surroundings) : Item → List Rule
  | .declaration _ _ => []
  | .rule first others body _ =>
    rulesOf (around.inRule first others) body ++ Item.rulesIn (around.inRule first others) body
  | .media _ query _ body _ =>
    rulesOf (around.inMedia query.token.chars) body ++
      Item.rulesIn (around.inMedia query.token.chars) body

def Item.rulesIn (around : Surroundings) : List Item → List Rule
  | [] => []
  | i :: is => i.rules around ++ Item.rulesIn around is

end

mutual

/-- The media queries of an item, outer ones first, each with the text of its body. -/
def Item.queries : Item → List MediaQuery
  | .declaration _ _ => []
  | .rule _ _ body _ => Item.queriesIn body
  | .media _ query _ body last =>
    ⟨String.ofList query.token.chars,
      String.ofList (trim (Item.writeAll Filler.blanked body last)), .start⟩ :: Item.queriesIn body

def Item.queriesIn : List Item → List MediaQuery
  | [] => []
  | i :: is => i.queries ++ Item.queriesIn is

end

/-- The class that a rule is about, with all that the rule says. -/
def classOf? (r : Rule) : Option StyledClass :=
  (Selector.className? r.selector.toList).map fun name =>
    { name := String.ofList name
      kind := if ClassKind.IsUtility name r.selector.toList r.declarations.length then .utility
        else .component
      selector := r.selector
      declarations := r.declarations
      media := r.media
      pos := r.pos }

/-- What a style sheet holds; its parts are all placed at the start. -/
def sheet (path : String) (d : Draft) : Sheet where
  path
  customProperties := Item.variablesIn {} d.items
  classes := (Item.rulesIn {} d.items).filterMap classOf?
  rules := Item.rulesIn {} d.items
  mediaQueries := Item.queriesIn d.items
  keyframes := []

/-! ### Selectors without blanks at their ends -/

/-- The text is not empty, and there are no blanks at its ends. -/
def Trimmed (s : List Char) : Prop := s ≠ [] ∧ trim s = s

section

variable {s t : List Char} {around : Surroundings}

theorem Trimmed.exists_cons (h : Trimmed s) : ∃ c cs, s = c :: cs ∧ isBlank c = false := by
  obtain ⟨c, cs, rfl⟩ := List.exists_cons_of_ne_nil h.1
  exact ⟨c, cs, rfl, isBlank_head_of_trim h.2⟩

theorem Trimmed.exists_concat (h : Trimmed s) : ∃ cs c, s = cs ++ [c] ∧ isBlank c = false := by
  rcases List.eq_nil_or_concat s with rfl | ⟨cs, c, rfl⟩
  · exact absurd rfl h.1
  · rw [List.concat_eq_append] at h ⊢
    exact ⟨cs, c, rfl, isBlank_last_of_trim h.2⟩

/-- A selector below another. -/
theorem Trimmed.below (hs : Trimmed s) (ht : Trimmed t) : Trimmed (s ++ ' ' :: t) := by
  obtain ⟨c, cs, rfl, hc⟩ := hs.exists_cons
  obtain ⟨ds, d, rfl, hd⟩ := ht.exists_concat
  refine ⟨List.cons_ne_nil _ _, trim_eq_self (fun e he => ?_) fun e he => ?_⟩
  · rwa [← Option.some.inj he]
  · rw [← List.cons_append, ← List.append_assoc, List.getLast?_concat] at he
    rwa [← Option.some.inj he]

theorem trimmed_of_mem_inRule (h : ∀ s ∈ around.selectors, Trimmed s) (first : Spaced SelectorText)
    (others : List (Spaced SelectorText)) :
    ∀ s ∈ (around.inRule first others).selectors, Trimmed s := by
  intro s hs
  obtain ⟨t, ht, hs⟩ := List.mem_flatMap.1 hs
  obtain ⟨u, -, rfl⟩ := List.mem_map.1 ht
  have htoken : Trimmed u.token.chars := ⟨u.token.ne_nil, u.token.trimmed⟩
  split at hs
  · obtain rfl := List.mem_singleton.1 hs
    exact htoken
  · obtain ⟨parent, hparent, rfl⟩ := List.mem_map.1 hs
    exact (h parent hparent).below htoken

theorem trimmed_of_mem_rulesOf (h : ∀ s ∈ around.selectors, Trimmed s) (body : List Item) :
    ∀ r ∈ rulesOf around body, Trimmed r.selector.toList := by
  intro r hr
  unfold rulesOf at hr
  split at hr
  · cases hr
  · obtain ⟨s, hs, rfl⟩ := List.mem_map.1 hr
    rw [String.toList_ofList]
    exact h s hs

end

mutual

theorem trimmed_of_mem_rules {around : Surroundings} (h : ∀ s ∈ around.selectors, Trimmed s) :
    ∀ i : Item, ∀ r ∈ i.rules around, Trimmed r.selector.toList
  | .declaration name value, r, hr => by
    rw [Item.rules] at hr
    cases hr
  | .rule first others body last, r, hr => by
    have hinside := trimmed_of_mem_inRule h first others
    rw [Item.rules] at hr
    exact (List.mem_append.1 hr).elim (trimmed_of_mem_rulesOf hinside body r)
      (trimmed_of_mem_rulesIn hinside body r)
  | .media before query apart body last, r, hr => by
    have hinside : ∀ s ∈ (around.inMedia query.token.chars).selectors, Trimmed s := h
    rw [Item.rules] at hr
    exact (List.mem_append.1 hr).elim (trimmed_of_mem_rulesOf hinside body r)
      (trimmed_of_mem_rulesIn hinside body r)

/-- No selector of a tree begins or ends with a blank. -/
theorem trimmed_of_mem_rulesIn {around : Surroundings} (h : ∀ s ∈ around.selectors, Trimmed s) :
    ∀ is : List Item, ∀ r ∈ Item.rulesIn around is, Trimmed r.selector.toList
  | [], r, hr => by
    rw [Item.rulesIn] at hr
    cases hr
  | i :: is, r, hr => by
    rw [Item.rulesIn] at hr
    exact (List.mem_append.1 hr).elim (trimmed_of_mem_rules h i r) (trimmed_of_mem_rulesIn h is r)

end

end Draft
end SheetAudit
