import SheetAudit.Proofs.Braces
import SheetAudit.Sheet.Reading

/-!
# Walking the tree

The parts of a style sheet are gathered by four recursions of one shape.  Each is a walk over the
nodes of the tree, outer ones first, every node with the scope it stands in, and a look at each
node alone.

## Main definitions

* `Node.walkIn` — the nodes of a tree in the order of the text, each with its scope.
* `Node.ownVariables`, `Node.directRules`, `Node.ownQueries`, `Node.ownKeyframes` — what a single
  node adds to a style sheet.

## Main results

* `customPropertiesIn_eq`, `rulesIn_eq`, `mediaQueriesIn_eq`, `keyframesIn_eq` — the recursions are
  walks.
* `Reads.outer_infix`, `Reads.sublist_outer` — **the texts of the nodes stand in the text that was
  read, in order and each in a place of its own.**
-/

namespace SheetAudit

open Source Text

namespace Node

mutual

/-- A node and the nodes it holds, each with its scope. -/
def walk (scope : Scope) : Node → List (Scope × Node)
  | .statement text => [(scope, .statement text)]
  | .block prelude content body =>
    (scope, .block prelude content body) :: walkIn (scope.inside prelude) body

def walkIn (scope : Scope) : List Node → List (Scope × Node)
  | [] => []
  | n :: ns => n.walk scope ++ walkIn scope ns

end

/-! ### What a node adds -/

def ownVariables : Scope × Node → List Variable
  | (scope, .statement text) => (readVariable? scope text).toList
  | (_, .block ..) => []

def directRules : Scope × Node → List Rule
  | (_, .statement _) => []
  | (scope, .block prelude _ body) => ownRules scope prelude body

def ownQueries : Scope × Node → List MediaQuery
  | (_, .statement _) => []
  | (_, .block prelude content _) =>
    match AtRule.of? (chars prelude), prelude with
    | some (.media query), x :: _ =>
      [⟨String.ofList query, String.ofList (trim (chars content)), x.pos⟩]
    | _, _ => []

def ownKeyframes : Scope × Node → List Keyframes
  | (_, .statement _) => []
  | (_, .block prelude _ _) =>
    match AtRule.of? (chars prelude), prelude with
    | some (.keyframes name), x :: _ => [⟨String.ofList name, x.pos⟩]
    | _, _ => []

theorem ownDeclarations_statement (text : List Cell) (ns : List Node) :
    ownDeclarations (.statement text :: ns) =
      (ownDeclaration? text).toList ++ ownDeclarations ns := by
  simp only [ownDeclarations, List.filterMap_cons]
  cases ownDeclaration? text <;> rfl

theorem ownDeclarations_block (prelude content : List Cell) (body ns : List Node) :
    ownDeclarations (.block prelude content body :: ns) = ownDeclarations ns := rfl

/-! ### The recursions are walks -/

mutual

theorem customProperties_eq (scope : Scope) :
    ∀ n : Node, n.customProperties scope = (n.walk scope).flatMap ownVariables
  | .statement text => by
    rw [Node.customProperties, walk, List.flatMap_singleton, ownVariables]
  | .block prelude content body => by
    rw [Node.customProperties, walk, List.flatMap_cons, customPropertiesIn_eq _ body]
    rfl

theorem customPropertiesIn_eq (scope : Scope) :
    ∀ ns : List Node, customPropertiesIn scope ns = (walkIn scope ns).flatMap ownVariables
  | [] => rfl
  | n :: ns => by
    rw [customPropertiesIn, walkIn, List.flatMap_append, customProperties_eq scope n,
      customPropertiesIn_eq scope ns]

end

mutual

theorem rules_eq (scope : Scope) :
    ∀ n : Node, n.rules scope = (n.walk scope).flatMap directRules
  | .statement text => rfl
  | .block prelude content body => by
    rw [Node.rules, walk, List.flatMap_cons, rulesIn_eq _ body]
    rfl

theorem rulesIn_eq (scope : Scope) :
    ∀ ns : List Node, rulesIn scope ns = (walkIn scope ns).flatMap directRules
  | [] => rfl
  | n :: ns => by
    rw [rulesIn, walkIn, List.flatMap_append, rules_eq scope n, rulesIn_eq scope ns]

end

mutual

theorem mediaQueries_eq (scope : Scope) :
    ∀ n : Node, n.mediaQueries = (n.walk scope).flatMap ownQueries
  | .statement text => rfl
  | .block prelude content body => by
    rw [Node.mediaQueries.eq_def, walk, List.flatMap_cons]
    dsimp only
    rw [mediaQueriesIn_eq _ body]
    rfl

/-- Media queries do not depend on the scope. -/
theorem mediaQueriesIn_eq (scope : Scope) :
    ∀ ns : List Node, mediaQueriesIn ns = (walkIn scope ns).flatMap ownQueries
  | [] => rfl
  | n :: ns => by
    rw [mediaQueriesIn, walkIn, List.flatMap_append, mediaQueries_eq scope n,
      mediaQueriesIn_eq scope ns]

end

mutual

theorem keyframes_eq (scope : Scope) :
    ∀ n : Node, n.keyframes = (n.walk scope).flatMap ownKeyframes
  | .statement text => rfl
  | .block prelude content body => by
    rw [Node.keyframes.eq_def, walk, List.flatMap_cons]
    dsimp only
    rw [keyframesIn_eq _ body]
    rfl

theorem keyframesIn_eq (scope : Scope) :
    ∀ ns : List Node, keyframesIn ns = (walkIn scope ns).flatMap ownKeyframes
  | [] => rfl
  | n :: ns => by
    rw [keyframesIn, walkIn, List.flatMap_append, keyframes_eq scope n, keyframesIn_eq scope ns]

end

/-! ### Nodes below nodes -/

theorem mem_walk_self (scope : Scope) (n : Node) : (scope, n) ∈ n.walk scope := by
  cases n <;> simp [walk]

theorem mem_walkIn {scope : Scope} {n : Node} {ns : List Node} {p : Scope × Node} (hn : n ∈ ns)
    (hp : p ∈ n.walk scope) : p ∈ walkIn scope ns := by
  induction ns with
  | nil => exact absurd hn List.not_mem_nil
  | cons m ns ih =>
    rw [walkIn, List.mem_append]
    rcases List.mem_cons.1 hn with rfl | hn
    · exact .inl hp
    · exact .inr (ih hn)

mutual

theorem mem_walk_body {outer inner : Scope} {prelude content : List Cell} {body : List Node}
    {child : Node} (hc : child ∈ body) : ∀ n : Node,
    (inner, .block prelude content body) ∈ n.walk outer →
    (inner.inside prelude, child) ∈ n.walk outer
  | .statement text, h => by simp [walk] at h
  | .block p c b, h => by
    rw [walk, List.mem_cons] at h ⊢
    rcases h with h | h
    · simp only [Prod.mk.injEq, Node.block.injEq] at h
      obtain ⟨rfl, rfl, rfl, rfl⟩ := h
      exact .inr (mem_walkIn hc (mem_walk_self _ child))
    · exact .inr (mem_walkIn_body hc b h)

/-- The nodes that a block of the tree holds are met on the walk as well. -/
theorem mem_walkIn_body {outer inner : Scope} {prelude content : List Cell} {body : List Node}
    {child : Node} (hc : child ∈ body) : ∀ ns : List Node,
    (inner, .block prelude content body) ∈ walkIn outer ns →
    (inner.inside prelude, child) ∈ walkIn outer ns
  | [], h => absurd h List.not_mem_nil
  | n :: ns, h => by
    rw [walkIn, List.mem_append] at h ⊢
    rcases h with h | h
    · exact .inl (mem_walk_body hc n h)
    · exact .inr (mem_walkIn_body hc ns h)

end

end Node

/-! ### Where the texts stand -/

theorem infix_preludeOf (before : List Cell) : preludeOf before <:+: before := by
  obtain ⟨left, right, h, -⟩ := exists_append_preludeOf before
  exact ⟨left, right, by rw [List.append_assoc]; exact h.symm⟩

/-- The text of every node is a part of the text that was read. -/
theorem Reads.outer_infix {xs : List Cell} {nodes : List Node} (h : Reads xs nodes)
    {outer scope : Scope} {n : Node} (hn : (scope, n) ∈ Node.walkIn outer nodes) :
    n.outer <:+: xs := by
  induction h generalizing outer with
  | nil => exact absurd hn List.not_mem_nil
  | last =>
    simp only [Node.walkIn, Node.walk, List.append_nil, List.mem_singleton, Prod.mk.injEq] at hn
    obtain ⟨-, rfl⟩ := hn
    exact List.infix_refl _
  | @statement text rest nodes semicolon _ _ _ ih =>
    rw [Node.walkIn, Node.walk, List.mem_append, List.mem_singleton, Prod.mk.injEq] at hn
    rcases hn with ⟨-, rfl⟩ | hn
    · exact (List.prefix_append text _).isInfix
    · exact (ih hn).trans ⟨text ++ [semicolon], [], by simp⟩
  | @block before content rest body nodes opening closing _ _ _ _ _ _ _ ihBody ih =>
    rw [Node.walkIn, Node.walk, List.cons_append, List.mem_cons, List.mem_append,
      Prod.mk.injEq] at hn
    rcases hn with ⟨-, rfl⟩ | hn | hn
    · exact (infix_preludeOf before).trans (List.prefix_append before _).isInfix
    · exact (ihBody hn).trans ⟨before ++ [opening], closing :: rest, by simp⟩
    · exact (ih hn).trans ⟨before ++ opening :: (content ++ [closing]), [], by simp⟩
  | @kept before content rest nodes opening closing _ _ _ _ _ _ ih =>
    rw [Node.walkIn, Node.walk, Node.walkIn, List.cons_append, List.mem_cons, List.nil_append,
      Prod.mk.injEq] at hn
    rcases hn with ⟨-, rfl⟩ | hn
    · exact (infix_preludeOf before).trans (List.prefix_append before _).isInfix
    · exact (ih hn).trans ⟨before ++ opening :: (content ++ [closing]), [], by simp⟩

/-- The texts of the nodes one after the other are what is left of the text that was read. -/
theorem Reads.sublist_outer {xs : List Cell} {nodes : List Node} (h : Reads xs nodes)
    (scope : Scope) :
    List.Sublist ((Node.walkIn scope nodes).flatMap fun p => p.2.outer) xs := by
  induction h generalizing scope with
  | nil => exact List.Sublist.refl []
  | last => simp [Node.walkIn, Node.walk, Node.outer]
  | @statement text rest nodes semicolon _ _ _ ih =>
    rw [Node.walkIn, Node.walk, List.flatMap_append, List.flatMap_singleton]
    exact List.Sublist.append (List.Sublist.refl text) (.cons semicolon (ih scope))
  | @block before content rest body nodes opening closing _ _ _ _ _ _ _ ihBody ih =>
    -- the two braces are left out, and of the content what its nodes leave out
    rw [Node.walkIn, Node.walk, List.flatMap_append, List.flatMap_cons, List.append_assoc]
    refine List.Sublist.append (infix_preludeOf before).sublist (.cons opening ?_)
    exact List.Sublist.append (ihBody _) (.cons closing (ih scope))
  | @kept before content rest nodes opening closing _ _ _ _ _ _ ih =>
    rw [Node.walkIn, Node.walk, List.flatMap_append, List.flatMap_cons, List.append_assoc]
    refine List.Sublist.append (infix_preludeOf before).sublist (.cons opening ?_)
    refine List.Sublist.append (List.nil_sublist content) (.cons closing (ih scope))

end SheetAudit
