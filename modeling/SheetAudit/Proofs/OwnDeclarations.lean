import Mathlib.Data.List.Nodup
import Mathlib.Data.List.Pairwise
import SheetAudit.Proofs.Placement

/-!
# The declarations of a block

The declarations of a block are copied into every rule that the block makes.  So the rules of one
block have all their declarations in common, and those of two blocks have none in one place.

## Main definitions

* `Node.stated`, `Node.held` — the declaration of a statement, and those of a block.

## Main results

* `Node.perm_held` — of the declarations in a tree, each is a statement at the top or belongs to one
  block.
* `Reads.pos_ne_of_held` — **declarations of different blocks stand in different places.**
-/

namespace SheetAudit

open Source

namespace Node

/-! ### Statements and blocks -/

/-- The declaration that a statement makes. -/
def stated : Scope × Node → List Declaration
  | (_, .statement text) => (ownDeclaration? text).toList
  | (_, .block ..) => []

/-- The declarations that stand directly in a block. -/
def held : Scope × Node → List Declaration
  | (_, .statement _) => []
  | (_, .block _ _ body) => ownDeclarations body

/-- Of the declarations in a tree, each is a statement at the top or belongs to one block. -/
theorem perm_held (scope : Scope) : ∀ ns : List Node,
    ((walkIn scope ns).flatMap stated).Perm
      (ownDeclarations ns ++ (walkIn scope ns).flatMap held)
  | [] => .nil
  | .statement text :: ns => by
    have ih := perm_held scope ns
    rw [walkIn, walk, List.flatMap_append, List.flatMap_append, List.flatMap_singleton,
      List.flatMap_singleton, ownDeclarations_statement, List.append_assoc]
    exact ih.append_left _
  | .block prelude content body :: ns => by
    have ihBody := perm_held (scope.inside prelude) body
    have ih := perm_held scope ns
    have hheld : held (scope, .block prelude content body) = ownDeclarations body := rfl
    rw [walkIn, walk, List.flatMap_append, List.flatMap_append, List.flatMap_cons,
      List.flatMap_cons, ownDeclarations_block, hheld]
    -- what is stated in the body belongs to the block or to a block in it
    refine (ihBody.append ih).trans ?_
    rw [← List.append_assoc, ← List.append_assoc]
    exact List.perm_append_comm.append_right _

theorem stated_sublist_places (p : Scope × Node) :
    ((stated p).map (·.pos)).Sublist (places p) := by
  obtain ⟨scope, n⟩ := p
  cases n with
  | block prelude content body => exact List.nil_sublist _
  | statement text =>
    rw [stated]
    cases hd : ownDeclaration? text with
    | none => exact List.nil_sublist _
    | some d =>
      obtain ⟨name, value, hread, -⟩ := ownDeclaration?_eq_some hd
      obtain ⟨x, word, hin, -, hx, hblank⟩ := readDeclaration?_infix hread
      have hplace : d.pos ∈ places (scope, .statement text) :=
        hx ▸ mem_places hin (hblank x List.mem_cons_self)
      exact List.singleton_sublist.2 hplace

/-- The rules of a block have its declarations. -/
theorem declarations_of_mem_directRules {p : Scope × Node} {r : Rule} (h : r ∈ directRules p) :
    r.declarations = held p := by
  obtain ⟨scope, n⟩ := p
  cases n with
  | statement text => exact absurd h List.not_mem_nil
  | block prelude content body => exact (mem_ownRules h).2

end Node

/-! ### Places in different blocks -/

/-- No two declarations of two blocks, or of one, stand in one place. -/
theorem Reads.nodup_held {source : String} {xs : List Cell} {nodes : List Node}
    (hs : strip (cells source.toList) = .ok xs) (h : Reads (markStrings xs) nodes) :
    ((Node.walkIn {} nodes).flatMap fun p => (Node.held p).map (·.pos)).Nodup := by
  have hstated := h.pairwise_parts hs Node.stated_sublist_places
  have hnodup : (((Node.walkIn {} nodes).flatMap Node.stated).map (·.pos)).Nodup :=
    List.pairwise_map.2 (hstated.imp Pos.Before.ne)
  have hheld := ((Node.perm_held {} nodes).map (·.pos)).nodup_iff.1 hnodup
  rw [List.map_append, List.map_flatMap] at hheld
  exact hheld.of_append_right

/-- **Declarations of different blocks stand in different places.** -/
theorem Reads.pos_ne_of_held {source : String} {xs : List Cell} {nodes : List Node}
    (hs : strip (cells source.toList) = .ok xs) (h : Reads (markStrings xs) nodes) {i j : Nat}
    (hij : i ≠ j) {p q : Scope × Node} (hp : (Node.walkIn {} nodes)[i]? = some p)
    (hq : (Node.walkIn {} nodes)[j]? = some q) {d d' : Declaration} (hd : d ∈ Node.held p)
    (hd' : d' ∈ Node.held q) : d.pos ≠ d'.pos := by
  obtain ⟨-, hdisjoint⟩ := List.nodup_flatMap.1 (h.nodup_held hs)
  rw [List.pairwise_iff_getElem] at hdisjoint
  obtain ⟨hi, rfl⟩ := List.getElem?_eq_some_iff.1 hp
  obtain ⟨hj, rfl⟩ := List.getElem?_eq_some_iff.1 hq
  have hpos := List.mem_map_of_mem (f := Declaration.pos) hd
  have hpos' := List.mem_map_of_mem (f := Declaration.pos) hd'
  intro heq
  rcases Nat.lt_or_gt_of_ne hij with hlt | hlt
  · exact hdisjoint i j hi hj hlt hpos (heq ▸ hpos')
  · exact hdisjoint j i hj hi hlt hpos' (heq ▸ hpos)

end SheetAudit
