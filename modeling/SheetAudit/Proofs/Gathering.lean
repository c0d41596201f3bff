import SheetAudit.Offsets.Sheet
import SheetAudit.Proofs.Placement

/-!
# Gathering from the inside

A walk that comes to the end of a block before it knows its declarations meets the rules of the
block after those inside it.  It meets the same nodes as a walk from the outside, and the parts of
different nodes stand at different places; so sorting, which keeps the order of the parts at one
place, finds the order of the text.

## Main definitions

* `Node.walkUpIn` — the nodes of a tree, every node behind those it holds.
* `Sheet.gather` — a sheet after such a walk.

## Main results

* `mergeSort_eq_of_filter_ties` — what a stable sort leads to.
* `sortParts_gather` — **sorting the parts of a sheet brings them into the order of the text.**
-/

namespace SheetAudit

open Source Text

/-! ### Sorting what is in order but for its ties -/

section

variable {α : Type} {le : α → α → Bool} (trans : ∀ a b c, le a b → le b c → le a c)
  (total : ∀ a b, (le a b || le b a) = true)
include total

/-- Lists in order are equal if the members that compare equal are the same in both. -/
theorem eq_of_filter_ties {l m : List α} (hl : l.Pairwise fun a b => le a b = true)
    (hm : m.Pairwise fun a b => le a b = true)
    (h : ∀ a, (l.filter fun b => le a b && le b a) = m.filter fun b => le a b && le b a) :
    l = m := by
  have hrefl (a : α) : le a a = true := by simpa using total a a
  induction l generalizing m with
  | nil =>
    cases m with
    | nil => rfl
    | cons b m =>
      have hb := h b
      rw [List.filter_nil, List.filter_cons_of_pos (by simp [hrefl])] at hb
      cases hb
  | cons a l ih =>
    have ha := h a
    rw [List.filter_cons_of_pos (by simp [hrefl])] at ha
    cases m with
    | nil => cases ha
    | cons b m =>
      obtain ⟨hal, hl'⟩ := List.pairwise_cons.1 hl
      obtain ⟨hbm, hm'⟩ := List.pairwise_cons.1 hm
      -- the first of each list is in the other, so they compare equal
      have hba : le b a = true := by
        have hin : a ∈ (b :: m).filter fun c => le a c && le c a := ha ▸ List.mem_cons_self
        rcases List.mem_cons.1 (List.mem_filter.1 hin).1 with rfl | hin
        · exact hrefl a
        · exact hbm a hin
      have hab : le a b = true := by
        have hb := h b
        rw [List.filter_cons_of_pos (l := m) (by simp [hrefl])] at hb
        have hin : b ∈ (a :: l).filter fun c => le b c && le c b := hb ▸ List.mem_cons_self
        rcases List.mem_cons.1 (List.mem_filter.1 hin).1 with rfl | hin
        · exact hrefl b
        · exact hal b hin
      rw [List.filter_cons_of_pos (by simp [hab, hba])] at ha
      obtain ⟨rfl, -⟩ := List.cons.inj ha
      refine congrArg (a :: ·) (ih hl' hm' fun c => ?_)
      have hc := h c
      rw [List.filter_cons, List.filter_cons] at hc
      by_cases htie : (le c a && le a c) = true
      · rw [if_pos htie, if_pos htie] at hc
        exact (List.cons.inj hc).2
      · rwa [if_neg htie, if_neg htie] at hc

include trans

/-- Members that are in order already keep their order. -/
theorem filter_mergeSort_of_pairwise {l : List α} {p : α → Bool}
    (h : (l.filter p).Pairwise fun a b => le a b = true) :
    (l.mergeSort le).filter p = l.filter p := by
  have hsub : (l.filter p).Sublist ((l.mergeSort le).filter p) := by
    have hkept := (List.sublist_mergeSort trans total h List.filter_sublist).filter p
    rwa [List.filter_filter, List.filter_congr fun a _ => Bool.and_self (p a)] at hkept
  have hperm : ((l.mergeSort le).filter p).Perm (l.filter p) := (List.mergeSort_perm l le).filter p
  exact (hsub.eq_of_length hperm.length_eq.symm).symm

/-- Sorting finds the list in order whose members that compare equal are in the order they had. -/
theorem mergeSort_eq_of_filter_ties {l m : List α} (hm : m.Pairwise fun a b => le a b = true)
    (h : ∀ a, (l.filter fun b => le a b && le b a) = m.filter fun b => le a b && le b a) :
    l.mergeSort le = m := by
  refine eq_of_filter_ties total (List.pairwise_mergeSort trans total l) hm fun a => ?_
  have hties : (l.filter fun b => le a b && le b a).Pairwise fun b c => le b c = true := by
    rw [h a]
    exact hm.filter _
  rw [filter_mergeSort_of_pairwise trans total hties, h a]

end

/-- The order of the parts does not show where no more than one of them is left. -/
theorem flatMap_of_perm {ι α : Type} {f : ι → List α} {ps qs : List ι} (h : ps.Perm qs)
    (hone : ps.Pairwise fun p q => f p = [] ∨ f q = []) : qs.flatMap f = ps.flatMap f := by
  induction h with
  | nil => rfl
  | cons p _ ih => rw [List.flatMap_cons, List.flatMap_cons, ih (List.pairwise_cons.1 hone).2]
  | swap p q ps =>
    rw [List.flatMap_cons, List.flatMap_cons, List.flatMap_cons, List.flatMap_cons]
    rcases (List.pairwise_cons.1 hone).1 p List.mem_cons_self with hp | hq
    · simp [hp]
    · simp [hq]
  | trans hps hqs ih₁ ih₂ =>
    have hsymm {p q : ι} (h : f p = [] ∨ f q = []) : f q = [] ∨ f p = [] := h.symm
    rw [ih₂ ((hps.pairwise_iff hsymm).1 hone), ih₁ hone]

/-! ### Positions in order -/

namespace Pos

theorem le_trans (p q r : Pos) (h : p.le q = true) (h' : q.le r = true) : p.le r = true := by
  simp only [le, Bool.or_eq_true, Bool.and_eq_true, decide_eq_true_eq, beq_iff_eq] at *
  omega

theorem le_total (p q : Pos) : (p.le q || q.le p) = true := by
  simp only [le, Bool.or_eq_true, Bool.and_eq_true, decide_eq_true_eq, beq_iff_eq]
  omega

theorem le_refl (p : Pos) : p.le p = true := by
  simpa using le_total p p

theorem Before.le {p q : Pos} (h : p.Before q) : p.le q = true := by
  simp only [Before, Pos.le, Bool.or_eq_true, Bool.and_eq_true, decide_eq_true_eq,
    beq_iff_eq] at *
  omega

theorem eq_of_le {p q : Pos} (h : p.le q = true) (h' : q.le p = true) : p = q := by
  obtain ⟨l, c⟩ := p
  obtain ⟨l', c'⟩ := q
  simp only [le, Bool.or_eq_true, Bool.and_eq_true, decide_eq_true_eq, beq_iff_eq] at h h'
  rw [Pos.mk.injEq]
  omega

end Pos

/-- Parts that are gathered group by group are sorted into the groups in order, if each group is in
order itself and stands before the groups that follow it. -/
theorem mergeSort_flatMap_of_perm {ι α : Type} {f : ι → List α} {key : α → Pos} {ps qs : List ι}
    (h : ps.Perm qs) (hown : ∀ p ∈ ps, (f p).Pairwise fun a b => (key a).le (key b) = true)
    (hbefore : ps.Pairwise fun p q => ∀ a ∈ f p, ∀ b ∈ f q, (key a).Before (key b)) :
    (qs.flatMap f).mergeSort (fun a b => (key a).le (key b)) = ps.flatMap f := by
  have htrans (a b c : α) : (key a).le (key b) = true → (key b).le (key c) = true →
      (key a).le (key c) = true := Pos.le_trans _ _ _
  have htotal (a b : α) : ((key a).le (key b) || (key b).le (key a)) = true := Pos.le_total _ _
  refine mergeSort_eq_of_filter_ties htrans htotal ?_ fun a => ?_
  · refine List.pairwise_flatMap.2 ⟨hown, hbefore.imp fun {p q} h a ha b hb => (h a ha b hb).le⟩
  · rw [List.filter_flatMap, List.filter_flatMap]
    refine flatMap_of_perm h (hbefore.imp fun {p q} h => ?_)
    -- members of two groups do not stand at the same place
    rw [or_iff_not_imp_left]
    intro hne
    obtain ⟨b, hb⟩ := List.exists_mem_of_ne_nil _ hne
    obtain ⟨hb, hab⟩ := List.mem_filter.1 hb
    rw [List.filter_eq_nil_iff]
    intro c hc hac
    rw [Bool.and_eq_true] at hab hac
    have heq : key b = key c :=
      (Pos.eq_of_le hab.1 hab.2).symm.trans (Pos.eq_of_le hac.1 hac.2)
    exact (h b hb c hc).ne heq

/-! ### The parts of a node -/

theorem flatten_splitTop {α : Type} (char : α → Char) (depth : Nat) (xs : List α) :
    (Selector.splitTop char depth xs).flatten.Sublist xs := by
  induction xs generalizing depth with
  | nil => exact List.Sublist.refl []
  | cons x xs ih =>
    rw [Selector.splitTop]
    split
    · rw [List.flatten_cons, List.nil_append]
      exact (ih depth).cons x
    · have ih := ih (Selector.deepen depth (char x))
      cases hsplit : Selector.splitTop char (Selector.deepen depth (char x)) xs with
      | nil => exact List.Sublist.cons_cons x (List.nil_sublist xs)
      | cons piece pieces =>
        rw [hsplit] at ih
        exact ih.cons_cons x

/-- The selectors of a list stand one behind the other. -/
theorem sublist_entries {α : Type} (char : α → Char) (xs : List α) :
    ((Selector.entries char xs).map Prod.fst).Sublist xs := by
  refine List.Sublist.trans ?_ (flatten_splitTop char 0 xs)
  rw [Selector.entries]
  induction Selector.splitTop char 0 xs with
  | nil => exact List.Sublist.refl []
  | cons piece pieces ih =>
    rw [List.filterMap_eq_flatMap_toList, List.flatMap_cons, List.map_append,
      ← List.filterMap_eq_flatMap_toList, List.flatten_cons]
    refine List.Sublist.append ?_ ih
    rw [Selector.selectorOf?]
    split
    · exact List.nil_sublist piece
    · next x rest hdrop =>
      have hin : x ∈ piece := by
        have hsub := List.dropWhile_sublist (fun x => isBlank (char x)) (l := piece)
        rw [hdrop] at hsub
        exact hsub.subset List.mem_cons_self
      exact List.singleton_sublist.2 hin

/-- The selectors of a block are in the order of their places. -/
theorem pairwise_heads {scope : Scope} {prelude : List Cell}
    (h : ((prelude.filter fun x => !isBlank x.char).map Cell.pos).Pairwise Pos.Before) :
    (heads scope prelude).Pairwise fun a b => a.1.le b.1 = true := by
  unfold heads
  cases AtRule.of? (chars prelude) with
  | some rule =>
    cases prelude with
    | nil => exact List.Pairwise.nil
    | cons x xs => exact List.pairwise_map.2 (List.pairwise_of_forall fun _ _ => Pos.le_refl _)
  | none =>
    have hsub : ((Selector.entries Cell.char prelude).map Prod.fst).Sublist
        (prelude.filter fun x => !isBlank x.char) := by
      have hfilter := (sublist_entries Cell.char prelude).filter fun x => !isBlank x.char
      rwa [List.filter_eq_self.2] at hfilter
      intro x hx
      obtain ⟨e, he, rfl⟩ := List.mem_map.1 hx
      obtain ⟨x, word, -, -, hex, hblank⟩ := entries_infix he
      rw [hex, hblank x List.mem_cons_self]
      rfl
    have hentries := h.sublist (hsub.map Cell.pos)
    rw [List.map_map, List.pairwise_map] at hentries
    refine List.pairwise_flatMap.2 ⟨fun e _ => ?_, hentries.imp fun {e e'} hbefore a ha b hb => ?_⟩
    · exact List.pairwise_map.2 (List.pairwise_of_forall fun _ _ => Pos.le_refl _)
    · obtain ⟨s, -, rfl⟩ := List.mem_map.1 ha
      obtain ⟨s', -, rfl⟩ := List.mem_map.1 hb
      exact hbefore.le

namespace Node

theorem pos_of_directRules {p : Scope × Node} {r : Rule} (h : r ∈ directRules p) :
    r.pos ∈ places p := by
  obtain ⟨scope, n⟩ := p
  cases n with
  | statement text => exact absurd h List.not_mem_nil
  | block prelude content body =>
    obtain ⟨x, word, hin, hpos, hblank, -⟩ := heads_infix (mem_ownRules h).1
    rw [hpos]
    exact mem_places hin (hblank x List.mem_cons_self)

theorem pairwise_directRules {p : Scope × Node} (h : (places p).Pairwise Pos.Before) :
    (directRules p).Pairwise fun a b => a.pos.le b.pos = true := by
  obtain ⟨scope, n⟩ := p
  cases n with
  | statement text => exact List.Pairwise.nil
  | block prelude content body =>
    rw [directRules, ownRules]
    split
    · exact List.Pairwise.nil
    · exact List.pairwise_map.2 (pairwise_heads h)

theorem pairwise_ownVariables (p : Scope × Node) :
    (ownVariables p).Pairwise fun a b => a.pos.le b.pos = true := by
  obtain ⟨scope, n⟩ := p
  cases n with
  | statement text =>
    rw [ownVariables]
    cases readVariable? scope text with
    | none => exact List.Pairwise.nil
    | some v => exact List.pairwise_singleton _ v
  | block prelude content body => exact List.Pairwise.nil

end Node

/-! ### Gathering from the inside -/

namespace Sheet

/-- The sheet with more rules, and the classes that they define. -/
def addRules (rules : List Rule) (s : Sheet) : Sheet :=
  { s with
    rules := s.rules ++ rules
    classes := s.classes ++ rules.filterMap Rule.class? }

theorem addRules_nil (s : Sheet) : s.addRules [] = s := by
  rw [addRules, List.filterMap_nil, List.append_nil, List.append_nil]

theorem addRules_append (rules rules' : List Rule) (s : Sheet) :
    s.addRules (rules ++ rules') = (s.addRules rules).addRules rules' := by
  rw [addRules, addRules, addRules, List.filterMap_append, List.append_assoc, List.append_assoc]

theorem addRules_singleton (r : Rule) (s : Sheet) :
    s.addRules [r] =
      { s with rules := s.rules ++ [r], classes := s.classes ++ r.class?.toList } := by
  rw [addRules, List.filterMap_eq_flatMap_toList, List.flatMap_singleton]

end Sheet

namespace Node

mutual

/-- The nodes that a node holds and then the node, each with its scope. -/
def walkUp (scope : Scope) : Node → List (Scope × Node)
  | .statement text => [(scope, .statement text)]
  | .block prelude content body =>
    walkUpIn (scope.inside prelude) body ++ [(scope, .block prelude content body)]

def walkUpIn (scope : Scope) : List Node → List (Scope × Node)
  | [] => []
  | n :: ns => n.walkUp scope ++ walkUpIn scope ns

end

end Node

namespace Sheet

/-- The sheet after a walk over some nodes: the rules of a block come after those inside it. -/
def gather (scope : Scope) (nodes : List Node) (s : Sheet) : Sheet :=
  addRules ((Node.walkUpIn scope nodes).flatMap Node.directRules)
    { s with
      customProperties := s.customProperties ++ Node.customPropertiesIn scope nodes
      mediaQueries := s.mediaQueries ++ Node.mediaQueriesIn nodes
      keyframes := s.keyframes ++ Node.keyframesIn nodes }

/-- The sheet with what the prelude of a block adds to it. -/
def addHead (prelude content : List Cell) (s : Sheet) : Sheet :=
  { s with
    mediaQueries := s.mediaQueries ++ Node.ownQueries ({}, .block prelude content [])
    keyframes := s.keyframes ++ Node.ownKeyframes ({}, .block prelude content []) }

theorem gather_nil (scope : Scope) (s : Sheet) : s.gather scope [] = s := by
  simp [gather, addRules, Node.walkUpIn, Node.customPropertiesIn, Node.mediaQueriesIn,
    Node.keyframesIn]

theorem gather_statement (scope : Scope) (text : List Cell) (nodes : List Node) (s : Sheet) :
    s.gather scope (.statement text :: nodes) =
      gather scope nodes
        { s with customProperties := s.customProperties ++ (readVariable? scope text).toList } := by
  simp [gather, addRules, Node.walkUpIn, Node.walkUp, Node.directRules, Node.customPropertiesIn,
    Node.customProperties, Node.mediaQueriesIn, Node.mediaQueries, Node.keyframesIn,
    Node.keyframes]

theorem gather_block (scope : Scope) (prelude content : List Cell) (body nodes : List Node)
    (s : Sheet) :
    s.gather scope (.block prelude content body :: nodes) =
      gather scope nodes (addRules (ownRules scope prelude body)
        (gather (scope.inside prelude) body (addHead prelude content s))) := by
  have hqueries : Node.mediaQueries (.block prelude content body) =
      Node.ownQueries ({}, .block prelude content []) ++ Node.mediaQueriesIn body := by
    rw [Node.mediaQueries.eq_def]
    rfl
  have hkeyframes : Node.keyframes (.block prelude content body) =
      Node.ownKeyframes ({}, .block prelude content []) ++ Node.keyframesIn body := by
    rw [Node.keyframes.eq_def]
    rfl
  simp [gather, addRules, addHead, Node.walkUpIn, Node.walkUp, Node.directRules,
    Node.customPropertiesIn, Node.customProperties, Node.mediaQueriesIn, hqueries,
    Node.keyframesIn, hkeyframes]

end Sheet

namespace Node

mutual

theorem perm_walkUp (scope : Scope) : ∀ n : Node, (n.walk scope).Perm (n.walkUp scope)
  | .statement text => List.Perm.refl _
  | .block prelude content body => by
    rw [walk, walkUp]
    exact ((perm_walkUpIn _ body).cons _).trans (List.perm_append_singleton _ _).symm

/-- Both walks meet the same nodes. -/
theorem perm_walkUpIn (scope : Scope) : ∀ ns : List Node,
    (walkIn scope ns).Perm (walkUpIn scope ns)
  | [] => List.Perm.refl _
  | n :: ns => (perm_walkUp scope n).append (perm_walkUpIn scope ns)

end

end Node

section

variable {source : String} {xs : List Cell} {nodes : List Node}
  (hs : strip (cells source.toList) = .ok xs) (h : Reads (markStrings xs) nodes)
include hs h

/-- What the nodes of a tree add to a sheet is sorted into the order of the text. -/
theorem mergeSort_flatMap {α : Type} (f : Scope × Node → List α) (key : α → Pos)
    {ps : List (Scope × Node)} (hperm : (Node.walkIn {} nodes).Perm ps)
    (hpos : ∀ p, ∀ a ∈ f p, key a ∈ Node.places p)
    (hown : ∀ p, (Node.places p).Pairwise Pos.Before →
      (f p).Pairwise fun a b => (key a).le (key b) = true) :
    (ps.flatMap f).mergeSort (fun a b => (key a).le (key b)) =
      (Node.walkIn {} nodes).flatMap f := by
  obtain ⟨hplaces, hbefore⟩ := List.pairwise_flatMap.1 (h.pairwise_places hs {})
  refine mergeSort_flatMap_of_perm hperm (fun p hp => hown p (hplaces p hp))
    (hbefore.imp fun {p q} hpq a ha b hb => ?_)
  exact hpq _ (hpos p a ha) _ (hpos q b hb)

/-- **Sorting the parts of a sheet brings them into the order of the text.** -/
theorem sortParts_gather (path : String) :
    Offsets.sortParts (Sheet.gather {} nodes { path }) = Sheet.ofNodes path nodes := by
  have hup := Node.perm_walkUpIn {} nodes
  have hclass {r : Rule} {c : StyledClass} (hc : r.class? = some c) : c.pos = r.pos := by
    obtain ⟨name, -, rfl⟩ := Option.map_eq_some_iff.1 hc
    rfl
  have hvariables := mergeSort_flatMap hs h Node.ownVariables Variable.pos (List.Perm.refl _)
    (fun p v => Node.pos_of_ownVariables) fun p _ => Node.pairwise_ownVariables p
  have hrules := mergeSort_flatMap hs h Node.directRules Rule.pos hup
    (fun p r => Node.pos_of_directRules) fun p => Node.pairwise_directRules
  have hclasses := mergeSort_flatMap hs h (fun p => (Node.directRules p).filterMap Rule.class?)
    StyledClass.pos hup
    (fun p c hc => by
      obtain ⟨r, hr, hc⟩ := List.mem_filterMap.1 hc
      rw [hclass hc]
      exact Node.pos_of_directRules hr)
    fun p hp => List.Pairwise.filterMap Rule.class?
      (fun r r' hrr' c hc c' hc' => by rwa [hclass hc, hclass hc'])
      (Node.pairwise_directRules hp)
  rw [← List.filterMap_flatMap, ← List.filterMap_flatMap] at hclasses
  rw [Sheet.ofNodes, Node.rulesIn_eq, Node.customPropertiesIn_eq, ← hclasses, ← hvariables,
    ← hrules, Offsets.sortParts, Sheet.gather, Sheet.addRules, Node.customPropertiesIn_eq]
  simp only [List.nil_append]

end

end SheetAudit
