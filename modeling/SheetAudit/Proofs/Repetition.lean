import Mathlib.Data.List.Forall2
import Mathlib.Data.List.Induction
import Mathlib.Data.List.Sort
import Mathlib.Data.String.Basic
import SheetAudit.Proofs.Firsts
import SheetAudit.Proofs.OwnDeclarations
import SheetAudit.Rules.Quality

/-!
# Classes that say the same

Classes are compared by their declarations in an order of their own, so that it does not matter in
which order these are written.  The classes of one rule have their declarations in common and are
told from the others by the place of the first one.  Any order leads to the same, as long as it is
the same for all classes of a rule: two rules have no declaration in one place.

## Main definitions

* `Sheet.Ruled` — the classes of one rule share their declarations, those of two have none in one
  place.
* `Sheet.MadeBy` — the classes of a sheet and the nodes of the tree that make them.
* `Sheet.reorder` — the declarations of each rule in another order.
* `Quality.IsRepeat` — a class says what the first such class says, which is that of another rule.
* `Quality.Reported` — findings report the classes in some places, each with the first that says the
  same.

## Main results

* `Repeats.mem_repeats_iff` — a repeat is found with the first member of its key.
* `Sheet.exists_ruled` — the rules of a source text are blocks of its tree.
* `Quality.signature_perm` — the signature does not depend on the order of the declarations.
* `Quality.mem_repeated_iff` — the classes that are found are the repeats.
* `Quality.repetitions_reorder` — **findings about classes that say the same do not depend on the
  order of the declarations.**
-/

namespace SheetAudit

namespace Repeats

variable {α β κ : Type} [BEq κ]

/-! ### Repeats -/

theorem repeatsFrom_map (f : α → β) (key : β → κ) (seen xs : List α) :
    repeatsFrom key (seen.map f) (xs.map f) =
      (repeatsFrom (key ∘ f) seen xs).map (Prod.map f f) := by
  induction xs generalizing seen with
  | nil => rfl
  | cons x xs ih =>
    have hfind : (seen.map f).find? (fun y => key y == key (f x)) =
        (seen.find? fun y => (key ∘ f) y == (key ∘ f) x).map f := by
      rw [List.find?_map]
      rfl
    rw [List.map_cons, repeatsFrom, repeatsFrom, hfind]
    cases seen.find? fun y => (key ∘ f) y == (key ∘ f) x with
    | none => exact ih (x :: seen)
    | some y => exact congrArg _ (ih seen)

theorem repeats_map (f : α → β) (key : β → κ) (xs : List α) :
    repeats key (xs.map f) = (repeats (key ∘ f) xs).map (Prod.map f f) :=
  repeatsFrom_map f key [] xs

theorem repeatsFrom_sublist (key : α → κ) (seen xs : List α) :
    ((repeatsFrom key seen xs).map Prod.snd).Sublist xs := by
  induction xs generalizing seen with
  | nil => exact .slnil
  | cons x xs ih =>
    rw [repeatsFrom]
    split
    · exact (ih seen).cons_cons x
    · exact (ih _).cons x

/-- Repeats are in the order of the members. -/
theorem repeats_sublist (key : α → κ) (xs : List α) :
    ((repeats key xs).map Prod.snd).Sublist xs :=
  repeatsFrom_sublist key [] xs

theorem repeats_concat [LawfulBEq κ] (key : α → κ) (xs : List α) (x : α) :
    repeats key (xs ++ [x]) =
      repeats key xs ++ ((xs.find? fun y => key y == key x).map fun y => (y, x)).toList := by
  obtain ⟨later, happend, hlater⟩ := exists_repeats_append key xs x []
  have hnil : later = [] := List.eq_nil_iff_forall_not_mem.2 fun p hp => nomatch hlater p hp
  rw [happend, hnil, List.append_nil]

/-- A repeat is found with the first member that has its key. -/
theorem mem_repeats_iff [LawfulBEq κ] {key : α → κ} {xs : List α} {x y : α} :
    (y, x) ∈ repeats key xs ↔ ∃ before after, xs = before ++ x :: after ∧
      (before.find? fun z => key z == key x) = some y := by
  induction xs using List.reverseRecOn with
  | nil => simp [repeats, repeatsFrom]
  | append_singleton xs z ih =>
    rw [repeats_concat, List.mem_append, ih, Option.mem_toList, Option.map_eq_some_iff]
    constructor
    · rintro (⟨before, after, rfl, hfind⟩ | ⟨y', hfind, heq⟩)
      · exact ⟨before, after ++ [z], by simp, hfind⟩
      · obtain ⟨rfl, rfl⟩ := Prod.mk.inj heq
        exact ⟨xs, [], rfl, hfind⟩
    · rintro ⟨before, after, happend, hfind⟩
      rcases List.eq_nil_or_concat after with rfl | ⟨after, w, rfl⟩
      · obtain ⟨rfl, hz⟩ := List.append_inj' happend rfl
        obtain rfl := List.singleton_inj.1 hz
        exact .inr ⟨y, hfind, rfl⟩
      · rw [List.concat_eq_append, ← List.cons_append, ← List.append_assoc] at happend
        obtain ⟨rfl, -⟩ := List.append_inj' happend rfl
        exact .inl ⟨before, after, rfl, hfind⟩

end Repeats

/-! ### Classes and their rules -/

namespace Sheet

variable {ι : Type} {block : Nat → ι} {s : Sheet}

/-- The class in place `i` is that of the rule `block i`.  Classes of one rule share their
declarations, and those of two rules have none in one place. -/
structure Ruled (block : Nat → ι) (s : Sheet) : Prop where
  shared : ∀ i j c c', s.classes[i]? = some c → s.classes[j]? = some c' → block i = block j →
    c.declarations = c'.declarations
  apart : ∀ i j c c', s.classes[i]? = some c → s.classes[j]? = some c' → block i ≠ block j →
    ∀ d ∈ c.declarations, ∀ d' ∈ c'.declarations, d.pos ≠ d'.pos

/-- The class in place `i` is made by the node in place `block i` of the walk over the tree. -/
def MadeBy (nodes : List Node) (block : Nat → Nat) (s : Sheet) : Prop :=
  ∀ i c, s.classes[i]? = some c → ∃ p, (Node.walkIn {} nodes)[block i]? = some p ∧
    c ∈ (Node.directRules p).filterMap Rule.class?

/-- The declarations of each rule in another order, the same for all classes of the rule. -/
def reorder (block : Nat → ι) (permute : ι → List Declaration → List Declaration) (s : Sheet) :
    Sheet :=
  { s with classes := s.classes.mapIdx fun i c =>
      { c with declarations := permute (block i) c.declarations } }

theorem getElem?_reorder (permute : ι → List Declaration → List Declaration) (i : Nat) :
    (s.reorder block permute).classes[i]? = s.classes[i]?.map fun c =>
      { c with declarations := permute (block i) c.declarations } :=
  List.getElem?_mapIdx

theorem Ruled.reorder {permute : ι → List Declaration → List Declaration} (h : s.Ruled block)
    (hperm : ∀ k ds, (permute k ds).Perm ds) : (s.reorder block permute).Ruled block where
  shared i j c c' hc hc' heq := by
    rw [getElem?_reorder, Option.map_eq_some_iff] at hc hc'
    obtain ⟨c, hc, rfl⟩ := hc
    obtain ⟨c', hc', rfl⟩ := hc'
    exact congrArg₂ permute heq (h.shared i j c c' hc hc' heq)
  apart i j c c' hc hc' hne d hd d' hd' := by
    rw [getElem?_reorder, Option.map_eq_some_iff] at hc hc'
    obtain ⟨c, hc, rfl⟩ := hc
    obtain ⟨c', hc', rfl⟩ := hc'
    exact h.apart i j c c' hc hc' hne d ((hperm _ _).subset hd) d' ((hperm _ _).subset hd')

/-- Every class is made by a node of the tree. -/
theorem exists_madeBy (path : String) (nodes : List Node) :
    ∃ block, (ofNodes path nodes).MadeBy nodes block := by
  have hmade : ∀ i : Nat, ∃ k : Nat, ∀ c, (ofNodes path nodes).classes[i]? = some c →
      ∃ p, (Node.walkIn {} nodes)[k]? = some p ∧
        c ∈ (Node.directRules p).filterMap Rule.class? := by
    intro i
    cases hc : (ofNodes path nodes).classes[i]? with
    | none => exact ⟨0, nofun⟩
    | some c =>
      have hmem := List.mem_of_getElem? hc
      rw [ofNodes, Node.rulesIn_eq, List.filterMap_flatMap] at hmem
      obtain ⟨p, hp, hmem⟩ := List.mem_flatMap.1 hmem
      obtain ⟨k, hk⟩ := List.mem_iff_getElem?.1 hp
      exact ⟨k, fun c' hc' => ⟨p, hk, Option.some.inj hc' ▸ hmem⟩⟩
  choose block hblock using hmade
  exact ⟨block, hblock⟩

theorem MadeBy.exists_held {nodes : List Node} {block : Nat → Nat} (h : s.MadeBy nodes block)
    {i : Nat} {c : StyledClass} (hc : s.classes[i]? = some c) :
    ∃ p, (Node.walkIn {} nodes)[block i]? = some p ∧ c.declarations = Node.held p := by
  obtain ⟨p, hp, hmem⟩ := h i c hc
  obtain ⟨r, hr, hclass⟩ := List.mem_filterMap.1 hmem
  obtain ⟨name, -, rfl⟩ := Option.map_eq_some_iff.1 hclass
  exact ⟨p, hp, Node.declarations_of_mem_directRules hr⟩

/-- The rules of a source text are blocks of its tree. -/
theorem exists_ruled {path source : String} (h : Sheet.parse path source = .ok s) :
    ∃ nodes block, readTree source.toList = .ok nodes ∧ s.MadeBy nodes block ∧ s.Ruled block := by
  obtain ⟨nodes, hnodes, rfl⟩ := parse_eq_ok h
  obtain ⟨xs, hxs, hreads⟩ := readTree_eq_ok hnodes
  obtain ⟨block, hmade⟩ := exists_madeBy path nodes
  refine ⟨nodes, block, hnodes, hmade, ?_, ?_⟩
  · intro i j c c' hc hc' heq
    obtain ⟨p, hp, hheld⟩ := hmade.exists_held hc
    obtain ⟨q, hq, hheld'⟩ := hmade.exists_held hc'
    rw [heq, hq] at hp
    rw [hheld, hheld', Option.some.inj hp]
  · intro i j c c' hc hc' hne d hd d' hd'
    obtain ⟨p, hp, hheld⟩ := hmade.exists_held hc
    obtain ⟨q, hq, hheld'⟩ := hmade.exists_held hc'
    exact hreads.pos_ne_of_held hxs hne hp hq (hheld ▸ hd) (hheld' ▸ hd')

end Sheet

namespace Quality

open Text

/-! ### Signatures -/

/-- The signature does not depend on the order of the declarations. -/
theorem signature_perm {c c' : StyledClass} (h : c.declarations.Perm c'.declarations) :
    signature c = signature c' := by
  have htrans (x y z : String) (hxy : decide (x ≤ y) = true) (hyz : decide (y ≤ z) = true) :
      decide (x ≤ z) = true := by
    rw [decide_eq_true_eq] at hxy hyz ⊢
    exact hxy.trans hyz
  have htotal (x y : String) : (decide (x ≤ y) || decide (y ≤ x)) = true := by
    rw [Bool.or_eq_true, decide_eq_true_eq, decide_eq_true_eq]
    exact le_total x y
  have hsorted (xs : List String) : (xs.mergeSort fun x y => decide (x ≤ y)).Pairwise
      fun x y => decide (x ≤ y) = true :=
    List.pairwise_mergeSort htrans htotal xs
  have hpairs := h.map fun d => asciiLower d.name ++ ":" ++ String.ofList (trim d.value.toList)
  have hperm := ((List.mergeSort_perm _ fun x y : String => decide (x ≤ y)).trans hpairs).trans
    (List.mergeSort_perm _ fun x y : String => decide (x ≤ y)).symm
  refine congrArg (String.intercalate ";") ?_
  refine hperm.eq_of_pairwise (fun x y _ _ hxy hyx => ?_) (hsorted _) (hsorted _)
  exact le_antisymm (of_decide_eq_true hxy) (of_decide_eq_true hyx)

/-! ### Repeats among the classes -/

/-- The class has declarations and stands outside of media queries. -/
def Counts (c : StyledClass) : Prop := c.media = none ∧ c.declarations ≠ []

/-- In place `i` is the first class that counts and has the signature. -/
def IsFirstWith (sig : String) (classes : List StyledClass) (i : Nat) : Prop :=
  (∃ c, classes[i]? = some c ∧ Counts c ∧ signature c = sig) ∧
    ∀ k < i, ∀ c, classes[k]? = some c → Counts c → signature c ≠ sig

/-- The class in place `j` counts, and the first with its signature, the one in place `i`, is that
of another rule. -/
def IsRepeat {ι : Type} (block : Nat → ι) (classes : List StyledClass) (i j : Nat) : Prop :=
  (∃ c, classes[j]? = some c ∧ Counts c ∧ IsFirstWith (signature c) classes i) ∧
    block i ≠ block j

theorem IsRepeat.exists_classes {ι : Type} {block : Nat → ι} {classes : List StyledClass}
    {i j : Nat} (h : IsRepeat block classes i j) :
    ∃ first c, classes[i]? = some first ∧ classes[j]? = some c := by
  obtain ⟨⟨c, hc, -, ⟨first, hfirst, -⟩, -⟩, -⟩ := h
  exact ⟨first, c, hfirst, hc⟩

/-- A repeat comes behind the class it repeats. -/
theorem IsRepeat.lt {ι : Type} {block : Nat → ι} {classes : List StyledClass} {i j : Nat}
    (h : IsRepeat block classes i j) : i < j := by
  obtain ⟨⟨c, hc, hcounts, hisFirst⟩, hblock⟩ := h
  -- the first with a signature is no later than any with it
  have hle : i ≤ j := Nat.le_of_not_lt fun hlt => hisFirst.2 j hlt c hc hcounts rfl
  exact Nat.lt_of_le_of_ne hle fun heq => hblock (congrArg block heq)

/-- The classes that count, with their places. -/
def counted (classes : List StyledClass) : List (StyledClass × Nat) :=
  classes.zipIdx.filter fun p => p.1.media.isNone && !p.1.declarations.isEmpty

/-- The two classes have the same first declaration. -/
def sameHead (c c' : StyledClass) : Bool :=
  c.declarations.head?.map (·.pos) == c'.declarations.head?.map (·.pos)

/-- The classes that are reported, each behind the first with its signature. -/
def repeated (classes : List StyledClass) : List ((StyledClass × Nat) × (StyledClass × Nat)) :=
  (Repeats.repeats (fun p => signature p.1) (counted classes)).filter fun q =>
    !sameHead q.1.1 q.2.1

theorem mem_counted_iff {classes : List StyledClass} {c : StyledClass} {i : Nat} :
    (c, i) ∈ counted classes ↔ classes[i]? = some c ∧ Counts c := by
  rw [counted, List.mem_filter, List.mem_zipIdx_iff_getElem?, Bool.and_eq_true, Bool.not_eq_true',
    Option.isNone_iff_eq_none, List.isEmpty_eq_false_iff, Counts]

/-- Classes that count are in the order of their places. -/
theorem pairwise_counted (classes : List StyledClass) :
    (counted classes).Pairwise fun p q => p.2 < q.2 := by
  have hplaces : (classes.zipIdx.map Prod.snd).Pairwise (· < ·) := by
    rw [List.zipIdx_map_snd]
    exact List.pairwise_lt_range'
  exact (List.pairwise_map.1 hplaces).filter _

theorem duplicates_eq (s : Sheet) :
    duplicates s = (repeated s.classes).map fun q => duplicate s q.1.1 q.2.1 := by
  have hcounted : (s.classes.filter fun c => c.media.isNone && !c.declarations.isEmpty).map
      (fun c => (signature c, c)) = (counted s.classes).map fun p => (signature p.1, p.1) := by
    conv_lhs => rw [← List.zipIdx_map_fst 0 s.classes, List.filter_map, List.map_map]
    rfl
  rw [duplicates, hcounted, Repeats.repeats_map, List.filterMap_map, repeated,
    ← List.filterMap_eq_filter, List.map_filterMap]
  refine List.filterMap_congr fun q _ => ?_
  change (if sameHead q.1.1 q.2.1 = true then none else some (duplicate s q.1.1 q.2.1)) =
    (Option.guard (fun q => !sameHead q.1.1 q.2.1) q).map fun q => duplicate s q.1.1 q.2.1
  rw [Option.guard]
  by_cases hhead : sameHead q.1.1 q.2.1 = true
  · rw [if_pos hhead, hhead]
    rfl
  · rw [if_neg hhead, if_pos (by simpa using hhead)]
    rfl

theorem sameHead_iff {ι : Type} {block : Nat → ι} {s : Sheet} (h : s.Ruled block)
    {i j : Nat} {c c' : StyledClass} (hc : s.classes[i]? = some c) (hc' : s.classes[j]? = some c')
    (hcounts : Counts c) (hcounts' : Counts c') : sameHead c c' = true ↔ block i = block j := by
  rw [sameHead, beq_iff_eq]
  refine ⟨fun hhead => ?_, fun hblock => by rw [h.shared i j c c' hc hc' hblock]⟩
  by_contra hne
  obtain ⟨d, ds, hd⟩ := List.exists_cons_of_ne_nil hcounts.2
  obtain ⟨d', ds', hd'⟩ := List.exists_cons_of_ne_nil hcounts'.2
  rw [hd, hd'] at hhead
  have hpos := h.apart i j c c' hc hc' hne d (hd ▸ List.mem_cons_self) d'
    (hd' ▸ List.mem_cons_self)
  exact hpos (Option.some.inj hhead)

/-- In an ordered list, the members before another are those that are less. -/
theorem mem_before_iff {α : Type} {f : α → Nat} {before after : List α} {x y : α}
    (h : (before ++ x :: after).Pairwise fun a b => f a < f b) (hy : y ∈ before ++ x :: after) :
    y ∈ before ↔ f y < f x := by
  obtain ⟨-, hrest, hacross⟩ := List.pairwise_append.1 h
  refine ⟨fun hbefore => hacross y hbefore x List.mem_cons_self, fun hlt => ?_⟩
  rcases List.mem_append.1 hy with hbefore | hbehind
  · exact hbefore
  · rcases List.mem_cons.1 hbehind with rfl | hafter
    · exact absurd hlt (Nat.lt_irrefl _)
    · exact absurd hlt (Nat.lt_asymm ((List.pairwise_cons.1 hrest).1 y hafter))

/-- The first class with a signature is found in front of a later one. -/
theorem find?_counted_eq_some_iff {classes : List StyledClass}
    {before after : List (StyledClass × Nat)} {c first : StyledClass} {i j : Nat}
    (hcounted : counted classes = before ++ (c, j) :: after) :
    (before.find? fun p => signature p.1 == signature c) = some (first, i) ↔
      i < j ∧ classes[i]? = some first ∧ IsFirstWith (signature c) classes i := by
  have hordered := pairwise_counted classes
  rw [List.find?_eq_some_iff_append, beq_iff_eq]
  constructor
  · rintro ⟨hsig, as, bs, rfl, has⟩
    have hin : (first, i) ∈ as ++ (first, i) :: bs := List.mem_append_right as List.mem_cons_self
    have hmem : (first, i) ∈ counted classes := hcounted ▸ List.mem_append_left _ hin
    obtain ⟨hfirst, hcounts⟩ := mem_counted_iff.1 hmem
    have hlt : i < j := (mem_before_iff (hcounted ▸ hordered) (hcounted ▸ hmem)).1 hin
    refine ⟨hlt, hfirst, ⟨first, hfirst, hcounts, hsig⟩, fun k hk c' hc' hcounts' => ?_⟩
    -- what counts and stands in front of the first was passed over
    rw [List.append_assoc, List.cons_append] at hcounted
    have hmem' : (c', k) ∈ counted classes := mem_counted_iff.2 ⟨hc', hcounts'⟩
    have hpassed : (c', k) ∈ as := (mem_before_iff (hcounted ▸ hordered) (hcounted ▸ hmem')).2 hk
    simpa using has _ hpassed
  · rintro ⟨hlt, hfirst, ⟨first', hfirst', hcounts, hsig⟩, hnone⟩
    obtain rfl := Option.some.inj (hfirst.symm.trans hfirst')
    have hmem : (first, i) ∈ counted classes := mem_counted_iff.2 ⟨hfirst, hcounts⟩
    have hbefore : (first, i) ∈ before :=
      (mem_before_iff (hcounted ▸ hordered) (hcounted ▸ hmem)).2 hlt
    obtain ⟨as, bs, rfl⟩ := List.append_of_mem hbefore
    rw [List.append_assoc, List.cons_append] at hcounted
    refine ⟨hsig, as, bs, rfl, fun p hp => ?_⟩
    have hin : p ∈ counted classes := hcounted ▸ List.mem_append_left _ hp
    have hless : p.2 < i := (mem_before_iff (hcounted ▸ hordered) (hcounted ▸ hin)).1 hp
    obtain ⟨hp, hcounts'⟩ := mem_counted_iff.1 hin
    simpa using hnone p.2 hless p.1 hp hcounts'

/-- The classes that are found are the repeats. -/
theorem mem_repeated_iff {ι : Type} {block : Nat → ι} {s : Sheet} (h : s.Ruled block)
    {i j : Nat} {first c : StyledClass} :
    ((first, i), (c, j)) ∈ repeated s.classes ↔
      s.classes[i]? = some first ∧ s.classes[j]? = some c ∧ IsRepeat block s.classes i j := by
  rw [repeated, List.mem_filter, Repeats.mem_repeats_iff, Bool.not_eq_true']
  constructor
  · rintro ⟨⟨before, after, hcounted, hfind⟩, hhead⟩
    obtain ⟨-, hfirst, hisFirst⟩ := (find?_counted_eq_some_iff hcounted).1 hfind
    have hmem : (c, j) ∈ counted s.classes :=
      hcounted ▸ List.mem_append_right _ List.mem_cons_self
    obtain ⟨hc, hcounts⟩ := mem_counted_iff.1 hmem
    obtain ⟨first', hfirst', hcounts', -⟩ := hisFirst.1
    obtain rfl := Option.some.inj (hfirst.symm.trans hfirst')
    refine ⟨hfirst, hc, ⟨c, hc, hcounts, hisFirst⟩, fun hblock => ?_⟩
    rw [(sameHead_iff h hfirst hc hcounts' hcounts).2 hblock] at hhead
    cases hhead
  · rintro ⟨hfirst, hc, hrepeat⟩
    have hlt := hrepeat.lt
    obtain ⟨⟨c', hc', hcounts, hisFirst⟩, hblock⟩ := hrepeat
    obtain rfl := Option.some.inj (hc.symm.trans hc')
    obtain ⟨first', hfirst', hcounts', hsig⟩ := hisFirst.1
    obtain rfl := Option.some.inj (hfirst.symm.trans hfirst')
    obtain ⟨before, after, hcounted⟩ := List.append_of_mem (mem_counted_iff.2 ⟨hc, hcounts⟩)
    have hfind := (find?_counted_eq_some_iff hcounted).2 ⟨hlt, hfirst, hisFirst⟩
    refine ⟨⟨before, after, hcounted, hfind⟩, ?_⟩
    rw [← Bool.not_eq_true, sameHead_iff h hfirst hc hcounts' hcounts]
    exact hblock

/-! ### Places of repeats -/

/-- The places of the classes that are reported, each behind that of the first with its
signature. -/
def repeatPlaces (classes : List StyledClass) : List (Nat × Nat) :=
  (repeated classes).map fun q => (q.1.2, q.2.2)

/-- The findings report the classes in these places, each by its selector and where it stands, with
the selector and the line of the first that says the same. -/
def Reported (s : Sheet) (places : List (Nat × Nat)) (issues : List Issue) : Prop :=
  List.Forall₂ (fun p i => ∃ first c, s.classes[p.1]? = some first ∧ s.classes[p.2]? = some c ∧
    i = { rule := "quality/duplicate-pattern"
          severity := .minor
          category := .duplication
          message :=
            s!"'{c.selector}' repeats the declarations of '{first.selector}' (line {first.pos.line})"
          location := ⟨s.path, c.pos⟩
          suggestion :=
            s!"Reuse '.{first.name}' or extract the shared declarations into one class" })
    places issues

section

variable {ι : Type} {block : Nat → ι} {s : Sheet} {i j : Nat}

theorem mem_repeatPlaces_iff (h : s.Ruled block) :
    (i, j) ∈ repeatPlaces s.classes ↔ IsRepeat block s.classes i j := by
  rw [repeatPlaces, List.mem_map]
  constructor
  · rintro ⟨⟨⟨first, i⟩, ⟨c, j⟩⟩, hmem, heq⟩
    obtain ⟨rfl, rfl⟩ := Prod.mk.inj heq
    exact ((mem_repeated_iff h).1 hmem).2.2
  · intro hrepeat
    obtain ⟨first, c, hfirst, hc⟩ := hrepeat.exists_classes
    exact ⟨_, (mem_repeated_iff h).2 ⟨hfirst, hc, hrepeat⟩, rfl⟩

/-- Repeats are reported in their order. -/
theorem pairwise_repeatPlaces (classes : List StyledClass) :
    (repeatPlaces classes).Pairwise fun p q => p.2 < q.2 := by
  have hsub := Repeats.repeats_sublist (fun p : StyledClass × Nat => signature p.1)
    (counted classes)
  have hordered := List.pairwise_map.1 ((pairwise_counted classes).sublist hsub)
  exact List.pairwise_map.2 (hordered.filter _)

theorem reported_duplicates (h : s.Ruled block) :
    Reported s (repeatPlaces s.classes) (duplicates s) := by
  rw [Reported, duplicates_eq, repeatPlaces, List.forall₂_map_left_iff,
    List.forall₂_map_right_iff, List.forall₂_same]
  rintro ⟨⟨first, i⟩, ⟨c, j⟩⟩ hmem
  obtain ⟨hfirst, hc, -⟩ := (mem_repeated_iff h).1 hmem
  exact ⟨first, c, hfirst, hc, rfl⟩

/-! ### Declarations in another order -/

variable {permute : ι → List Declaration → List Declaration}

section

variable (hperm : ∀ k ds, (permute k ds).Perm ds)
include hperm

theorem counts_reorder (k : ι) (c : StyledClass) :
    Counts { c with declarations := permute k c.declarations } ↔ Counts c := by
  have hnil : permute k c.declarations = [] ↔ c.declarations = [] :=
    ⟨fun h => List.perm_nil.1 (h ▸ (hperm k c.declarations).symm),
      fun h => List.perm_nil.1 (h ▸ hperm k c.declarations)⟩
  exact and_congr_right fun _ => not_congr hnil

theorem signature_reorder (k : ι) (c : StyledClass) :
    signature { c with declarations := permute k c.declarations } = signature c :=
  signature_perm (hperm k c.declarations)

theorem isFirstWith_reorder (sig : String) :
    IsFirstWith sig (s.reorder block permute).classes i ↔ IsFirstWith sig s.classes i := by
  simp only [IsFirstWith, Sheet.getElem?_reorder, Option.map_eq_some_iff, exists_exists_and_eq_and,
    forall_exists_index, and_imp, forall_apply_eq_imp_iff₂, counts_reorder hperm,
    signature_reorder hperm]

theorem isRepeat_reorder :
    IsRepeat block (s.reorder block permute).classes i j ↔ IsRepeat block s.classes i j := by
  simp only [IsRepeat, Sheet.getElem?_reorder, Option.map_eq_some_iff, exists_exists_and_eq_and,
    counts_reorder hperm, signature_reorder hperm, isFirstWith_reorder hperm]

/-- The same classes are repeats of the same, in whatever order their declarations are. -/
theorem repeatPlaces_reorder (h : s.Ruled block) :
    repeatPlaces (s.reorder block permute).classes = repeatPlaces s.classes := by
  have hordered := pairwise_repeatPlaces s.classes
  have hordered' := pairwise_repeatPlaces (s.reorder block permute).classes
  have hmem (p : Nat × Nat) : p ∈ repeatPlaces (s.reorder block permute).classes ↔
      p ∈ repeatPlaces s.classes := by
    rw [mem_repeatPlaces_iff (h.reorder hperm), isRepeat_reorder hperm, mem_repeatPlaces_iff h]
  have hne {p q : Nat × Nat} (hlt : p.2 < q.2) : p ≠ q := fun heq =>
    Nat.ne_of_lt hlt (congrArg Prod.snd heq)
  have hperm' := (List.perm_ext_iff_of_nodup (hordered'.imp hne) (hordered.imp hne)).2 hmem
  refine hperm'.eq_of_pairwise (fun p q _ _ hpq hqp => ?_) hordered' hordered
  exact absurd hpq (Nat.lt_asymm hqp)

end

/-- In any order of its declarations a class has its name, its selector and its place. -/
theorem kept_reorder {c c' : StyledClass} (hc : s.classes[j]? = some c)
    (hc' : (s.reorder block permute).classes[j]? = some c') :
    c'.name = c.name ∧ c'.selector = c.selector ∧ c'.pos = c.pos := by
  rw [Sheet.getElem?_reorder, hc] at hc'
  obtain rfl := Option.some.inj hc'
  exact ⟨rfl, rfl, rfl⟩

theorem Reported.reorder_eq {places : List (Nat × Nat)} {issues issues' : List Issue}
    (h : Reported s places issues) (h' : Reported (s.reorder block permute) places issues') :
    issues' = issues := by
  induction h generalizing issues' with
  | nil =>
    cases h'
    rfl
  | cons hissue _ ih =>
    cases h' with
    | cons hissue' h' =>
      obtain ⟨first, c, hfirst, hc, rfl⟩ := hissue
      obtain ⟨first', c', hfirst', hc', rfl⟩ := hissue'
      obtain ⟨hname, hselector, hpos⟩ := kept_reorder hfirst hfirst'
      obtain ⟨-, hrepeat, hplace⟩ := kept_reorder hc hc'
      rw [hname, hselector, hpos, hrepeat, hplace, ih h']
      rfl

end

/-! ### Findings -/

/-- The findings about classes that say the same. -/
def repetitions (settings : QualitySettings) (s : Sheet) : List Issue :=
  (check settings s).filter fun i => i.rule == "quality/duplicate-pattern"

section

variable {settings : QualitySettings} {s : Sheet} {i : Issue}

theorem rule_of_mem_heavyUtilities (h : i ∈ heavyUtilities settings s) :
    i.rule ≠ "quality/duplicate-pattern" := by
  obtain ⟨c, -, h⟩ := List.mem_filterMap.1 h
  simp only [heavyUtility, Option.ite_none_left_eq_some] at h
  obtain rfl := Option.some.inj h.2
  simp

theorem rule_of_mem_selectors (h : i ∈ selectors settings s) :
    i.rule ≠ "quality/duplicate-pattern" := by
  obtain ⟨r, -, h⟩ := List.mem_flatMap.1 h
  simp only [List.mem_append, Option.mem_toList] at h
  rcases h with h | h
  · simp only [deepNesting, Option.ite_none_left_eq_some] at h
    obtain rfl := Option.some.inj h.2
    simp
  · simp only [idSelector, Option.ite_none_left_eq_some] at h
    obtain rfl := Option.some.inj h.2
    simp

theorem rule_of_mem_flags (h : i ∈ flags s) : i.rule ≠ "quality/duplicate-pattern" := by
  obtain ⟨p, -, h⟩ := List.mem_flatMap.1 h
  simp only [List.mem_append, Option.mem_toList] at h
  rcases h with h | h
  · simp only [important, Option.ite_none_left_eq_some] at h
    obtain rfl := Option.some.inj h.2
    simp
  · simp only [vendorPrefix, Option.ite_none_left_eq_some] at h
    obtain rfl := Option.some.inj h.2
    simp

/-- The other quality rules say nothing about classes that say the same. -/
theorem repetitions_eq (settings : QualitySettings) (s : Sheet) :
    repetitions settings s = duplicates s := by
  have hothers : (heavyUtilities settings s ++ selectors settings s ++ flags s).filter
      (fun i => i.rule == "quality/duplicate-pattern") = [] := by
    refine List.filter_eq_nil_iff.2 fun i hi => ?_
    rw [beq_iff_eq]
    rcases List.mem_append.1 hi with hi | hi
    · rcases List.mem_append.1 hi with hi | hi
      · exact rule_of_mem_heavyUtilities hi
      · exact rule_of_mem_selectors hi
    · exact rule_of_mem_flags hi
  rw [repetitions, check, List.filter_append, hothers, List.nil_append]
  refine List.filter_eq_self.2 fun i hi => ?_
  rw [duplicates_eq] at hi
  obtain ⟨q, -, rfl⟩ := List.mem_map.1 hi
  rfl

end

/-- **Findings about classes that say the same do not depend on the order of the declarations.**
The rules of a source text share their declarations and have none in one place.  As long as that is
so, the classes that repeat another rule are reported in their order, each with the first that says
the same and comes earlier, and any order of the declarations of each rule leads to the same. -/
theorem repetitions_reorder :
    (∀ path source s, Sheet.parse path source = .ok s →
      ∃ nodes block, readTree source.toList = .ok nodes ∧ s.MadeBy nodes block ∧ s.Ruled block) ∧
    ∀ {ι : Type} {block : Nat → ι} {permute : ι → List Declaration → List Declaration} {s : Sheet}
      (settings : QualitySettings), s.Ruled block → (∀ k ds, (permute k ds).Perm ds) →
      repetitions settings (s.reorder block permute) = repetitions settings s ∧
      ∃ places : List (Nat × Nat), places.Pairwise (fun p q => p.2 < q.2) ∧
        (∀ i j, (i, j) ∈ places ↔ IsRepeat block s.classes i j) ∧ (∀ p ∈ places, p.1 < p.2) ∧
        Reported s places (repetitions settings s) ∧
        Reported (s.reorder block permute) places
          (repetitions settings (s.reorder block permute)) := by
  refine ⟨fun path source s => Sheet.exists_ruled, ?_⟩
  intro ι block permute s settings hruled hperm
  have hplaces := repeatPlaces_reorder hperm hruled
  have hreported := reported_duplicates hruled
  have hreported' := reported_duplicates (hruled.reorder hperm)
  rw [hplaces] at hreported'
  rw [repetitions_eq, repetitions_eq]
  exact ⟨hreported.reorder_eq hreported', repeatPlaces s.classes, pairwise_repeatPlaces s.classes,
    fun i j => mem_repeatPlaces_iff hruled, fun p hp => ((mem_repeatPlaces_iff hruled).1 hp).lt,
    hreported, hreported'⟩

/-- The same declarations in two orders, which change places. -/
theorem repetitions_reorder_reverse :
    ∃ s, Sheet.parse "a.css" ".a\x7bb:c;d:e\x7d.f\x7bd:e;b:c\x7d" = .ok s ∧
      (repetitions {} s).map (fun i => (i.message, i.location.pos)) =
        [("'.f' repeats the declarations of '.a' (line 1)", ⟨1, 12⟩)] ∧
      ∃ block : Nat → Nat, s.Ruled block ∧
        repetitions {} (s.reorder block fun _ => List.reverse) = repetitions {} s := by
  have hfound : (Sheet.parse "a.css" ".a\x7bb:c;d:e\x7d.f\x7bd:e;b:c\x7d").toOption.map
      (fun s => (duplicates s).map fun i => (i.message, i.location.pos)) =
        some [("'.f' repeats the declarations of '.a' (line 1)", ⟨1, 12⟩)] := by
    cbv
  cases hparse : Sheet.parse "a.css" ".a\x7bb:c;d:e\x7d.f\x7bd:e;b:c\x7d" with
  | error e =>
    rw [hparse] at hfound
    cases hfound
  | ok s =>
    rw [hparse] at hfound
    obtain ⟨nodes, block, -, -, hruled⟩ := repetitions_reorder.1 _ _ s hparse
    refine ⟨s, rfl, ?_, block, hruled, ?_⟩
    · rw [repetitions_eq]
      exact Option.some.inj hfound
    · exact (repetitions_reorder.2 {} hruled fun _ ds => ds.reverse_perm).1

end Quality
end SheetAudit
