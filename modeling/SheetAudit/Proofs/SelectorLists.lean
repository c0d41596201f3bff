import SheetAudit.Proofs.Gathering
import SheetAudit.Proofs.Listings
import SheetAudit.Proofs.Weighing

/-!
# Selector lists and their pieces

A selector list is cut at the commas outside brackets.  A comma is outside if every bracket that
opens before it is closed before it; the two kinds of brackets close each other, and a bracket that
closes nothing is passed over.  The selectors are what is left of the pieces that are not blank, and
they come with the places of their first characters.

## Main definitions

* `depthAfter` — how deep a text is nested at its end.
* `Nested`, `Outside` — a text that closes what it opens, and a text that leaves nothing open.
* `CutWhere`, `IsPieces` — some texts are the pieces between the commas of a list.
* `Uncut` — no comma of a text stands outside brackets.
* `BeginsAt` — a selector begins at an offset of a list, behind the blanks of its piece.

## Main results

* `depthAfter_eq_zero_iff` — the depth is zero exactly where nothing is left open.
* `isPieces_iff` — **a list has one family of pieces, and the scan by depth finds it.**
* `selectors_intercalate` — selectors that are joined by commas are found again.
* `splitList_listed` — what is found at offsets is what the list of the text holds.
* `splitList_places` — **every selector is found once, at its place, and in a form that lasts.**
-/

namespace SheetAudit
namespace Selector

open Text
open Offsets (size size_cons)

/-! ### Depths -/

/-- How deep the text is nested at its end, when `depth` brackets are open before it. -/
def depthAfter (depth : Nat) (cs : List Char) : Nat := cs.foldl deepen depth

@[simp] theorem depthAfter_nil (depth : Nat) : depthAfter depth [] = depth := rfl

@[simp] theorem depthAfter_cons (depth : Nat) (c : Char) (cs : List Char) :
    depthAfter depth (c :: cs) = depthAfter (deepen depth c) cs := rfl

@[simp] theorem depthAfter_append (depth : Nat) (cs ds : List Char) :
    depthAfter depth (cs ++ ds) = depthAfter (depthAfter depth cs) ds :=
  List.foldl_append

theorem deepen_of_opens {l : Char} (h : opens l = true) (depth : Nat) :
    deepen depth l = depth + 1 := if_pos h

theorem opens_eq_false_of_closes {r : Char} (h : closes r = true) : opens r = false := by
  rcases Bool.or_eq_true_iff.1 h with h | h <;> obtain rfl := eq_of_beq h <;> decide

theorem deepen_of_closes {r : Char} (h : closes r = true) (depth : Nat) :
    deepen depth r = depth - 1 := by
  rw [deepen, opens_eq_false_of_closes h, h, if_neg Bool.false_ne_true, if_pos rfl]

theorem deepen_of_neither {c : Char} (ho : opens c = false) (hc : closes c = false)
    (depth : Nat) : deepen depth c = depth := by
  rw [deepen, ho, hc, if_neg Bool.false_ne_true, if_neg Bool.false_ne_true]

/-- A text that closes every bracket it opens and no other one. -/
inductive Nested : List Char → Prop where
  | nil : Nested []
  /-- A character that is no bracket. -/
  | plain {c : Char} {cs : List Char} (unopened : opens c = false) (unclosed : closes c = false)
      (rest : Nested cs) : Nested (c :: cs)
  /-- A pair of brackets, of whichever kinds. -/
  | group {l r : Char} {cs ds : List Char} (opened : opens l = true) (closed : closes r = true)
      (inside : Nested cs) (rest : Nested ds) : Nested (l :: (cs ++ r :: ds))

theorem Nested.depthAfter_eq {cs : List Char} (h : Nested cs) (depth : Nat) :
    depthAfter depth cs = depth := by
  induction h generalizing depth with
  | nil => rfl
  | plain unopened unclosed _ ih => rw [depthAfter_cons, deepen_of_neither unopened unclosed, ih]
  | group opened closed _ _ ihInside ihRest =>
    rw [depthAfter_cons, deepen_of_opens opened, depthAfter_append, ihInside, depthAfter_cons,
      deepen_of_closes closed, Nat.add_sub_cancel, ihRest]

/-- Where a text ends less deep than it begins, the innermost open bracket is closed in it. -/
theorem exists_closing {depth : Nat} {cs : List Char} (h : depthAfter (depth + 1) cs ≤ depth) :
    ∃ inner r after, cs = inner ++ r :: after ∧ Nested inner ∧ closes r = true := by
  induction hn : cs.length using Nat.strong_induction_on generalizing cs depth with
  | h n ih =>
    subst hn
    cases cs with
    | nil => exact absurd h (Nat.not_succ_le_self depth)
    | cons c cs =>
      rw [depthAfter_cons] at h
      cases hclose : closes c with
      | true => exact ⟨[], c, cs, rfl, .nil, hclose⟩
      | false =>
        cases hopen : opens c with
        | false =>
          rw [deepen_of_neither hopen hclose] at h
          obtain ⟨inner, r, after, rfl, hinner, hr⟩ := ih _ (by simp) h rfl
          exact ⟨c :: inner, r, after, rfl, .plain hopen hclose hinner, hr⟩
        | true =>
          -- the bracket `c` is closed first, and behind that the one around it
          rw [deepen_of_opens hopen] at h
          obtain ⟨inner, r, after, rfl, hinner, hr⟩ := ih _ (by simp) (Nat.le_succ_of_le h) rfl
          rw [depthAfter_append, hinner.depthAfter_eq, depthAfter_cons, deepen_of_closes hr] at h
          obtain ⟨inner', r', after', rfl, hinner', hr'⟩ := ih _ (by simp; omega) h rfl
          exact ⟨c :: (inner ++ r :: inner'), r', after', by simp,
            .group hopen hr hinner hinner', hr'⟩

/-- Behind the text one is outside all brackets: each one it opens is closed in it. -/
def Outside (before : List Char) : Prop :=
  ∀ left l rest, before = left ++ l :: rest → opens l = true →
    ∃ inner r after, rest = inner ++ r :: after ∧ Nested inner ∧ closes r = true

theorem Outside.of_append (cs : List Char) {ds : List Char} (h : Outside (cs ++ ds)) :
    Outside ds :=
  fun left l rest hds => h (cs ++ left) l rest (by rw [hds, List.append_assoc])

theorem Outside.depthAfter_eq {before : List Char} (h : Outside before) :
    depthAfter 0 before = 0 := by
  induction hn : before.length using Nat.strong_induction_on generalizing before with
  | h n ih =>
    subst hn
    cases before with
    | nil => rfl
    | cons c cs =>
      cases hopen : opens c with
      | false =>
        have hstay : deepen 0 c = 0 := by
          cases hclose : closes c with
          | false => exact deepen_of_neither hopen hclose 0
          | true => exact deepen_of_closes hclose 0
        rw [depthAfter_cons, hstay]
        exact ih _ (by simp) (Outside.of_append [c] h) rfl
      | true =>
        obtain ⟨inner, r, after, rfl, hinner, hr⟩ := h [] c cs rfl hopen
        rw [depthAfter_cons, deepen_of_opens hopen, depthAfter_append, hinner.depthAfter_eq,
          depthAfter_cons, deepen_of_closes hr]
        have hafter : Outside after :=
          Outside.of_append (c :: (inner ++ [r])) (by simpa using h)
        exact ih _ (by simp; omega) hafter rfl

/-- The depth is zero exactly where nothing is left open. -/
theorem depthAfter_eq_zero_iff {before : List Char} :
    depthAfter 0 before = 0 ↔ Outside before := by
  refine ⟨fun h left l rest hbefore hl => ?_, Outside.depthAfter_eq⟩
  rw [hbefore, depthAfter_append, depthAfter_cons, deepen_of_opens hl] at h
  exact exists_closing (h.trans_le (Nat.zero_le _))

/-! ### Pieces -/

/-- One of the commas between the pieces has just `before` in front of it. -/
def Separates (pieces : List (List Char)) (before : List Char) : Prop :=
  ∃ ps qs, ps ≠ [] ∧ qs ≠ [] ∧ pieces = ps ++ qs ∧ [','].intercalate ps = before

theorem separates_nil_cons (pieces : List (List Char)) (before : List Char) :
    Separates ([] :: pieces) (',' :: before) ↔ Separates pieces before := by
  constructor
  · rintro ⟨ps, qs, hps, hqs, heq, hbefore⟩
    cases ps with
    | nil => exact absurd rfl hps
    | cons p ps =>
      obtain ⟨rfl, rfl⟩ := List.cons.inj heq
      cases ps with
      | nil => simp at hbefore
      | cons p ps =>
        refine ⟨p :: ps, qs, List.cons_ne_nil _ _, hqs, rfl, ?_⟩
        simpa [List.intercalate_cons_cons] using hbefore
  · rintro ⟨ps, qs, hps, hqs, rfl, rfl⟩
    refine ⟨[] :: ps, qs, List.cons_ne_nil _ _, hqs, rfl, ?_⟩
    obtain ⟨p, ps, rfl⟩ := List.exists_cons_of_ne_nil hps
    simp [List.intercalate_cons_cons]

/-- A character in front of the first piece stands in front of the comma as well. -/
theorem intercalate_cons {separator piece : List Char} {pieces : List (List Char)} (c : Char) :
    separator.intercalate ((c :: piece) :: pieces) =
      c :: separator.intercalate (piece :: pieces) := by
  cases pieces <;> simp [List.intercalate_cons_cons]

theorem separates_cons_cons {c : Char} {piece before : List Char} {pieces : List (List Char)} :
    Separates ((c :: piece) :: pieces) (c :: before) ↔ Separates (piece :: pieces) before := by
  constructor
  · rintro ⟨ps, qs, hps, hqs, heq, hbefore⟩
    obtain ⟨p, ps, rfl⟩ := List.exists_cons_of_ne_nil hps
    obtain ⟨rfl, rfl⟩ := List.cons.inj heq
    rw [intercalate_cons] at hbefore
    exact ⟨piece :: ps, qs, List.cons_ne_nil _ _, hqs, rfl, (List.cons.inj hbefore).2⟩
  · rintro ⟨ps, qs, hps, hqs, heq, hbefore⟩
    obtain ⟨p, ps, rfl⟩ := List.exists_cons_of_ne_nil hps
    obtain ⟨rfl, rfl⟩ := List.cons.inj heq
    exact ⟨(c :: piece) :: ps, qs, List.cons_ne_nil _ _, hqs, rfl,
      by rw [intercalate_cons, hbefore]⟩

theorem separates_nil_iff {pieces : List (List Char)} :
    Separates pieces [] ↔ ∃ ps, ps ≠ [] ∧ pieces = [] :: ps := by
  constructor
  · rintro ⟨ps, qs, hps, hqs, rfl, hbefore⟩
    obtain ⟨p, ps, rfl⟩ := List.exists_cons_of_ne_nil hps
    cases ps with
    | nil => exact ⟨qs, hqs, by simpa using hbefore⟩
    | cons q ps => simp [List.intercalate_cons_cons] at hbefore
  · rintro ⟨ps, hps, rfl⟩
    exact ⟨[[]], ps, List.cons_ne_nil _ _, hps, rfl, rfl⟩

/-- A list is cut into pieces at the commas behind the texts with `P`: joined by commas the pieces
are the list, and between them are just these commas. -/
structure CutWhere (P : List Char → Prop) (list : List Char) (pieces : List (List Char)) :
    Prop where
  ne_nil : pieces ≠ []
  join : [','].intercalate pieces = list
  cuts : ∀ before after, list = before ++ ',' :: after → (Separates pieces before ↔ P before)

/-- The pieces of a list are those between its commas outside all brackets. -/
def IsPieces : List Char → List (List Char) → Prop := CutWhere Outside

/-- The pieces of a list in which `depth` brackets are open already. -/
def IsPiecesAt (depth : Nat) : List Char → List (List Char) → Prop :=
  CutWhere fun before => depthAfter depth before = 0

theorem isPiecesAt_nil (depth : Nat) {pieces : List (List Char)} :
    IsPiecesAt depth [] pieces ↔ pieces = [[]] := by
  constructor
  · rintro ⟨hne, hjoin, -⟩
    obtain ⟨p, ps, rfl⟩ := List.exists_cons_of_ne_nil hne
    cases ps with
    | nil => simpa using hjoin
    | cons q ps => simp [List.intercalate_cons_cons] at hjoin
  · rintro rfl
    exact ⟨List.cons_ne_nil _ _, rfl, by simp⟩

theorem isPiecesAt_cut {cs : List Char} {pieces : List (List Char)} :
    IsPiecesAt 0 (',' :: cs) pieces ↔ ∃ ps, pieces = [] :: ps ∧ IsPiecesAt 0 cs ps := by
  have hdeepen : deepen 0 ',' = 0 := rfl
  constructor
  · rintro ⟨-, hjoin, hcuts⟩
    obtain ⟨ps, hps, rfl⟩ := separates_nil_iff.1 ((hcuts [] cs rfl).2 rfl)
    refine ⟨ps, rfl, hps, ?_, fun before after hcs => ?_⟩
    · obtain ⟨p, ps, rfl⟩ := List.exists_cons_of_ne_nil hps
      simpa [List.intercalate_cons_cons] using hjoin
    · rw [← separates_nil_cons, hcuts (',' :: before) after (by rw [hcs]; rfl), depthAfter_cons,
        hdeepen]
  · rintro ⟨ps, rfl, hps, hjoin, hcuts⟩
    refine ⟨List.cons_ne_nil _ _, ?_, fun before after hcs => ?_⟩
    · obtain ⟨p, ps, rfl⟩ := List.exists_cons_of_ne_nil hps
      simpa [List.intercalate_cons_cons] using hjoin
    · cases before with
      | nil => exact iff_of_true (separates_nil_iff.2 ⟨ps, hps, rfl⟩) rfl
      | cons c before =>
        obtain ⟨rfl, hrest⟩ := List.cons.inj hcs
        rw [separates_nil_cons, depthAfter_cons, hdeepen]
        exact hcuts before after hrest

theorem isPiecesAt_cons {depth : Nat} {c : Char} {cs : List Char} {pieces : List (List Char)}
    (hc : ¬ (c = ',' ∧ depth = 0)) : IsPiecesAt depth (c :: cs) pieces ↔
      ∃ p ps, pieces = (c :: p) :: ps ∧ IsPiecesAt (deepen depth c) cs (p :: ps) := by
  constructor
  · rintro ⟨hne, hjoin, hcuts⟩
    obtain ⟨p, ps, rfl⟩ := List.exists_cons_of_ne_nil hne
    cases p with
    | nil =>
      -- the list would begin with a comma at depth zero
      cases ps with
      | nil => simp at hjoin
      | cons q ps =>
        rw [List.intercalate_cons_cons] at hjoin
        obtain ⟨rfl, -⟩ := List.cons.inj hjoin
        have hzero := (hcuts [] cs rfl).1 (separates_nil_iff.2 ⟨q :: ps, List.cons_ne_nil _ _, rfl⟩)
        exact absurd ⟨rfl, hzero⟩ hc
    | cons d p =>
      rw [intercalate_cons] at hjoin
      obtain ⟨rfl, hrest⟩ := List.cons.inj hjoin
      refine ⟨p, ps, rfl, List.cons_ne_nil _ _, hrest, fun before after hcs => ?_⟩
      rw [← separates_cons_cons, hcuts (d :: before) after (by rw [hcs]; rfl), depthAfter_cons]
  · rintro ⟨p, ps, rfl, -, hjoin, hcuts⟩
    refine ⟨List.cons_ne_nil _ _, by rw [intercalate_cons, hjoin], fun before after hcs => ?_⟩
    cases before with
    | nil =>
      obtain ⟨rfl, -⟩ := List.cons.inj hcs
      refine iff_of_false ?_ fun hzero => hc ⟨rfl, hzero⟩
      rw [separates_nil_iff]
      simp
    | cons d before =>
      obtain ⟨rfl, hrest⟩ := List.cons.inj hcs
      rw [separates_cons_cons, depthAfter_cons]
      exact hcuts before after hrest

/-- The scan by depth finds the pieces, and there are no others. -/
theorem isPiecesAt_iff {depth : Nat} {list : List Char} {pieces : List (List Char)} :
    IsPiecesAt depth list pieces ↔ pieces = splitTop id depth list := by
  induction list generalizing depth pieces with
  | nil => exact isPiecesAt_nil depth
  | cons c cs ih =>
    by_cases hc : c = ',' ∧ depth = 0
    · obtain ⟨rfl, rfl⟩ := hc
      have hsplit : splitTop id 0 (',' :: cs) = [] :: splitTop id 0 cs := by
        rw [splitTop, if_pos (by rfl)]
      rw [isPiecesAt_cut, hsplit]
      simp [ih]
    · obtain ⟨p, ps, hp⟩ := List.exists_cons_of_ne_nil (splitTop_ne_nil id (deepen depth c) cs)
      have hsplit : splitTop id depth (c :: cs) = (c :: p) :: ps :=
        splitTop_cons (by simpa using hc) hp
      rw [isPiecesAt_cons hc, hsplit]
      simp [ih, hp]

/-- A list has one family of pieces, and the scan by depth finds it. -/
theorem isPieces_iff {list : List Char} {pieces : List (List Char)} :
    IsPieces list pieces ↔ pieces = splitTop id 0 list := by
  have hdepth : (fun before => depthAfter 0 before = 0) = Outside :=
    funext fun before => propext depthAfter_eq_zero_iff
  rw [← isPiecesAt_iff, IsPiecesAt, hdepth, IsPieces]

/-! ### Splitting what was joined -/

/-- No comma of the text stands outside brackets, when `depth` of them are open before it. -/
def Uncut (depth : Nat) : List Char → Prop
  | [] => True
  | c :: cs => ¬ (c = ',' ∧ depth = 0) ∧ Uncut (deepen depth c) cs

theorem splitTop_uncut {depth : Nat} {cs : List Char} (h : Uncut depth cs) :
    splitTop id depth cs = [cs] := by
  induction cs generalizing depth with
  | nil => rfl
  | cons c cs ih => exact splitTop_cons (by simpa using h.1) (ih h.2)

theorem splitTop_uncut_comma {depth : Nat} {cs : List Char} (h : Uncut depth cs)
    (hclosed : depthAfter depth cs = 0) (rest : List Char) :
    splitTop id depth (cs ++ ',' :: rest) = cs :: splitTop id 0 rest := by
  induction cs generalizing depth with
  | nil =>
    obtain rfl : depth = 0 := hclosed
    rw [List.nil_append, splitTop, if_pos (by rfl)]
  | cons c cs ih => exact splitTop_cons (by simpa using h.1) (ih h.2 hclosed)

/-- What the scan finds has no comma outside brackets, and every piece but the last is closed. -/
theorem splitTop_pieces {depth : Nat} {cs piece : List Char} {pieces : List (List Char)}
    (h : splitTop id depth cs = piece :: pieces) :
    Uncut depth piece ∧ (pieces ≠ [] → depthAfter depth piece = 0) ∧
      (∀ p ∈ pieces, Uncut 0 p) ∧ pieces.Pairwise fun p _ => depthAfter 0 p = 0 := by
  induction cs generalizing depth piece pieces with
  | nil =>
    obtain ⟨rfl, rfl⟩ := List.cons.inj h
    exact ⟨trivial, fun hne => absurd rfl hne, nofun, .nil⟩
  | cons c cs ih =>
    by_cases hc : c = ',' ∧ depth = 0
    · obtain ⟨rfl, rfl⟩ := hc
      rw [splitTop, if_pos (by rfl)] at h
      obtain ⟨rfl, rfl⟩ := List.cons.inj h
      obtain ⟨p, ps, hp⟩ := List.exists_cons_of_ne_nil (splitTop_ne_nil id 0 cs)
      obtain ⟨hpiece, hclosed, hpieces, hpairs⟩ := ih hp
      rw [hp]
      refine ⟨trivial, fun _ => rfl, List.forall_mem_cons.2 ⟨hpiece, hpieces⟩,
        List.pairwise_cons.2 ⟨fun q hq => ?_, hpairs⟩⟩
      exact hclosed (List.ne_nil_of_mem hq)
    · obtain ⟨p, ps, hp⟩ := List.exists_cons_of_ne_nil (splitTop_ne_nil id (deepen depth c) cs)
      rw [splitTop_cons (by simpa using hc) hp] at h
      obtain ⟨rfl, rfl⟩ := List.cons.inj h
      obtain ⟨hpiece, hrest⟩ := ih hp
      exact ⟨⟨hc, hpiece⟩, hrest⟩

theorem splitTop_intercalate {pieces : List (List Char)} (hne : pieces ≠ [])
    (huncut : ∀ p ∈ pieces, Uncut 0 p) (hclosed : pieces.Pairwise fun p _ => depthAfter 0 p = 0) :
    splitTop id 0 ([','].intercalate pieces) = pieces := by
  induction pieces with
  | nil => exact absurd rfl hne
  | cons p ps ih =>
    obtain ⟨hp, hps⟩ := List.forall_mem_cons.1 huncut
    obtain ⟨hhead, htail⟩ := List.pairwise_cons.1 hclosed
    cases ps with
    | nil =>
      rw [List.intercalate_singleton]
      exact splitTop_uncut hp
    | cons q qs =>
      rw [List.intercalate_cons_cons, List.append_assoc, List.singleton_append,
        splitTop_uncut_comma hp (hhead q List.mem_cons_self), ih (List.cons_ne_nil _ _) hps htail]

theorem depthAfter_collapse (depth : Nat) (cs : List Char) :
    depthAfter depth (collapse cs) = depthAfter depth cs := by
  have hspace (d : Nat) : deepen d ' ' = d := deepen_of_isBlank (by decide) d
  induction cs generalizing depth with
  | nil => rfl
  | cons c cs ih =>
    cases hc : isBlank c with
    | true => rw [collapse_blank hc, ih, depthAfter_cons, deepen_of_isBlank hc]
    | false =>
      rcases collapse_cons hc cs with h | ⟨-, h⟩ <;> rw [h]
      · rw [depthAfter_cons, depthAfter_cons, ih]
      · rw [depthAfter_cons, depthAfter_cons, depthAfter_cons, hspace, ih]

theorem uncut_space {depth : Nat} {cs : List Char} : Uncut depth (' ' :: cs) ↔ Uncut depth cs := by
  rw [Uncut, deepen_of_isBlank (by decide)]
  simp

theorem uncut_collapse {depth : Nat} {cs : List Char} (h : Uncut depth cs) :
    Uncut depth (collapse cs) := by
  induction cs generalizing depth with
  | nil => exact h
  | cons c cs ih =>
    obtain ⟨hcut, hrest⟩ := h
    cases hc : isBlank c with
    | true =>
      rw [deepen_of_isBlank hc] at hrest
      rw [collapse_blank hc]
      exact ih hrest
    | false =>
      rcases collapse_cons hc cs with h | ⟨-, h⟩ <;> rw [h]
      · exact ⟨hcut, ih hrest⟩
      · exact ⟨hcut, uncut_space.2 (ih hrest)⟩

theorem words_eq_nil_iff {cs : List Char} : words cs = [] ↔ cs.all isBlank = true := by
  rw [List.all_eq_true]
  refine ⟨fun h c hc => ?_, words_of_blank⟩
  induction cs with
  | nil => cases hc
  | cons d cs ih =>
    cases hd : isBlank d with
    | false => exact absurd h (words_ne_nil hd cs)
    | true =>
      rw [words_blank hd] at h
      rcases List.mem_cons.1 hc with rfl | hc
      · exact hd
      · exact ih h hc

/-- The selectors are what is left of the pieces that are not blank. -/
theorem selectors_eq_map (text : List Char) :
    selectors text = ((splitTop id 0 text).filter fun p => !p.all isBlank).map collapse := by
  rw [selectors_eq]
  induction splitTop id 0 text with
  | nil => rfl
  | cons p ps ih =>
    cases hp : p.all isBlank with
    | true =>
      have hnone : ofPiece? p = none := if_pos (words_eq_nil_iff.2 hp)
      rw [List.filterMap_cons_none hnone, List.filter_cons_of_neg (by simp [hp]), ih]
    | false =>
      have hwords : words p ≠ [] := fun h => by simp [words_eq_nil_iff.1 h] at hp
      have hsome : ofPiece? p = some (collapse p) := if_neg hwords
      rw [List.filterMap_cons_some hsome, List.filter_cons_of_pos (by simp [hp]), List.map_cons, ih]

theorem not_blank_of_mem_selectors {text s : List Char} (h : s ∈ selectors text) :
    s ≠ [] ∧ collapse s = s := by
  rw [selectors_eq_map] at h
  obtain ⟨p, hp, rfl⟩ := List.mem_map.1 h
  have hwords : words p ≠ [] := fun h => by
    simp [words_eq_nil_iff.1 h] at hp
  exact ⟨fun h => hwords (collapse_eq_nil_iff.1 h), collapse_collapse p⟩

/-- No selector has a comma outside brackets, and every one but the last is closed. -/
theorem selectors_pieces (text : List Char) :
    (∀ s ∈ selectors text, Uncut 0 s) ∧
      (selectors text).Pairwise fun s _ => depthAfter 0 s = 0 := by
  obtain ⟨piece, pieces, h⟩ := List.exists_cons_of_ne_nil (splitTop_ne_nil id 0 text)
  obtain ⟨hpiece, hclosed, hpieces, hpairs⟩ := splitTop_pieces h
  have hall : ∀ p ∈ splitTop id 0 text, Uncut 0 p := by
    rw [h]
    exact List.forall_mem_cons.2 ⟨hpiece, hpieces⟩
  have hpairs : (splitTop id 0 text).Pairwise fun p _ => depthAfter 0 p = 0 := by
    rw [h]
    exact List.pairwise_cons.2 ⟨fun q hq => hclosed (List.ne_nil_of_mem hq), hpairs⟩
  rw [selectors_eq_map]
  refine ⟨fun s hs => ?_, List.pairwise_map.2 ((hpairs.filter _).imp fun {p q} hp => ?_)⟩
  · obtain ⟨p, hp, rfl⟩ := List.mem_map.1 hs
    exact uncut_collapse (hall p (List.mem_filter.1 hp).1)
  · rw [depthAfter_collapse, hp]

/-- The space behind a comma belongs to the next piece. -/
theorem intercalate_space (s : List Char) (ss : List (List Char)) :
    [',', ' '].intercalate (s :: ss) = [','].intercalate (s :: ss.map (' ' :: ·)) := by
  induction ss generalizing s with
  | nil => rfl
  | cons t ss ih =>
    rw [List.map_cons, List.intercalate_cons_cons, List.intercalate_cons_cons, ih,
      intercalate_cons]
    simp

/-- Selectors that are joined by commas are found again. -/
theorem selectors_intercalate (text : List Char) :
    selectors ([',', ' '].intercalate (selectors text)) = selectors text := by
  obtain ⟨huncut, hclosed⟩ := selectors_pieces text
  have hsolid {s : List Char} (hs : s ∈ selectors text) := not_blank_of_mem_selectors hs
  cases htexts : selectors text with
  | nil => rfl
  | cons s ss =>
    rw [htexts] at huncut hclosed hsolid
    obtain ⟨hs, hss⟩ := List.forall_mem_cons.1 huncut
    obtain ⟨hhead, htail⟩ := List.pairwise_cons.1 hclosed
    have hfound {t : List Char} (ht : t ∈ s :: ss) :
        ofPiece? t = some t ∧ ofPiece? (' ' :: t) = some t := by
      obtain ⟨hne, hcollapse⟩ := hsolid ht
      have hwords : words t ≠ [] := by
        rw [ne_eq, ← collapse_eq_nil_iff, hcollapse]
        exact hne
      have hblank : isBlank ' ' = true := by decide
      rw [ofPiece?, ofPiece?, words_blank hblank, collapse_blank hblank, if_neg hwords, hcollapse]
      exact ⟨rfl, rfl⟩
    have hsplit : splitTop id 0 ([',', ' '].intercalate (s :: ss)) = s :: ss.map (' ' :: ·) := by
      rw [intercalate_space]
      refine splitTop_intercalate (List.cons_ne_nil _ _) ?_ ?_
      · refine List.forall_mem_cons.2 ⟨hs, List.forall_mem_map.2 fun t ht => ?_⟩
        exact uncut_space.2 (hss t ht)
      · refine List.pairwise_cons.2 ⟨fun q hq => ?_, List.pairwise_map.2 htail⟩
        obtain ⟨t, ht, rfl⟩ := List.mem_map.1 hq
        exact hhead t ht
    have hrest : ss.filterMap (ofPiece? ∘ (' ' :: ·)) = ss.filterMap some :=
      List.filterMap_congr fun t ht => (hfound (List.mem_cons_of_mem s ht)).2
    rw [selectors_eq, hsplit, List.filterMap_cons_some (hfound List.mem_cons_self).1,
      List.filterMap_map, hrest, List.filterMap_some]

/-! ### Offsets -/

theorem map_snd_withOffsets (offset : Nat) (cs : List Char) :
    (withOffsets offset cs).map Prod.snd = cs := by
  induction cs generalizing offset with
  | nil => rfl
  | cons c cs ih => rw [withOffsets, List.map_cons, ih]

/-- An offset is the size of what stands before it. -/
theorem offset_of_withOffsets {offset : Nat} {cs : List Char} {left right : List (Nat × Char)}
    {x : Nat × Char} (h : withOffsets offset cs = left ++ x :: right) :
    x.1 = offset + size (left.map Prod.snd) := by
  induction left generalizing offset cs with
  | nil =>
    cases cs with
    | nil => cases h
    | cons c cs =>
      obtain ⟨rfl, -⟩ := List.cons.inj h
      rfl
  | cons y left ih =>
    cases cs with
    | nil => cases h
    | cons c cs =>
      obtain ⟨rfl, hrest⟩ := List.cons.inj h
      rw [ih hrest, List.map_cons, size_cons, Nat.add_assoc]

theorem pairwise_withOffsets (offset : Nat) (cs : List Char) :
    ((withOffsets offset cs).map Prod.fst).Pairwise (· < ·) := by
  induction cs generalizing offset with
  | nil => exact .nil
  | cons c cs ih =>
    rw [withOffsets, List.map_cons, List.pairwise_cons]
    refine ⟨fun n hn => ?_, ih _⟩
    obtain ⟨x, hx, rfl⟩ := List.mem_map.1 hn
    have hle := Offsets.le_of_mem_withOffsets hx
    have hpos := c.utf8Size_pos
    omega

/-- What is found at offsets is what the list of the text holds. -/
theorem splitList_listed (text : List Char) : Offsets.splitList text = .ok (listed text) := by
  obtain ⟨ps, hps, hall⟩ := Offsets.splitList_eq Prod.snd (withOffsets 0 text)
  rw [map_snd_withOffsets] at hps
  have heq : ps = listed text := by
    rw [listed, ← List.forall₂_eq_eq_eq, List.forall₂_map_right_iff]
    refine hall.imp fun p e ⟨htext, _, left, right, hsplit, hoffset⟩ => ?_
    rw [← Nat.zero_add (size _), ← offset_of_withOffsets hsplit] at hoffset
    exact Prod.ext hoffset htext
  rw [hps, heq]

theorem map_snd_listed (text : List Char) : (listed text).map Prod.snd = selectors text := by
  have hentries := map_snd_entries Prod.snd (withOffsets 0 text)
  rw [map_snd_withOffsets] at hentries
  rw [listed, List.map_map, ← hentries]
  rfl

theorem pairwise_listed (text : List Char) : ((listed text).map Prod.fst).Pairwise (· < ·) := by
  have hsub := (sublist_entries Prod.snd (withOffsets 0 text)).map Prod.fst
  rw [List.map_map] at hsub
  rw [listed, List.map_map]
  exact (pairwise_withOffsets 0 text).sublist hsub

theorem head?_collapse {c : Char} (hc : isBlank c = false) (cs : List Char) :
    (collapse (c :: cs)).head? = some c := by
  rcases collapse_cons hc cs with h | ⟨-, h⟩ <;> rw [h] <;> rfl

/-- The text `s` is found at the offset `n` of a list: there its piece begins, behind the pieces
before it with their commas and behind its own blanks. -/
def BeginsAt (list : List Char) (pieces : List (List Char)) (n : Nat) (s : List Char) : Prop :=
  ∃ ps blanks c rest qs after, pieces = ps ++ (blanks ++ c :: rest) :: qs ∧
    list = (ps.flatMap fun p => p ++ [',']) ++ (blanks ++ (c :: rest ++ after)) ∧
    n = size ((ps.flatMap fun p => p ++ [',']) ++ blanks) ∧
    (∀ b ∈ blanks, isBlank b = true) ∧ isBlank c = false ∧
    s = collapse (c :: rest) ∧ s.head? = some c

theorem beginsAt_of_mem_listed {text s : List Char} {n : Nat} (h : (n, s) ∈ listed text) :
    BeginsAt text (splitTop id 0 text) n s := by
  obtain ⟨e, he, heq⟩ := List.mem_map.1 h
  obtain ⟨rfl, rfl⟩ := Prod.mk.inj heq
  obtain ⟨piece, hpiece, he⟩ := List.mem_filterMap.1 he
  obtain ⟨blanks, rest, rfl, hblanks, hfirst, hs⟩ := selectorOf?_eq_some he
  obtain ⟨ps, qs, hsplit⟩ := List.append_of_mem hpiece
  obtain ⟨left, right, hwhole, hleft⟩ := exists_of_splitTop_eq hsplit
  have hfront : left.map Prod.snd =
      (ps.map fun p => p.map Prod.snd).flatMap fun p => p ++ [','] := by
    rw [List.flatMap_map]
    exact hleft
  have hpieces : splitTop id 0 ((withOffsets 0 text).map Prod.snd) =
      (splitTop Prod.snd 0 (withOffsets 0 text)).map fun piece => piece.map Prod.snd :=
    splitTop_map id Prod.snd 0 (withOffsets 0 text)
  rw [map_snd_withOffsets, hsplit] at hpieces
  have htext := map_snd_withOffsets 0 text
  rw [hwhole] at htext
  have hplace : withOffsets 0 text = (left ++ blanks) ++ e.1 :: (rest ++ right) :=
    hwhole.trans (by simp)
  have hoffset := offset_of_withOffsets hplace
  refine ⟨ps.map fun p => p.map Prod.snd, blanks.map Prod.snd, e.1.2, rest.map Prod.snd,
    qs.map fun p => p.map Prod.snd, right.map Prod.snd, ?_, ?_, ?_,
    List.forall_mem_map.2 hblanks, hfirst, hs, hs ▸ head?_collapse hfirst _⟩
  · rw [hpieces]
    simp
  · rw [← hfront, ← htext]
    simp
  · rw [hoffset, Nat.zero_add, List.map_append, hfront]

/-! ### What a list holds -/

/-- Every selector is found once, at its place, and in a form that lasts.  The pieces of a list are
fixed by its commas outside all brackets; what is left of those that are not blank is found, in
order, each at the offset of its first character, and joining it by commas leads back to it. -/
theorem splitList_places (list : List Char) :
    ∃ found pieces, Offsets.splitList list = .ok found ∧
      (∀ ps, IsPieces list ps ↔ ps = pieces) ∧
      found.map Prod.snd = (pieces.filter fun p => !p.all isBlank).map collapse ∧
      (found.map Prod.fst).Pairwise (· < ·) ∧
      (∀ n s, (n, s) ∈ found → BeginsAt list pieces n s ∧
        s ≠ [] ∧ singleSpaced s = true ∧ trim s = s) ∧
      ∃ again, Offsets.splitList ([',', ' '].intercalate (found.map Prod.snd)) = .ok again ∧
        again.map Prod.snd = found.map Prod.snd := by
  refine ⟨listed list, splitTop id 0 list, splitList_listed list, fun ps => isPieces_iff, ?_,
    pairwise_listed list, fun n s h => ⟨beginsAt_of_mem_listed h, ?_⟩, _, splitList_listed _, ?_⟩
  · rw [map_snd_listed, selectors_eq_map]
  · have hs : s ∈ selectors list := map_snd_listed list ▸ List.mem_map_of_mem h
    obtain ⟨hne, hcollapse⟩ := not_blank_of_mem_selectors hs
    exact ⟨hne, hcollapse ▸ (spaced_collapse s).1, hcollapse ▸ trim_collapse s⟩
  · rw [map_snd_listed, map_snd_listed, selectors_intercalate]

/-- A bracket of the other kind closes, and one that is never closed keeps its commas. -/
example : Offsets.splitList "a(x, y] ,\n é  b,,(c, d".toList =
    .ok [(0, "a(x, y]".toList), (11, "é b".toList), (18, "(c, d".toList)] := by decide

end Selector
end SheetAudit
