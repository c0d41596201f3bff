import SheetAudit.Offsets.Specificity
import SheetAudit.Proofs.SelectorLists

/-!
# Weighing by indices comes to its end

Every round of the loop that weighs a selector goes on behind the character it has met, and the
arguments that are weighed in their turn stand behind it as well.  So what is left to read gets
shorter with every step, along all loops and weighings within one another, and one step more than
there are characters suffices.  What a round counts has been taken from the text, which bounds all
counters.

## Main definitions

* `PseudoAt.Stands` — a pseudo-class found by indices is the one that is read from the text.
* `Suffices` — so many steps of the loop add the weight of what is left to read.

## Main results

* `skipName_append`, `skipGroup_append` — where names and groups end.
* `pseudoAt_append` — a pseudo-class is cut out at indices in range.
* `Suffices.succ`, `suffices_all` — **the loop adds the weight of what is left to read**, by
  induction on the steps.
* `weighing_ends` — **a selector is weighed in as many steps as it has characters, with all ranges
  in range, and its specificity fits into 32 bits if it is shorter than 42949673 characters.**
-/

namespace SheetAudit
namespace Offsets

open Selector Text

/-! ### Texts by their indices -/

theorem charsBetween_append (front name rest : List Char) :
    charsBetween (front ++ (name ++ rest)) front.length (front.length + name.length) =
      .ok name := by
  have hrange : front.length ≤ front.length + name.length ∧
      front.length + name.length ≤ (front ++ (name ++ rest)).length := by
    simp only [List.length_append]
    omega
  unfold charsBetween
  rw [if_pos hrange, List.take_length_add_append, List.take_left, List.drop_left]

/-! ### Names -/

theorem skipName_of_none {chars : List Char} {i : Nat} (h : chars[i]? = none) :
    skipName chars i = min i chars.length := by
  unfold skipName
  split
  · rfl
  · next c heq => rw [h] at heq; cases heq

theorem skipName_of_some {chars : List Char} {i : Nat} {c : Char} (h : chars[i]? = some c) :
    skipName chars i =
      if c == '\\' then skipName chars (i + 2)
      else if isAlphanumeric c || c == '-' || c == '_' then skipName chars (i + 1)
      else min i chars.length := by
  rw [skipName]
  split
  · next heq => rw [h] at heq; cases heq
  · next d heq =>
    obtain rfl : c = d := Option.some.inj (h.symm.trans heq)
    rfl

theorem takeName_append_rest (cs : List Char) : (takeName cs).1 ++ (takeName cs).2 = cs := by
  fun_induction takeName cs with
  | case1 => rfl
  | case2 => rfl
  | case3 c cs r ih => exact congrArg (fun ds => '\\' :: c :: ds) ih
  | case4 c cs _ _ _ r ih => exact congrArg (c :: ·) ih
  | case5 => rfl

/-- What is no escape does not begin with a backslash. -/
theorem ne_backslash {c : Char} {cs : List Char} (hend : c = '\\' → cs = [] → False)
    (hescape : ∀ d ds, c = '\\' → cs = d :: ds → False) : c ≠ '\\' := by
  intro hc
  cases cs with
  | nil => exact hend hc rfl
  | cons d ds => exact hescape d ds hc rfl

/-- A name ends where what is read of it ends. -/
theorem skipName_append (front cs : List Char) :
    skipName (front ++ cs) front.length = front.length + (takeName cs).1.length := by
  fun_induction takeName cs generalizing front with
  | case1 => rw [skipName_of_none (by simp)]; simp
  | case2 =>
    rw [skipName_of_some (c := '\\') (by simp), if_pos (by rfl), skipName_of_none (by simp)]
    simp
  | case3 c cs r ih =>
    have hnext : skipName (front ++ '\\' :: c :: cs) (front.length + 2) =
        front.length + 2 + r.1.length := by
      simpa using ih (front ++ ['\\', c])
    rw [skipName_of_some (c := '\\') (by simp), if_pos (by rfl), hnext]
    simp only [List.length_cons]
    omega
  | case4 c cs hend hescape hname r ih =>
    have hnext : skipName (front ++ c :: cs) (front.length + 1) =
        front.length + 1 + r.1.length := by
      simpa using ih (front ++ [c])
    rw [skipName_of_some (c := c) (by simp), if_neg (by simpa using ne_backslash hend hescape),
      if_pos hname, hnext]
    simp only [List.length_cons]
    omega
  | case5 c cs hend hescape hname =>
    rw [skipName_of_some (c := c) (by simp), if_neg (by simpa using ne_backslash hend hescape),
      if_neg hname]
    simp

/-! ### Groups -/

theorem groupEnd?_cons {left right : Char} (hsides : left ≠ right)
    (hleft : left ≠ '"' ∧ left ≠ '\'') (hright : right ≠ '"' ∧ right ≠ '\'') (depth : Nat)
    (quote : Option Char) (i : Nat) (c : Char) (cs : List Char) :
    groupEnd? left right (depth + 1) quote i (c :: cs) =
      if c == right && depth == 0 && quote.isNone then some (i + 1)
      else groupEnd? left right ((groupStep left right depth quote c).1 + 1)
        (groupStep left right depth quote c).2 (i + 1) cs := by
  cases quote with
  | some q => simp [groupEnd?, groupStep]
  | none =>
    rw [groupEnd?, groupStep]
    by_cases hquote : (c == '"' || c == '\'') = true
    · have hne : c ≠ right := by
        rintro rfl
        simp [hright] at hquote
      simp [hquote, hne]
    by_cases hopen : c = left
    · simp [hopen, hsides, hleft]
    by_cases hclose : c = right
    · cases depth with
      | zero => simp [hclose, hright, Ne.symm hsides]
      | succ depth => simp [hclose, hright, Ne.symm hsides]
    · simp [hquote, hopen, hclose]

/-- A group ends behind `k` characters, of which it holds all but the last. -/
theorem groupEnd?_eq {left right : Char} (hsides : left ≠ right)
    (hleft : left ≠ '"' ∧ left ≠ '\'') (hright : right ≠ '"' ∧ right ≠ '\'') (depth : Nat)
    (quote : Option Char) (i : Nat) (cs : List Char) :
    ∃ k ≤ cs.length, (cs ≠ [] → 0 < k) ∧
      (groupEnd? left right (depth + 1) quote i cs).getD (i + cs.length) = i + k ∧
      takeGroup left right depth quote cs = (cs.take (k - 1), cs.drop k) := by
  induction cs generalizing depth quote i with
  | nil => exact ⟨0, Nat.le_refl 0, fun h => absurd rfl h, rfl, rfl⟩
  | cons c cs ih =>
    rw [groupEnd?_cons hsides hleft hright, takeGroup]
    split
    · exact ⟨1, by simp, fun _ => Nat.one_pos, rfl, rfl⟩
    · obtain ⟨k, hle, hpos, hend, htake⟩ := ih (groupStep left right depth quote c).1
        (groupStep left right depth quote c).2 (i + 1)
      refine ⟨k + 1, Nat.succ_le_succ hle, fun _ => Nat.succ_pos k, ?_, ?_⟩
      · rw [List.length_cons, show i + (cs.length + 1) = i + 1 + cs.length by omega, hend]
        omega
      · dsimp only
        rw [htake]
        cases cs with
        | nil =>
          obtain rfl : k = 0 := Nat.le_zero.1 hle
          rfl
        | cons d ds =>
          have hone : 0 < k := hpos (List.cons_ne_nil d ds)
          obtain ⟨m, rfl⟩ := Nat.exists_eq_succ_of_ne_zero (Nat.ne_of_gt hone)
          rfl

/-- A group ends where what is read of it ends. -/
theorem skipGroup_append {left right : Char} (hsides : left ≠ right)
    (hleft : left ≠ '"' ∧ left ≠ '\'') (hright : right ≠ '"' ∧ right ≠ '\'')
    (front cs : List Char) :
    ∃ k ≤ cs.length,
      skipGroup left right (front ++ left :: cs) front.length = front.length + 1 + k ∧
      takeGroup left right 0 none cs = (cs.take (k - 1), cs.drop k) := by
  obtain ⟨k, hle, -, hend, htake⟩ := groupEnd?_eq hsides hleft hright 0 none (front.length + 1) cs
  refine ⟨k, hle, ?_, htake⟩
  have hopen : groupEnd? left right 0 none front.length (left :: cs) =
      groupEnd? left right 1 none (front.length + 1) cs := by
    rw [groupEnd?, if_neg (by simp [hleft]), if_pos (beq_self_eq_true left)]
  rw [← hend, skipGroup, List.drop_left, hopen, List.length_append, List.length_cons]
  congr 1
  omega

/-! ### Pseudo-classes -/

/-- The pseudo-class found by indices is the one read from the text: it ends where that ends. -/
structure PseudoAt.Stands (q : PseudoAt) (chars : List Char) (p : Pseudo) : Prop where
  element_eq : q.element = p.element
  name_eq : q.name = p.name
  arguments_eq : q.arguments = p.arguments
  next_eq : ∃ before, chars = before ++ p.rest ∧ q.next = before.length

theorem callAt_append (element : Bool) (front cs : List Char) :
    ∃ q, callAt element (front ++ cs) front.length = .ok q ∧
      q.Stands (front ++ cs) (takeCall element cs) := by
  obtain ⟨name, rest, hname⟩ : ∃ name rest, takeName cs = (name, rest) := ⟨_, _, rfl⟩
  have hcs : name ++ rest = cs := by
    have h := takeName_append_rest cs
    rwa [hname] at h
  have hstop : skipName (front ++ cs) front.length = front.length + name.length := by
    rw [skipName_append, hname]
  have hchars := charsBetween_append front name rest
  rw [hcs] at hchars
  have hwhole : front ++ cs = (front ++ name) ++ rest := by rw [← hcs, List.append_assoc]
  have hlength : front.length + name.length = (front ++ name).length := by
    rw [List.length_append]
  have hhead : (front ++ cs)[front.length + name.length]? = rest.head? := by
    rw [hwhole, hlength]
    cases rest <;> simp
  unfold callAt
  dsimp only
  rw [hstop, hchars, ok_bind, hhead]
  by_cases hgroup : ∃ inner, rest = '(' :: inner
  · obtain ⟨inner, rfl⟩ := hgroup
    obtain ⟨k, hle, hclose, htake⟩ :=
      skipGroup_append (by decide : '(' ≠ ')') (by decide) (by decide) (front ++ name) inner
    rw [← hwhole, ← hlength] at hclose
    have hinner : charsBetween (front ++ cs) (front.length + name.length + 1)
        (max (front.length + name.length + 1 + k - 1) (front.length + name.length + 1)) =
        .ok (inner.take (k - 1)) := by
      have hbetween := charsBetween_append (front ++ name ++ ['(']) (inner.take (k - 1))
        (inner.drop (k - 1))
      rw [List.take_append_drop] at hbetween
      have hstart : (front ++ name ++ ['(']).length = front.length + name.length + 1 := by
        simp [Nat.add_assoc]
      have hend : (inner.take (k - 1)).length = k - 1 := by
        rw [List.length_take]
        omega
      rw [hstart, hend] at hbetween
      rw [hwhole, ← hbetween]
      congr 1
      · simp
      · omega
    rw [if_pos (by rfl), hclose, hinner, ok_bind, takeCall_of_group hname, htake]
    refine ⟨_, rfl, rfl, rfl, rfl, front ++ name ++ '(' :: inner.take k, ?_, ?_⟩
    · simp [hwhole]
    · simp [Nat.min_eq_left hle]
      omega
  · have hhead' : ∀ c ∈ rest.head?, c ≠ '(' := by
      rintro c hc rfl
      exact hgroup ⟨_, (List.cons_head?_tail hc).symm⟩
    rw [if_neg (by simpa using fun h => hhead' '(' h rfl), takeCall_of_not hname hhead']
    exact ⟨_, rfl, rfl, rfl, rfl, front ++ name, hwhole, hlength⟩

theorem pseudoAt_append (front cs : List Char) :
    ∃ q, pseudoAt (front ++ ':' :: cs) front.length = .ok q ∧
      q.Stands (front ++ ':' :: cs) (takePseudo cs) := by
  have hsecond : (front ++ ':' :: cs)[front.length + 1]? = cs.head? := by
    cases cs <;> simp
  unfold pseudoAt
  rw [hsecond]
  by_cases hcolon : ∃ rest, cs = ':' :: rest
  · obtain ⟨rest, rfl⟩ := hcolon
    have hcall := callAt_append true (front ++ [':', ':']) rest
    rw [if_pos (by rfl), takePseudo_colon]
    simpa using hcall
  · have hcall := callAt_append false (front ++ [':']) cs
    have hhead : cs.head? ≠ some ':' := fun h => hcolon ⟨_, (List.cons_head?_tail h).symm⟩
    have hpseudo : takePseudo cs = takeCall false cs := by
      cases cs with
      | nil => rfl
      | cons c cs => exact takePseudo_of_ne (by simpa using hhead) cs
    rw [if_neg (by simpa using hhead), hpseudo]
    simpa using hcall

/-! ### Counters -/

theorem hold_eq_ok {limit : Option Nat} {n : Nat} (h : ∀ l ∈ limit, n ≤ l) :
    hold limit n = .ok n := by
  unfold hold
  rw [if_pos]
  cases limit with
  | none => rfl
  | some l => simpa using h l rfl

theorem addWeights_eq_ok {limit : Option Nat} {v w : Weight}
    (h : ∀ l ∈ limit, v.total + w.total ≤ l) : addWeights limit v w = .ok (v + w) := by
  have hcount {n : Nat} (hn : n ≤ v.total + w.total) : hold limit n = .ok n :=
    hold_eq_ok fun l hl => Nat.le_trans hn (h l hl)
  unfold addWeights
  unfold Weight.total at hcount
  rw [hcount (by omega), hcount (by omega), hcount (by omega)]
  rfl

/-! ### The weight of arguments -/

theorem liftM_eq_ok {α : Type} (a : α) :
    (liftM (Except.ok a : Except Fault α) : Except Breakdown α) = .ok a :=
  rfl

theorem mapM_eq_ok {ε α β : Type} {f : α → Except ε β} {g : α → β} {xs : List α}
    (h : ∀ x ∈ xs, f x = .ok (g x)) : xs.mapM f = .ok (xs.map g) := by
  induction xs with
  | nil => rfl
  | cons x xs ih =>
    obtain ⟨hx, hxs⟩ := List.forall_mem_cons.1 h
    rw [List.mapM_cons, hx, ih hxs]
    rfl

theorem heaviest_eq_ok {f : List Char → Except Breakdown Weight} {list : List Char}
    (h : ∀ s ∈ selectors list, f s = .ok (weigh s)) :
    heaviest f list = .ok ((selectors list).foldl (fun w s => w.max (weigh s)) {}) := by
  have hweights : (listed list).mapM (fun e => f e.2) =
      .ok ((listed list).map fun e => weigh e.2) := by
    refine mapM_eq_ok fun e he => h e.2 ?_
    rw [← map_snd_listed]
    exact List.mem_map_of_mem he
  unfold heaviest
  rw [splitList_listed]
  show (listed list).mapM (fun e => f e.2) >>= _ = _
  rw [hweights]
  show Except.ok (((listed list).map fun e => weigh e.2).foldl Weight.max {}) = _
  rw [← map_snd_listed, List.foldl_map, List.foldl_map]

theorem PseudoAt.Stands.weight_eq_ok {q : PseudoAt} {chars : List Char} {p : Pseudo}
    (h : q.Stands chars p) {f : List Char → Except Breakdown Weight}
    (hf : ∀ inner ∈ p.arguments, ∀ s ∈ selectors inner, f s = .ok (weigh s)) :
    q.weight f = .ok p.weight := by
  unfold PseudoAt.weight Pseudo.weight
  rw [h.element_eq, h.name_eq, h.arguments_eq]
  split
  · rfl
  · cases harguments : p.arguments with
    | none => rfl
    | some inner =>
      dsimp only
      split
      · exact heaviest_eq_ok (hf inner harguments)
      · rfl

/-! ### The loop -/

/-- With so many steps the loop adds the weight of what is left to read, if this has fewer
characters than there are steps and its counts fit into the counters. -/
def Suffices (limit : Option Nat) (steps : Nat) : Prop :=
  ∀ (front cs : List Char) (total : Weight), cs.length < steps → (∀ l ∈ limit, cs.length ≤ l) →
    (∀ l ∈ limit, total.total + (weigh cs).total ≤ l) →
    weightFrom limit steps (front ++ cs) front.length total = .ok (total + weigh cs)

section

variable {limit : Option Nat} {steps : Nat}

/-- One round counts a weight and goes on behind the first character. -/
theorem Suffices.round (h : Suffices limit steps) {front cs rest : List Char} {c : Char}
    {total w : Weight} {next : Nat} (hsteps : cs.length < steps)
    (hlength : ∀ l ∈ limit, cs.length ≤ l)
    (htotal : ∀ l ∈ limit, total.total + (weigh (c :: cs)).total ≤ l)
    (hweigh : weigh (c :: cs) = w + weigh rest) (hrest : rest.length ≤ cs.length)
    (hnext : ∃ before, front ++ c :: cs = before ++ rest ∧ next = before.length) :
    (addWeights limit total w >>= fun sum => weightFrom limit steps (front ++ c :: cs) next sum) =
      .ok (total + weigh (c :: cs)) := by
  obtain ⟨before, hbefore, rfl⟩ := hnext
  have hsum (l : Nat) (hl : l ∈ limit) : total.total + (w.total + (weigh rest).total) ≤ l := by
    have := htotal l hl
    rwa [hweigh, Weight.total_add] at this
  have hadd : addWeights limit total w = .ok (total + w) :=
    addWeights_eq_ok fun l hl => by have := hsum l hl; omega
  rw [hadd, ok_bind, hbefore, hweigh, ← Weight.add_assoc]
  refine h before rest (total + w) (by omega) ?_ ?_
  · intro l hl
    exact Nat.le_trans hrest (hlength l hl)
  · intro l hl
    rw [Weight.total_add, Nat.add_assoc]
    exact hsum l hl

/-- The arguments of a pseudo-class are shorter than what is left to read. -/
theorem Suffices.weight_eq_ok (h : Suffices limit steps) {cs : List Char}
    (hsteps : cs.length < steps) (hlength : ∀ l ∈ limit, cs.length ≤ l) {chars : List Char}
    {q : PseudoAt} (hstands : q.Stands chars (takePseudo cs)) :
    q.weight (fun s => weightFrom limit steps s 0 {}) = .ok (takePseudo cs).weight := by
  refine hstands.weight_eq_ok fun inner hinner s hs => ?_
  have hselector := length_of_mem_selectors hs
  have hargument : inner.length ≤ cs.length := (length_takePseudo cs).2 inner hinner
  have hshort : s.length ≤ cs.length := Nat.le_trans hselector hargument
  have hbelow (l : Nat) (hl : l ∈ limit) : s.length ≤ l := Nat.le_trans hshort (hlength l hl)
  have hcounts (l : Nat) (hl : l ∈ limit) : ({} : Weight).total + (weigh s).total ≤ l := by
    have hnone : ({} : Weight).total = 0 := rfl
    have hweight := total_weigh_le s
    have := hbelow l hl
    omega
  have hrun := h [] s {} (by omega) hbelow hcounts
  rwa [← Weight.zero_eq, Weight.zero_add] at hrun

/-- A name behind the first character is passed over. -/
theorem exists_skipName (front cs : List Char) (c : Char) :
    ∃ before, front ++ c :: cs = before ++ (takeName cs).2 ∧
      skipName (front ++ c :: cs) (front.length + 1) = before.length := by
  have hskip := skipName_append (front ++ [c]) cs
  rw [List.append_assoc, List.length_append] at hskip
  refine ⟨front ++ c :: (takeName cs).1, ?_, ?_⟩
  · rw [List.append_assoc, List.cons_append, takeName_append_rest]
  · rw [List.length_append, List.length_cons, Nat.add_comm (takeName cs).1.length, ← Nat.add_assoc]
    exact hskip

theorem exists_skipGroup (front cs : List Char) :
    ∃ before, front ++ '[' :: cs = before ++ (takeGroup '[' ']' 0 none cs).2 ∧
      skipGroup '[' ']' (front ++ '[' :: cs) front.length = before.length := by
  obtain ⟨k, hle, hskip, htake⟩ :=
    skipGroup_append (by decide : '[' ≠ ']') (by decide) (by decide) front cs
  refine ⟨front ++ '[' :: cs.take k, ?_, ?_⟩
  · rw [htake, List.append_assoc, List.cons_append, List.take_append_drop]
  · rw [hskip, List.length_append, List.length_cons, List.length_take, Nat.min_eq_left hle]
    omega

/-- A round with one more step than it leaves to the next one. -/
theorem Suffices.succ (h : Suffices limit steps) : Suffices limit (steps + 1) := by
  intro front cs total hsteps hlength htotal
  cases cs with
  | nil => simp [weightFrom, weigh_nil, Weight.add_zero]
  | cons c cs =>
    have hrest : cs.length < steps := Nat.lt_of_succ_lt_succ hsteps
    have hfits : ∀ l ∈ limit, cs.length ≤ l := fun l hl => Nat.le_of_succ_le (hlength l hl)
    have hhead : (front ++ c :: cs)[front.length]? = some c := by simp
    rw [weightFrom, hhead]
    dsimp only
    by_cases hhash : c = '#'
    · subst hhash
      exact h.round hrest hfits htotal (weigh_hash cs) (length_takeName cs)
        (exists_skipName front cs '#')
    rw [if_neg (by simpa using hhash)]
    by_cases hdot : c = '.'
    · subst hdot
      exact h.round hrest hfits htotal (weigh_dot cs) (length_takeName cs)
        (exists_skipName front cs '.')
    rw [if_neg (by simpa using hdot)]
    by_cases hsquare : c = '['
    · subst hsquare
      exact h.round hrest hfits htotal (weigh_square cs) (length_takeGroup '[' ']' 0 none cs).2
        (exists_skipGroup front cs)
    rw [if_neg (by simpa using hsquare)]
    by_cases hcolon : c = ':'
    · subst hcolon
      obtain ⟨q, hq, hstands⟩ := pseudoAt_append front cs
      rw [if_pos (by rfl), hq, liftM_eq_ok, ok_bind, h.weight_eq_ok hrest hfits hstands, ok_bind]
      exact h.round hrest hfits htotal (weigh_colon cs) (length_takePseudo cs).1 hstands.next_eq
    rw [if_neg (by simpa using hcolon)]
    by_cases hletter : isAlphabetic c = true ∨ c = '_'
    · have hname : isNameChar c = true := by
        rcases hletter with halpha | rfl
        · exact isNameChar_of_isAlphabetic halpha
        · decide
      rw [if_pos (by simpa using hletter)]
      -- the name begins with the letter itself
      refine h.round hrest hfits htotal (weigh_letter hletter cs) (length_takeName cs)
        ⟨front ++ c :: (takeName cs).1, ?_, ?_⟩
      · rw [List.append_assoc, List.cons_append, takeName_append_rest]
      · rw [skipName_append, takeName_cons hname, List.length_append]
    · have hskip : isSkipped c = true := by
        simpa [isSkipped, hhash, hdot, hsquare, hcolon] using hletter
      rw [weigh_skip hskip] at htotal
      rw [if_neg (by simpa using hletter), weigh_skip hskip]
      simpa using h (front ++ [c]) cs total hrest hfits htotal

/-- Any number of steps suffices for a text with fewer characters. -/
theorem suffices_all (limit : Option Nat) (steps : Nat) : Suffices limit steps := by
  induction steps with
  | zero => exact fun front cs total hsteps => absurd hsteps (Nat.not_lt_zero _)
  | succ steps ih => exact ih.succ

end

/-! ### Weights and specificities -/

theorem weight_eq_ok {limit : Option Nat} {steps : Nat} {text : List Char}
    (hsteps : text.length < steps) (hlimit : ∀ l ∈ limit, text.length ≤ l) :
    weight limit steps text = .ok (weigh text) := by
  have hcounts (l : Nat) (hl : l ∈ limit) : ({} : Weight).total + (weigh text).total ≤ l := by
    have hnone : ({} : Weight).total = 0 := rfl
    have hweight := total_weigh_le text
    have := hlimit l hl
    omega
  have hrun := suffices_all limit steps [] text {} hsteps hlimit hcounts
  rwa [← Weight.zero_eq, Weight.zero_add] at hrun

theorem specificity_eq_ok {limit : Option Nat} {steps : Nat} {text : List Char}
    (hsteps : text.length < steps) (hlimit : ∀ l ∈ limit, 100 * text.length ≤ l) :
    specificity limit steps text = .ok (Selector.specificity text) := by
  have hweight : weight limit steps text = .ok (weigh text) :=
    weight_eq_ok hsteps fun l hl => by have := hlimit l hl; omega
  have hhold {n : Nat} (hn : n ≤ 100 * (weigh text).total) : hold limit n = .ok n := by
    refine hold_eq_ok fun l hl => ?_
    have htotal := total_weigh_le text
    have := hlimit l hl
    omega
  unfold specificity
  unfold Weight.total at hhold
  rw [hweight, ok_bind, hhold (by omega), ok_bind, hhold (by omega), ok_bind, hhold (by omega),
    ok_bind, hhold (by omega)]
  rfl

/-- A selector of any text is weighed in as many steps as it has characters and one more, with all
ranges in range; the counts are together no more than the characters; and if these are no more than
42949672, neither the counts nor the specificity need more than 32 bits. -/
theorem weighing_ends (text : List Char) :
    (∀ steps, text.length < steps → weight none steps text = .ok (weigh text)) ∧
      (weigh text).ids + (weigh text).classes + (weigh text).elements ≤ text.length ∧
      (text.length ≤ 42949672 → ∀ steps, text.length < steps →
        specificity (some (2 ^ 32 - 1)) steps text = .ok (Selector.specificity text)) := by
  refine ⟨?_, total_weigh_le text, ?_⟩
  · intro steps hsteps
    exact weight_eq_ok hsteps nofun
  · intro hshort steps hsteps
    refine specificity_eq_ok hsteps ?_
    intro l hl
    obtain rfl := Option.some.inj hl
    omega

/-- A group that is not closed, among arguments that are not closed, with an escape at the end. -/
theorem weighing_ends_unclosed :
    ":not(#a, :is(.b[x\\".toList.length ≤ 42949672 ∧
      weight none 19 ":not(#a, :is(.b[x\\".toList = .ok ⟨1, 0, 0⟩ ∧
      specificity (some (2 ^ 32 - 1)) 19 ":not(#a, :is(.b[x\\".toList = .ok 100 := by
  have hsteps : ":not(#a, :is(.b[x\\".toList.length < 19 := by decide
  have hshort : ":not(#a, :is(.b[x\\".toList.length ≤ 42949672 := by decide
  have hweigh : weigh ":not(#a, :is(.b[x\\".toList = ⟨1, 0, 0⟩ := by decide +kernel
  obtain ⟨hends, -, hfits⟩ := weighing_ends ":not(#a, :is(.b[x\\".toList
  refine ⟨hshort, ?_, ?_⟩
  · rw [hends 19 hsteps, hweigh]
  · rw [hfits hshort 19 hsteps, Selector.specificity, hweigh]
    rfl

end Offsets
end SheetAudit
