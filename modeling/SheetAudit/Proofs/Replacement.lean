import SheetAudit.Proofs.Closing
import SheetAudit.Proofs.Quantities

/-!
# Taking a length out of a value

A length in a value gives way to a reference.  The searches see a reference as a space, so what is
left of the lengths can be told by what they read before the place, at it and behind it.

## Main definitions

* `IsLength` — a number and a unit that are read as a length other than zero.
* `lengthAt?`, `lengthsIn` — the lengths that are read, place by place.

## Main results

* `lengths_eq_lengthsIn` — the lengths of a value are those that are read place by place.
* `takes_iff` — **a space in place of a length takes that length away, and nothing else, exactly if
  it is read there and no other one appears behind it.**
-/

namespace SheetAudit
namespace Value

open Text

/-! ### Lengths place by place -/

/-- A quantity as the search for lengths gives it. -/
def asLength? (q : Quantity) : Option String :=
  if q.isLength && !q.isZero then some q.text else none

/-- The length that begins a text. -/
def lengthAt? (cs : List Char) : Option String := (readAt? cs).bind asLength?

/-- The lengths that begin in a text, between the text before it, given backwards, and the text
after it. -/
def lengthsIn (back cs after : List Char) : List String :=
  (readings back cs after).filterMap asLength?

theorem lengths_eq_lengthsIn (value : List Char) :
    lengths value = lengthsIn [] (literalPart value) [] := by
  rw [lengths, quantities_eq_readings, lengthsIn, ← List.filterMap_eq_map, List.filterMap_filter]
  refine List.filterMap_congr fun q _ => ?_
  rfl

section

variable {back cs after rest number unit : List Char} {c : Char}

theorem lengthsIn_append (back xs ys after : List Char) :
    lengthsIn back (xs ++ ys) after =
      lengthsIn back xs (ys ++ after) ++ lengthsIn (xs.reverse ++ back) ys after := by
  rw [lengthsIn, readings_append, List.filterMap_append]
  rfl

theorem lengthsIn_cons (back : List Char) (c : Char) (cs after : List Char) :
    lengthsIn back (c :: cs) after =
      (if ready back (c :: (cs ++ after)) then lengthAt? (c :: (cs ++ after)) else none).toList ++
        lengthsIn (c :: back) cs after := by
  rw [lengthsIn, readings, List.filterMap_append]
  congr 1
  cases ready back (c :: (cs ++ after)) with
  | false => rfl
  | true =>
    rw [if_pos rfl, if_pos rfl, lengthAt?]
    cases readAt? (c :: (cs ++ after)) with
    | none => rfl
    | some q =>
      rw [Option.toList_some, Option.bind_some, List.filterMap_cons]
      cases asLength? q <;> rfl

/-! ### Numbers with units of length -/

theorem isUnitChar_eq_false {c : Char} (h : isDecimalDigit c = true ∨ c = '.' ∨ c = '-') :
    isUnitChar c = false := by
  rcases h with hdigit | rfl | rfl
  · refine Bool.eq_false_iff.2 fun hunit => ?_
    simp only [isUnitChar, foldsToLetter, Bool.or_eq_true, beq_iff_eq] at hunit
    rcases hunit with ((halpha | rfl) | rfl) | rfl
    · simp only [Char.isAlpha, Char.isUpper, Char.isLower, Bool.or_eq_true, Bool.and_eq_true,
        decide_eq_true_eq, UInt32.le_iff_toNat_le, ge_iff_le] at halpha
      have hletter : 65 ≤ c.toNat ∧ c.toNat ≤ 90 ∨ 97 ≤ c.toNat ∧ c.toNat ≤ 122 := halpha
      have hascii : isAscii c = true := by
        rw [isAscii, decide_eq_true_eq]
        omega
      rw [isDecimalDigit, if_pos hascii] at hdigit
      simp only [Char.isDigit, Bool.and_eq_true, decide_eq_true_eq, UInt32.le_iff_toNat_le,
        ge_iff_le] at hdigit
      have hten : 48 ≤ c.toNat ∧ c.toNat ≤ 57 := hdigit
      omega
    all_goals exact absurd hdigit (by decide +kernel)
  · decide
  · decide

theorem IsNumber.isUnitChar_eq_false (h : IsNumber number) : ∀ c ∈ number, isUnitChar c = false :=
  fun c hc => Value.isUnitChar_eq_false (h.char c hc)

/-- A number and its unit are told apart. -/
theorem eq_of_number_append {number' unit' : List Char} (h : IsNumber number)
    (h' : IsNumber number')
    (hunit : ∀ c ∈ unit, isUnitChar c = true) (hunit' : ∀ c ∈ unit', isUnitChar c = true)
    (heq : number ++ unit = number' ++ unit') : number = number' ∧ unit = unit' := by
  have hnumber {n u : List Char} (hn : IsNumber n) (hu : ∀ c ∈ u, isUnitChar c = true) :
      (n ++ u).takeWhile (fun c => !isUnitChar c) = n := by
    refine takeWhile_append_eq (fun c hc => ?_) fun c hc => ?_
    · rw [hn.isUnitChar_eq_false c hc]
      rfl
    · rw [hu c (List.mem_of_mem_head? hc)]
      rfl
  obtain rfl : number = number' := by rw [← hnumber h hunit, heq, hnumber h' hunit']
  exact ⟨rfl, List.append_cancel_left heq⟩

/-- A number and a unit in small letters that are read as a length other than zero. -/
structure IsLength (number unit : List Char) : Prop where
  isNumber : IsNumber number
  isUnit : String.ofList unit ∈ lengthUnits
  reads : (quantity? number unit).bind asLength? = some (String.ofList (number ++ unit))

theorem unit_spelling : lengthUnits.all (fun unit =>
    unit.toList.all isUnitChar && !unit.toList.isEmpty &&
      (unit.toList.any fun c => !isHexDigit c) &&
      unit.toList.getLast?.all fun c => !(['v', 'a', 'r'].contains c.toLower)) = true := by
  decide +kernel

/-- The spelling of units of length: unit characters, not all of them hex digits, and at the end
none of the letters that a reference begins with. -/
theorem spelling_of_mem (h : String.ofList unit ∈ lengthUnits) :
    (∀ c ∈ unit, isUnitChar c = true) ∧ unit ≠ [] ∧ (∃ c ∈ unit, isHexDigit c = false) ∧
      ∀ c ∈ unit.getLast?, c.toLower ∉ ['v', 'a', 'r'] := by
  have hcheck := List.all_eq_true.1 unit_spelling _ h
  rw [String.toList_ofList] at hcheck
  simp only [Bool.and_eq_true, List.all_eq_true, Bool.not_eq_true', List.isEmpty_eq_false_iff,
    List.any_eq_true, Option.all_eq_true, List.contains_eq_mem, decide_eq_false_iff_not] at hcheck
  obtain ⟨⟨⟨hchars, hne⟩, hhex⟩, hlast⟩ := hcheck
  exact ⟨hchars, hne, hhex, hlast⟩

theorem quantity?_lowerAscii (number unit : List Char) :
    quantity? number (lowerAscii unit) = quantity? number unit := by
  rw [quantity?, quantity?, lowerAscii_lowerAscii]

/-- What is read as a length, in some letter case. -/
theorem lengthAt?_eq_some {text : String} (h : lengthAt? cs = some text) :
    ∃ number unit rest, cs = number ++ (unit ++ rest) ∧ Stops number (unit ++ rest) ∧
      (∀ c ∈ unit, isUnitChar c = true) ∧ unit ≠ [] ∧ (∀ c ∈ rest.head?, isUnitChar c = false) ∧
      text = String.ofList (number ++ lowerAscii unit) ∧ IsLength number (lowerAscii unit) := by
  obtain ⟨q, hq, htext⟩ := Option.bind_eq_some_iff.1 h
  obtain ⟨⟨number, tail⟩, hnumber, hquantity⟩ := Option.bind_eq_some_iff.1 hq
  obtain ⟨heq, hread, hstops⟩ := takeNumber?_eq_some_iff.1 hnumber
  obtain ⟨unit, rest, rfl, hunit, hrest⟩ := exists_unit tail
  rw [takeWhile_append_eq hunit hrest] at hquantity
  obtain ⟨value, -, rfl⟩ := Option.map_eq_some_iff.1 hquantity
  obtain ⟨hcounts, rfl⟩ : lengthUnits.contains (String.ofList (lowerAscii unit)) = true ∧
      String.ofList (number ++ lowerAscii unit) = text := by
    rw [asLength?, Option.ite_none_right_eq_some, Bool.and_eq_true] at htext
    exact ⟨htext.1.1, Option.some.inj htext.2⟩
  have hmem : String.ofList (lowerAscii unit) ∈ lengthUnits := List.contains_iff_mem.1 hcounts
  refine ⟨number, unit, rest, heq, hstops, hunit, ?_, hrest, rfl, hread, hmem, ?_⟩
  · rintro rfl
    exact (spelling_of_mem hmem).2.1 rfl
  · rw [quantity?_lowerAscii, hquantity]
    exact htext

theorem IsLength.lengthAt?_eq (h : IsLength number unit)
    (hrest : ∀ c ∈ rest.head?, isUnitChar c = false) :
    lengthAt? (number ++ (unit ++ rest)) = some (String.ofList (number ++ unit)) := by
  obtain ⟨hunit, hne, -⟩ := spelling_of_mem h.isUnit
  have hstops : Stops number (unit ++ rest) := by
    obtain ⟨c, unit, rfl⟩ := List.exists_cons_of_ne_nil hne
    intro d hd
    obtain rfl : c = d := Option.some.inj hd
    have hc := hunit c List.mem_cons_self
    constructor
    · refine Bool.eq_false_iff.2 fun hdigit => ?_
      rw [isUnitChar_eq_false (.inl hdigit)] at hc
      cases hc
    · rintro rfl
      exact absurd hc (by decide)
  rw [lengthAt?, readAt?, takeNumber?_eq_some_iff.2 ⟨rfl, h.isNumber, hstops⟩, Option.bind_some,
    takeWhile_append_eq hunit hrest]
  exact h.reads

theorem exists_isLength {l : String} (h : l ∈ lengths cs) :
    ∃ number unit, l = String.ofList (number ++ unit) ∧ IsLength number unit := by
  have hmem (back after : List Char) : ∀ ds, l ∈ lengthsIn back ds after →
      ∃ ds', lengthAt? ds' = some l := by
    intro ds
    induction ds generalizing back with
    | nil => exact fun h => absurd h List.not_mem_nil
    | cons d ds ih =>
      rw [lengthsIn_cons, List.mem_append, Option.mem_toList, Option.ite_none_right_eq_some]
      rintro (⟨-, hread⟩ | hrest)
      · exact ⟨_, hread⟩
      · exact ih _ hrest
  rw [lengths_eq_lengthsIn] at h
  obtain ⟨ds, hread⟩ := hmem _ _ _ h
  obtain ⟨number, unit, -, -, -, -, -, -, rfl, hlength⟩ := lengthAt?_eq_some hread
  exact ⟨number, lowerAscii unit, rfl, hlength⟩

end

/-! ### Before the place -/

section

variable {back y s number unit : List Char}

/-- A length that begins in a text ends in it with its number, or the whole text is the beginning of
the number. -/
theorem number_cases {text : String} (h : lengthAt? (y ++ s) = some text) :
    (∃ n z, takeNumber? y = some (n, z) ∧ z ≠ []) ∨
      ∃ k unit rest, s = k ++ (unit ++ rest) ∧ (∀ c ∈ unit, isUnitChar c = true) ∧ unit ≠ [] ∧
        text = String.ofList (y ++ k ++ lowerAscii unit) ∧
        IsLength (y ++ k) (lowerAscii unit) := by
  obtain ⟨n, unit, rest, heq, hstops, hunit, hne, -, htext, hlength⟩ := lengthAt?_eq_some h
  rcases List.append_eq_append_iff.1 heq with ⟨k, rfl, hs⟩ | ⟨z, rfl, hz⟩
  · exact .inr ⟨k, unit, rest, hs, hunit, hne, htext, hlength⟩
  cases z with
  | nil =>
    rw [List.append_nil] at heq ⊢
    exact .inr ⟨[], unit, rest, hz.symm, hunit, hne, by rwa [List.append_nil],
      by rwa [List.append_nil]⟩
  | cons c z =>
    refine .inl ⟨n, c :: z, takeNumber?_eq_some_iff.2 ⟨rfl, hlength.isNumber, ?_⟩,
      List.cons_ne_nil c z⟩
    rw [hz] at hstops
    exact hstops.of_append

/-- What goes on with a text from which a number has been read decides nothing, unless it is a
unit. -/
theorem lengthAt?_append_of_some {n z : List Char} (h : takeNumber? y = some (n, z)) (hz : z ≠ [])
    (hs : ∀ c ∈ s.head?, isUnitChar c = false) :
    lengthAt? (y ++ s) = (quantity? n (z.takeWhile isUnitChar)).bind asLength? := by
  obtain ⟨rfl, hnumber, hstops⟩ := takeNumber?_eq_some_iff.1 h
  have htake : (z ++ s).takeWhile isUnitChar = z.takeWhile isUnitChar := by
    rw [List.takeWhile_append]
    split
    · next hlength =>
      have hall : s.takeWhile isUnitChar = [] := by
        have hnone := @takeWhile_append_eq isUnitChar [] s nofun hs
        rwa [List.nil_append] at hnone
      rw [hall, List.append_nil]
      exact ((List.takeWhile_prefix isUnitChar).eq_of_length hlength).symm
    · rfl
  rw [lengthAt?, readAt?, List.append_assoc,
    takeNumber?_eq_some_iff.2 ⟨rfl, hnumber, hstops.append hz s⟩, Option.bind_some, htake]

theorem head?_isUnitChar_of_isNumber (h : IsNumber number) (rest : List Char) :
    ∀ c ∈ (number ++ rest).head?, isUnitChar c = false := by
  obtain ⟨c, number, rfl⟩ := List.exists_cons_of_ne_nil h.ne_nil
  intro d hd
  obtain rfl : c = d := Option.some.inj hd
  exact h.isUnitChar_eq_false c List.mem_cons_self

/-- Before a space no length is read that would go on with its number. -/
theorem lengthAt?_before_space (hy : ¬ ∃ n z, takeNumber? y = some (n, z) ∧ z ≠ [])
    (rest : List Char) : lengthAt? (y ++ ' ' :: rest) = none := by
  refine Option.eq_none_iff_forall_ne_some.2 fun text htext => ?_
  obtain ⟨k, unit, after, heq, hunit, hne, -, hlength⟩ := (number_cases htext).resolve_left hy
  -- the space would be part of the number or of the unit
  cases k with
  | nil =>
    obtain ⟨c, unit, rfl⟩ := List.exists_cons_of_ne_nil hne
    obtain rfl : ' ' = c := (List.cons.inj heq).1
    exact absurd (hunit _ List.mem_cons_self) (by decide)
  | cons c k =>
    obtain rfl : ' ' = c := (List.cons.inj heq).1
    exact absurd (hlength.isNumber.isQuantityChar ' ' (by simp)) (by decide)

/-- A length whose number begins before the place is another one than the length at the place. -/
theorem ne_of_begins_before {k u after rest : List Char} (h : IsLength number unit) (hy : y ≠ [])
    (hlength : IsLength (y ++ k) (lowerAscii u)) (hu : ∀ c ∈ u, isUnitChar c = true) (hne : u ≠ [])
    (heq : number ++ (unit ++ rest) = k ++ (u ++ after)) :
    String.ofList (y ++ k ++ lowerAscii u) ≠ String.ofList (number ++ unit) := by
  intro hsame
  -- its unit would begin within the number
  obtain ⟨hnumber, -⟩ := eq_of_number_append hlength.isNumber h.isNumber
    (spelling_of_mem hlength.isUnit).1 (spelling_of_mem h.isUnit).1 (String.ofList_injective hsame)
  rw [← hnumber] at heq
  have hshorter : k.length < (y ++ k).length := by
    rw [List.length_append]
    have := List.length_pos_iff.2 hy
    omega
  rcases List.append_eq_append_iff.1 heq with ⟨j, hj, -⟩ | ⟨j, hj, hunit⟩
  · have := congrArg List.length hj
    rw [List.length_append] at this
    omega
  · cases j with
    | nil =>
      rw [List.append_nil] at hj
      rw [hj] at hshorter
      exact absurd hshorter (Nat.lt_irrefl _)
    | cons c j =>
      obtain ⟨d, u, rfl⟩ := List.exists_cons_of_ne_nil hne
      obtain rfl : d = c := (List.cons.inj hunit).1
      have hdigit := hlength.isNumber.isUnitChar_eq_false d (by rw [hj]; simp)
      rw [hu d List.mem_cons_self] at hdigit
      cases hdigit

/-- Where a length begins before the place, the same is read before a length and before a space; or
nothing is read before the space, and not that length before it, and the text up to the place is
the beginning of a number. -/
theorem lengthAt?_replaced (h : IsLength number unit) (hy : y ≠ []) (rest rest' : List Char) :
    lengthAt? (y ++ (number ++ (unit ++ rest))) = lengthAt? (y ++ ' ' :: rest') ∨
      lengthAt? (y ++ ' ' :: rest') = none ∧
        lengthAt? (y ++ (number ++ (unit ++ rest))) ≠ some (String.ofList (number ++ unit)) ∧
        ∀ c ∈ y, isQuantityChar c = true := by
  by_cases hread : ∃ n z, takeNumber? y = some (n, z) ∧ z ≠ []
  · obtain ⟨n, z, htake, hz⟩ := hread
    refine .inl ?_
    rw [lengthAt?_append_of_some htake hz (head?_isUnitChar_of_isNumber h.isNumber _),
      lengthAt?_append_of_some htake hz]
    intro c hc
    obtain rfl : ' ' = c := Option.some.inj hc
    decide
  have hspace : lengthAt? (y ++ ' ' :: rest') = none := lengthAt?_before_space hread rest'
  cases hvalue : lengthAt? (y ++ (number ++ (unit ++ rest))) with
  | none => exact .inl hspace.symm
  | some text =>
    obtain ⟨k, u, after, heq, hu, hne, rfl, hlength⟩ := (number_cases hvalue).resolve_left hread
    refine .inr ⟨hspace, fun hsame => ?_, fun c hc =>
      hlength.isNumber.isQuantityChar c (List.mem_append_left k hc)⟩
    exact ne_of_begins_before h hy hlength hu hne heq (Option.some.inj hsame)

/-- What may begin at a place is told by the character there. -/
theorem ready_cons_congr (back : List Char) (c : Char) (cs cs' : List Char) :
    ready back (c :: cs) = ready back (c :: cs') := rfl

/-- Before the place, that length is read as often before the length as before a space. -/
theorem count_lengthsIn_replaced (h : IsLength number unit) (back y rest rest' : List Char) :
    (lengthsIn back y (number ++ (unit ++ rest))).count (String.ofList (number ++ unit)) =
      (lengthsIn back y (' ' :: rest')).count (String.ofList (number ++ unit)) := by
  induction y generalizing back with
  | nil => rfl
  | cons c y ih =>
    rw [lengthsIn_cons, lengthsIn_cons, List.count_append, List.count_append, ih,
      ready_cons_congr back c _ (y ++ ' ' :: rest')]
    congr 1
    cases ready back (c :: (y ++ ' ' :: rest')) with
    | false => rfl
    | true =>
      rw [if_pos rfl, if_pos rfl]
      rcases lengthAt?_replaced h (List.cons_ne_nil c y) rest rest' with heq | ⟨hnone, hne, -⟩
      · rw [List.cons_append, List.cons_append] at heq
        rw [heq]
      · rw [List.cons_append] at hnone hne
        rw [hnone, List.count_eq_zero.2]
        · rfl
        · rwa [Option.mem_toList]

/-- Before a place where a number may begin, the same is read before the length and before a
space. -/
theorem lengthsIn_replaced (h : IsLength number unit) (rest rest' : List Char)
    (hready : ready (y.reverse ++ back) (number ++ (unit ++ rest)) = true) :
    lengthsIn back y (number ++ (unit ++ rest)) = lengthsIn back y (' ' :: rest') := by
  induction y generalizing back with
  | nil => rfl
  | cons c y ih =>
    have hrest : ready (y.reverse ++ c :: back) (number ++ (unit ++ rest)) = true := by
      rwa [List.reverse_cons, List.append_assoc] at hready
    rw [lengthsIn_cons, lengthsIn_cons, ih hrest, ready_cons_congr back c _ (y ++ ' ' :: rest')]
    congr 2
    cases hhere : ready back (c :: (y ++ ' ' :: rest')) with
    | false => rfl
    | true =>
      rw [if_pos rfl, if_pos rfl]
      rcases lengthAt?_replaced h (List.cons_ne_nil c y) rest rest' with heq | ⟨-, -, hchars⟩
      · exact heq
      · -- no number begins within another one
        have hnone := ready_eq_false_of_quantity (p := c :: y) hhere (List.cons_ne_nil c y) hchars
          (number ++ (unit ++ rest))
        rw [hnone] at hready
        cases hready

end

/-! ### At the place -/

section

variable {back rest number unit : List Char}

theorem IsLength.isQuantityChar (h : IsLength number unit) :
    ∀ c ∈ number ++ unit, isQuantityChar c = true :=
  h.isNumber.isQuantityChar_append (spelling_of_mem h.isUnit).1

theorem IsLength.ne_nil (h : IsLength number unit) : number ++ unit ≠ [] :=
  List.append_ne_nil_of_left_ne_nil h.isNumber.ne_nil unit

/-- Where a number may begin nothing but what begins there is read within a length. -/
theorem lengthsIn_of_ready (h : IsLength number unit)
    (hready : ready back (number ++ unit ++ rest) = true) :
    lengthsIn back (number ++ unit) rest = (lengthAt? (number ++ unit ++ rest)).toList := by
  have hchars := h.isQuantityChar
  obtain ⟨c, cs, hcs⟩ := List.exists_cons_of_ne_nil h.ne_nil
  rw [hcs] at hready hchars ⊢
  rw [lengthsIn_cons, ← List.cons_append, hready, if_pos rfl, lengthsIn,
    readings_interior hready hchars]
  exact List.append_nil _

theorem not_mem_lengthsIn {cs after : List Char} {text : String}
    (h : ∀ p q, cs = p ++ q → q ≠ [] → ready (p.reverse ++ back) (q ++ after) = true →
      lengthAt? (q ++ after) ≠ some text) : text ∉ lengthsIn back cs after := by
  induction cs generalizing back with
  | nil => exact List.not_mem_nil
  | cons c cs ih =>
    rw [lengthsIn_cons, List.mem_append, Option.mem_toList, Option.ite_none_right_eq_some, not_or]
    refine ⟨fun ⟨hready, hread⟩ => ?_, ih fun p q heq hq hready => ?_⟩
    · exact h [] (c :: cs) rfl (List.cons_ne_nil c cs) hready hread
    · refine h (c :: p) q (by rw [heq, List.cons_append]) hq ?_
      rwa [List.reverse_cons, List.append_assoc]

/-- Elsewhere that length is not read within it. -/
theorem not_mem_lengthsIn_of_not_ready (h : IsLength number unit)
    (hready : ready back (number ++ unit ++ rest) = false) :
    String.ofList (number ++ unit) ∉ lengthsIn back (number ++ unit) rest := by
  refine not_mem_lengthsIn fun p q heq hq hhere hread => ?_
  cases p with
  | nil =>
    rw [List.nil_append] at heq
    rw [heq] at hready
    exact Bool.false_ne_true (hready.symm.trans hhere)
  | cons c p =>
    have hchars : ∀ d ∈ c :: p, isQuantityChar d = true := fun d hd =>
      h.isQuantityChar d (heq ▸ List.mem_append_left q hd)
    -- a number may begin within the length only behind a hex color that reaches into it
    obtain ⟨hends, hword⟩ :
        endsHex ((c :: p).reverse ++ back) = true ∧ endsWord (q ++ rest) = true := by
      rw [ready, Bool.or_eq_true, Bool.and_eq_true] at hhere
      refine hhere.resolve_left fun hhead => ?_
      cases hback : (c :: p).reverse with
      | nil => exact absurd (List.reverse_eq_nil_iff.1 hback) (List.cons_ne_nil c p)
      | cons d ds =>
        rw [hback] at hhead
        have hd := precedesNumber_eq_false
          (hchars d (List.mem_reverse.1 (hback ▸ List.mem_cons_self)))
        exact Bool.false_ne_true (hd.symm.trans hhead)
    have hc := forall_isHexDigit_of_hash (head?_of_endsHex hends)
      (fun d hd => ne_hash_of_isQuantityChar (hchars d hd)) c List.mem_cons_self
    -- what is read there begins like the length, with one of the digits
    obtain ⟨n, u, after, hq', -, -, -, -, htext, hlength⟩ := lengthAt?_eq_some hread
    have htext := String.ofList_injective htext
    obtain ⟨d, n, rfl⟩ := List.exists_cons_of_ne_nil hlength.isNumber.ne_nil
    obtain ⟨e, q, rfl⟩ := List.exists_cons_of_ne_nil hq
    obtain rfl : e = d := (List.cons.inj hq').1
    rw [heq] at htext
    obtain rfl : c = e := (List.cons.inj htext).1
    rw [List.cons_append, endsWord, isWordChar_of_isHexDigit hc] at hword
    cases hword

end

/-! ### Behind the place -/

section

variable {back back' w cs after rest number unit : List Char}

theorem endsHex_append_congr (hback : (back.dropWhile isHexDigit).head? ≠ some '#')
    (hback' : (back'.dropWhile isHexDigit).head? ≠ some '#') (w : List Char) :
    endsHex (w ++ back) = endsHex (w ++ back') := by
  cases hdrop : w.dropWhile isHexDigit with
  | nil =>
    have hall := List.dropWhile_eq_nil_iff.1 hdrop
    rw [endsHex_eq_false, endsHex_eq_false]
    · rwa [List.dropWhile_append_of_pos hall]
    · rwa [List.dropWhile_append_of_pos hall]
  | cons c cs =>
    -- both searches for digits stop within the text
    have hc : isHexDigit c = false := head?_dropWhile w c (by rw [hdrop]; rfl)
    have hall : ∀ d ∈ w.takeWhile isHexDigit, isHexDigit d = true :=
      List.all_eq_true.1 List.all_takeWhile
    have hstop (x : List Char) : ∀ d ∈ (c :: (cs ++ x)).head?, isHexDigit d = false := by
      intro d hd
      obtain rfl : c = d := Option.some.inj hd
      exact hc
    have hform (x : List Char) : w ++ x = w.takeWhile isHexDigit ++ c :: (cs ++ x) := by
      conv_lhs => rw [← List.takeWhile_append_dropWhile (p := isHexDigit) (l := w), hdrop]
      rw [List.append_assoc, List.cons_append]
    rw [endsHex, endsHex, hform back, hform back', takeWhile_append_eq hall (hstop back),
      takeWhile_append_eq hall (hstop back'), dropWhile_append_eq hall (hstop back),
      dropWhile_append_eq hall (hstop back')]
    rfl

/-- Where no hex color can go on, what stands far before does not matter. -/
theorem readings_congr (hback : (back.dropWhile isHexDigit).head? ≠ some '#')
    (hback' : (back'.dropWhile isHexDigit).head? ≠ some '#') (hw : w ≠ []) :
    readings (w ++ back) cs after = readings (w ++ back') cs after := by
  induction cs generalizing w with
  | nil => rfl
  | cons c cs ih =>
    have hready : ready (w ++ back) (c :: (cs ++ after)) =
        ready (w ++ back') (c :: (cs ++ after)) := by
      obtain ⟨d, w, rfl⟩ := List.exists_cons_of_ne_nil hw
      rw [ready, ready, endsHex_append_congr hback hback']
      rfl
    have hrest := ih (List.cons_ne_nil c w)
    rw [List.cons_append, List.cons_append] at hrest
    rw [readings, readings, hready, hrest]

/-- Behind a length no hex color goes on. -/
theorem IsLength.not_hash (h : IsLength number unit) (back : List Char) :
    (((number ++ unit).reverse ++ back).dropWhile isHexDigit).head? ≠ some '#' := by
  intro hhash
  obtain ⟨c, hc, hnot⟩ := (spelling_of_mem h.isUnit).2.2.1
  have hall := forall_isHexDigit_of_hash hhash
    fun d hd => ne_hash_of_isQuantityChar (h.isQuantityChar d hd)
  rw [hall c (List.mem_append_right number hc)] at hnot
  cases hnot

theorem IsLength.ready_eq_false (h : IsLength number unit) (back after : List Char) :
    ready ((number ++ unit).reverse ++ back) after = false := by
  rw [ready, endsHex_eq_false (h.not_hash back), Bool.false_and, Bool.or_false]
  cases hback : (number ++ unit).reverse with
  | nil => exact absurd (List.reverse_eq_nil_iff.1 hback) h.ne_nil
  | cons c cs =>
    exact precedesNumber_eq_false
      (h.isQuantityChar c (List.mem_reverse.1 (hback ▸ List.mem_cons_self)))

/-- Behind a length the same is read as behind a space, but for what begins right there. -/
theorem lengthsIn_behind (h : IsLength number unit) (back rest : List Char) :
    lengthsIn (' ' :: back) rest [] =
      (lengthAt? rest).toList ++ lengthsIn ((number ++ unit).reverse ++ back) rest [] := by
  cases rest with
  | nil => rfl
  | cons c rest =>
    have hspace : ((' ' :: back).dropWhile isHexDigit).head? ≠ some '#' := by
      rw [List.dropWhile_cons_of_neg (by decide)]
      exact fun heq => absurd (Option.some.inj heq) (by decide)
    have hbehind : readings ([c] ++ ' ' :: back) rest [] =
        readings ([c] ++ ((number ++ unit).reverse ++ back)) rest [] :=
      readings_congr hspace (h.not_hash back) (List.cons_ne_nil c [])
    rw [lengthsIn_cons, lengthsIn_cons, h.ready_eq_false, List.append_nil, lengthsIn, lengthsIn]
    exact congrArg (fun qs => (lengthAt? (c :: rest)).toList ++ qs.filterMap asLength?) hbehind

end

/-! ### A length taken away -/

section

variable {number unit : List Char} (front rest : List Char)

theorem lengthsIn_space : lengthsIn [] (front ++ ' ' :: rest) [] =
    lengthsIn [] front (' ' :: rest) ++ lengthsIn (' ' :: front.reverse) rest [] := by
  have hspace (cs : List Char) : lengthAt? (' ' :: cs) = none := by
    rw [lengthAt?, readAt?, takeNumber?_of_isBlank (by decide)]
    rfl
  rw [lengthsIn_append, List.append_nil, List.append_nil, lengthsIn_cons, hspace, ite_self]
  rfl

/-- A length that is read in front of what does not go on with its unit is all that is read. -/
theorem IsLength.lengthAt?_eq_iff (h : IsLength number unit) :
    lengthAt? (number ++ unit ++ rest) = some (String.ofList (number ++ unit)) ↔
      ∀ c ∈ rest.head?, isUnitChar c = false := by
  rw [List.append_assoc]
  refine ⟨fun hread => ?_, h.lengthAt?_eq⟩
  obtain ⟨n, u, after, heq, -, -, -, hafter, htext, -⟩ := lengthAt?_eq_some hread
  have htext := congrArg List.length (String.ofList_injective htext)
  rw [List.length_append, List.length_append, lowerAscii, List.length_map] at htext
  rw [← List.append_assoc, ← List.append_assoc] at heq
  have hlength : (number ++ unit).length = (n ++ u).length := by
    rw [List.length_append, List.length_append, htext]
  rwa [(List.append_inj heq hlength).2]

/-- **A space in place of a length takes that length away, and nothing else, exactly if it is read
there, ends there, and no other one appears behind it.** -/
theorem takes_iff (h : IsLength number unit) :
    (∃ before after,
      lengthsIn [] (front ++ (number ++ unit ++ rest)) [] =
        before ++ String.ofList (number ++ unit) :: after ∧
      lengthsIn [] (front ++ ' ' :: rest) [] = before ++ after) ↔
    ready front.reverse (number ++ unit ++ rest) = true ∧
      (∀ c ∈ rest.head?, isUnitChar c = false) ∧ lengthAt? rest = none := by
  have hvalue : lengthsIn [] (front ++ (number ++ unit ++ rest)) [] =
      lengthsIn [] front (number ++ unit ++ rest) ++
        (lengthsIn front.reverse (number ++ unit) rest ++
          lengthsIn ((number ++ unit).reverse ++ front.reverse) rest []) := by
    rw [lengthsIn_append, lengthsIn_append]
    simp only [List.append_nil]
  rw [hvalue, lengthsIn_space, lengthsIn_behind h]
  have hcount := count_lengthsIn_replaced h [] front rest rest
  rw [← List.append_assoc number] at hcount
  have hsame (hready : ready front.reverse (number ++ unit ++ rest) = true) :
      lengthsIn [] front (number ++ unit ++ rest) = lengthsIn [] front (' ' :: rest) := by
    rw [List.append_assoc]
    refine lengthsIn_replaced h rest rest ?_
    rwa [List.append_nil, ← List.append_assoc]
  rw [← h.lengthAt?_eq_iff]
  constructor
  · rintro ⟨before, after, hbefore, hafter⟩
    -- the length is read once more before, so it is read at the place
    have hmore := congrArg (List.count (String.ofList (number ++ unit))) hbefore
    have hless := congrArg (List.count (String.ofList (number ++ unit))) hafter
    simp only [List.count_append, List.count_cons_self] at hmore hless
    have hmem : String.ofList (number ++ unit) ∈ lengthsIn front.reverse (number ++ unit) rest := by
      refine List.count_pos_iff.1 ?_
      omega
    have hready : ready front.reverse (number ++ unit ++ rest) = true := by
      by_contra hnot
      exact not_mem_lengthsIn_of_not_ready h (Bool.eq_false_iff.2 hnot) hmem
    rw [lengthsIn_of_ready h hready, Option.mem_toList] at hmem
    -- the texts before are the same, so there is no room for another one behind
    have hlong := congrArg List.length hbefore
    have hshort := congrArg List.length hafter
    rw [lengthsIn_of_ready h hready, hmem, hsame hready] at hlong
    simp only [List.length_append, List.length_cons, Option.toList_some, List.length_nil]
      at hlong hshort
    have hnone : (lengthAt? rest).toList.length = 0 := by omega
    exact ⟨hready, hmem, Option.toList_eq_nil_iff.1 (List.eq_nil_of_length_eq_zero hnone)⟩
  · rintro ⟨hready, hread, hnone⟩
    refine ⟨lengthsIn [] front (' ' :: rest),
      lengthsIn ((number ++ unit).reverse ++ front.reverse) rest [], ?_, ?_⟩
    · rw [lengthsIn_of_ready h hready, hread, hsame hready]
      rfl
    · rw [hnone]
      rfl

end

end Value
end SheetAudit
