import SheetAudit.Proofs.References

/-!
# Where numbers are read

A value is read for numbers from left to right, after its hex colors have been taken out.  Which
numbers are read can be told place by place, though: a number is read at a place if the text before
it allows one to begin there, and how far it reaches is told by what follows.

## Main definitions

* `IsNumber`, `Stops` — a number as it is written, and what cannot go on with it.
* `ready` — a number may begin behind the one text and before the other.
* `readAt?` — the quantity that begins a text.
* `readings` — the quantities that are read place by place.
* `CutsHex`, `Agrees` — a hex color is open at a place, and the scan goes on there as it should.

## Main results

* `takeNumber?_eq_some_iff` — the reader of numbers reads as far as it can.
* `readings_append` — what is read in two texts in a row.
* `agrees_of_hex`, `agrees_of_number`, `agrees_of_char` — one step of the scan.
* `quantities_eq_readings` — **the quantities of a value are those that are read place by place.**
-/

namespace SheetAudit
namespace Value

open Text

/-! ### Numbers -/

/-- Digits, with a point among them or without. -/
inductive IsUnsigned : List Char → Prop where
  | whole {digits : List Char} (ne_nil : digits ≠ [])
      (digit : ∀ d ∈ digits, isDecimalDigit d = true) : IsUnsigned digits
  | point {digits part : List Char} (ne_nil : digits ≠ [] ∨ part ≠ [])
      (digit : ∀ d ∈ digits, isDecimalDigit d = true)
      (digit' : ∀ d ∈ part, isDecimalDigit d = true) : IsUnsigned (digits ++ '.' :: part)

/-- A number with or without a minus sign. -/
inductive IsNumber : List Char → Prop where
  | plain {number : List Char} (h : IsUnsigned number) : IsNumber number
  | minus {number : List Char} (h : IsUnsigned number) : IsNumber ('-' :: number)

/-- The text does not go on with the number: it begins with no digit, and with a point only if the
number has one. -/
def Stops (number rest : List Char) : Prop :=
  ∀ c ∈ rest.head?, isDecimalDigit c = false ∧ (c = '.' → '.' ∈ number)

theorem takeWhile_append_of_head {p : Char → Bool} {rest : List Char}
    (hrest : ∀ c ∈ rest.head?, p c = false) (cs : List Char) :
    (cs ++ rest).takeWhile p = cs.takeWhile p := by
  induction cs with
  | nil =>
    cases rest with
    | nil => rfl
    | cons d rest => exact List.takeWhile_cons_of_neg (by simp [hrest d rfl])
  | cons c cs ih => rw [List.cons_append, List.takeWhile_cons, List.takeWhile_cons, ih]

theorem dropWhile_append_of_head {p : Char → Bool} {rest : List Char}
    (hrest : ∀ c ∈ rest.head?, p c = false) (cs : List Char) :
    (cs ++ rest).dropWhile p = cs.dropWhile p ++ rest := by
  induction cs with
  | nil =>
    cases rest with
    | nil => rfl
    | cons d rest => exact List.dropWhile_cons_of_neg (by simp [hrest d rfl])
  | cons c cs ih =>
    rw [List.cons_append, List.dropWhile_cons, List.dropWhile_cons, ih]
    split <;> rfl

theorem takeWhile_append_eq {p : Char → Bool} {cs rest : List Char} (hcs : ∀ c ∈ cs, p c = true)
    (hrest : ∀ c ∈ rest.head?, p c = false) : (cs ++ rest).takeWhile p = cs := by
  rw [takeWhile_append_of_head hrest, List.takeWhile_eq_self_iff.2 hcs]

theorem dropWhile_append_eq {p : Char → Bool} {cs rest : List Char} (hcs : ∀ c ∈ cs, p c = true)
    (hrest : ∀ c ∈ rest.head?, p c = false) : (cs ++ rest).dropWhile p = rest := by
  rw [dropWhile_append_of_head hrest, List.dropWhile_eq_nil_iff.2 hcs, List.nil_append]

theorem head?_dropWhile {p : Char → Bool} (cs : List Char) :
    ∀ c ∈ (cs.dropWhile p).head?, p c = false := by
  intro c hc
  have hnot := List.head?_dropWhile_not p cs
  rw [Option.mem_def.1 hc] at hnot
  exact hnot

section

variable {cs number rest tail : List Char}

theorem isUnsigned_of_takeUnsigned? (h : takeUnsigned? cs = some (number, rest)) :
    cs = number ++ rest ∧ IsUnsigned number ∧ Stops number rest := by
  have hall {ds : List Char} : ∀ d ∈ ds.takeWhile isDecimalDigit, isDecimalDigit d = true :=
    List.all_eq_true.1 List.all_takeWhile
  have hcs : cs = cs.takeWhile isDecimalDigit ++ cs.dropWhile isDecimalDigit :=
    List.takeWhile_append_dropWhile.symm
  rw [takeUnsigned?] at h
  split at h
  · next after heq =>
    dsimp only at h
    split at h
    · cases h
    · next hne =>
      obtain ⟨rfl, rfl⟩ := Prod.mk.inj (Option.some.inj h)
      refine ⟨?_, .point ?_ hall hall, fun c hc => ⟨head?_dropWhile _ c hc, fun _ => by simp⟩⟩
      · rw [List.append_assoc, List.cons_append, List.takeWhile_append_dropWhile, ← heq]
        exact hcs
      · rwa [Bool.and_eq_true, List.isEmpty_iff, List.isEmpty_iff, not_and_or] at hne
  · next hpoint =>
    split at h
    · cases h
    · next hne =>
      obtain ⟨rfl, rfl⟩ := Prod.mk.inj (Option.some.inj h)
      refine ⟨hcs, .whole (by simpa [List.isEmpty_iff] using hne) hall, fun c hc => ?_⟩
      refine ⟨head?_dropWhile _ c hc, fun heq => ?_⟩
      obtain ⟨after, hafter⟩ := List.head?_eq_some_iff.1 (heq ▸ hc)
      exact absurd hafter (hpoint after)

theorem IsUnsigned.takeUnsigned?_append (h : IsUnsigned number) (hstops : Stops number rest) :
    takeUnsigned? (number ++ rest) = some (number, rest) := by
  have hstop : ∀ c ∈ rest.head?, isDecimalDigit c = false := fun c hc => (hstops c hc).1
  cases h with
  | whole ne_nil digit =>
    rw [takeUnsigned?, takeWhile_append_eq digit hstop, dropWhile_append_eq digit hstop]
    split
    · next after =>
      -- a point would be one of the digits
      have hmem := (hstops '.' rfl).2 rfl
      exact absurd (digit '.' hmem) (by decide)
    · rw [if_neg (by simpa [List.isEmpty_iff] using ne_nil)]
  | @point digits part ne_nil digit digit' =>
    have hpoint : ∀ c ∈ ('.' :: (part ++ rest)).head?, isDecimalDigit c = false := by
      intro c hc
      obtain rfl := Option.some.inj hc
      decide
    rw [List.append_assoc, List.cons_append, takeUnsigned?, takeWhile_append_eq digit hpoint,
      dropWhile_append_eq digit hpoint]
    change (if (digits.isEmpty && ((part ++ rest).takeWhile isDecimalDigit).isEmpty) = true
      then none else _) = _
    rw [takeWhile_append_eq digit' hstop, dropWhile_append_eq digit' hstop, if_neg]
    rwa [Bool.and_eq_true, List.isEmpty_iff, List.isEmpty_iff, not_and_or]

theorem takeUnsigned?_eq_some_iff :
    takeUnsigned? cs = some (number, rest) ↔
      cs = number ++ rest ∧ IsUnsigned number ∧ Stops number rest := by
  refine ⟨isUnsigned_of_takeUnsigned?, ?_⟩
  rintro ⟨rfl, hnumber, hstops⟩
  exact hnumber.takeUnsigned?_append hstops

theorem IsUnsigned.head?_ne (h : IsUnsigned number) : number ≠ [] ∧ number.head? ≠ some '-' := by
  have hdigit {d : Char} (hd : isDecimalDigit d = true) : d ≠ '-' := by
    rintro rfl
    exact absurd hd (by decide)
  cases h with
  | whole ne_nil digit =>
    obtain ⟨d, ds, rfl⟩ := List.exists_cons_of_ne_nil ne_nil
    exact ⟨ne_nil, fun heq => hdigit (digit d List.mem_cons_self) (Option.some.inj heq)⟩
  | @point digits part ne_nil digit _ =>
    refine ⟨by simp, ?_⟩
    cases digits with
    | nil => exact fun heq => absurd (Option.some.inj heq) (by decide)
    | cons d ds => exact fun heq => hdigit (digit d List.mem_cons_self) (Option.some.inj heq)

/-- The reader of numbers reads as far as it can. -/
theorem takeNumber?_eq_some_iff :
    takeNumber? cs = some (number, rest) ↔
      cs = number ++ rest ∧ IsNumber number ∧ Stops number rest := by
  rw [takeNumber?.eq_def]
  split
  · next tail =>
    rw [Option.map_eq_some_iff]
    constructor
    · rintro ⟨⟨unsigned, after⟩, hunsigned, heq⟩
      obtain ⟨rfl, rfl⟩ := Prod.mk.inj heq
      obtain ⟨rfl, hunsigned, hstops⟩ := takeUnsigned?_eq_some_iff.1 hunsigned
      refine ⟨rfl, .minus hunsigned, fun c hc => ⟨(hstops c hc).1, fun hpoint => ?_⟩⟩
      exact List.mem_cons_of_mem _ ((hstops c hc).2 hpoint)
    · rintro ⟨heq, hnumber, hstops⟩
      cases hnumber with
      | plain h =>
        obtain ⟨d, ds, rfl⟩ := List.exists_cons_of_ne_nil h.head?_ne.1
        obtain rfl : '-' = d := (List.cons.inj heq).1
        exact absurd rfl h.head?_ne.2
      | @minus unsigned h =>
        obtain rfl := (List.cons.inj heq).2
        refine ⟨(unsigned, rest), takeUnsigned?_eq_some_iff.2 ⟨rfl, h, fun c hc => ?_⟩, rfl⟩
        exact ⟨(hstops c hc).1, fun hpoint =>
          List.mem_of_ne_of_mem (by decide) ((hstops c hc).2 hpoint)⟩
  · next hminus =>
    rw [takeUnsigned?_eq_some_iff]
    refine and_congr_right fun heq => and_congr_left fun _ => ⟨.plain, fun hnumber => ?_⟩
    cases hnumber with
    | plain h => exact h
    | minus h => exact absurd heq (hminus _)

theorem IsNumber.ne_nil (h : IsNumber number) : number ≠ [] := by
  cases h with
  | plain h => exact h.head?_ne.1
  | minus h => exact List.cons_ne_nil _ _

theorem IsNumber.char (h : IsNumber number) :
    ∀ c ∈ number, isDecimalDigit c = true ∨ c = '.' ∨ c = '-' := by
  have hunsigned {number : List Char} (h : IsUnsigned number) :
      ∀ c ∈ number, isDecimalDigit c = true ∨ c = '.' := by
    intro c hc
    cases h with
    | whole _ digit => exact .inl (digit c hc)
    | point _ digit digit' =>
      rcases List.mem_append.1 hc with hc | hc
      · exact .inl (digit c hc)
      · exact (List.mem_cons.1 hc).elim .inr fun hc => .inl (digit' c hc)
  intro c hc
  cases h with
  | plain h => exact (hunsigned h c hc).imp_right .inl
  | minus h =>
    rcases List.mem_cons.1 hc with rfl | hc
    · exact .inr (.inr rfl)
    · exact (hunsigned h c hc).imp_right .inl

theorem Stops.append (h : Stops number rest) (hne : rest ≠ []) (tail : List Char) :
    Stops number (rest ++ tail) := by
  obtain ⟨c, rest, rfl⟩ := List.exists_cons_of_ne_nil hne
  exact h

theorem Stops.of_append (h : Stops number (rest ++ tail)) : Stops number rest := by
  cases rest with
  | nil => exact nofun
  | cons c rest => exact h

end

/-! ### Characters of quantities -/

/-- A digit, a point, a minus sign, or part of a unit. -/
def isQuantityChar (c : Char) : Bool :=
  isDecimalDigit c || c == '.' || c == '-' || isUnitChar c

theorem isQuantityChar_eq_false {c : Char} (h : precedesNumber c = true ∨ c = '#') :
    isQuantityChar c = false := by
  rcases h with h | rfl
  · simp only [precedesNumber, Bool.or_eq_true, beq_iff_eq] at h
    rcases h with ((((hblank | rfl) | rfl) | rfl) | rfl) | rfl
    · simpa using of_isBlank (p := fun c => !isQuantityChar c) (by decide +kernel) hblank
    all_goals decide
  · decide

theorem precedesNumber_eq_false {c : Char} (h : isQuantityChar c = true) :
    precedesNumber c = false := by
  by_contra hc
  rw [isQuantityChar_eq_false (.inl (by simpa using hc))] at h
  cases h

theorem ne_hash_of_isQuantityChar {c : Char} (h : isQuantityChar c = true) : c ≠ '#' := by
  rintro rfl
  exact absurd h (by decide)

theorem IsNumber.isQuantityChar {number : List Char} (h : IsNumber number) :
    ∀ c ∈ number, isQuantityChar c = true := by
  intro c hc
  rcases h.char c hc with hdigit | rfl | rfl
  · simp [Value.isQuantityChar, hdigit]
  · decide
  · decide

theorem isQuantityChar_of_isUnitChar {c : Char} (h : isUnitChar c = true) :
    isQuantityChar c = true := by
  simp [isQuantityChar, h]

theorem IsNumber.isQuantityChar_append {number unit : List Char} (h : IsNumber number)
    (hunit : ∀ c ∈ unit, isUnitChar c = true) :
    ∀ c ∈ number ++ unit, Value.isQuantityChar c = true := fun c hc =>
  (List.mem_append.1 hc).elim (h.isQuantityChar c)
    fun hc => isQuantityChar_of_isUnitChar (hunit c hc)

/-- A text is a unit, as far as its characters go, and what follows it. -/
theorem exists_unit (cs : List Char) : ∃ unit rest, cs = unit ++ rest ∧
    (∀ c ∈ unit, isUnitChar c = true) ∧ ∀ c ∈ rest.head?, isUnitChar c = false :=
  ⟨_, _, List.takeWhile_append_dropWhile.symm, List.all_eq_true.1 List.all_takeWhile,
    head?_dropWhile cs⟩

theorem isHexDigit_eq_false {c : Char} (h : precedesNumber c = true) : isHexDigit c = false := by
  simp only [precedesNumber, Bool.or_eq_true, beq_iff_eq] at h
  rcases h with ((((hblank | rfl) | rfl) | rfl) | rfl) | rfl
  · exact isHexDigit_of_isBlank hblank
  all_goals decide

/-! ### Reading place by place -/

/-- The text, given backwards, ends in a hash with three to eight hex digits. -/
def endsHex (back : List Char) : Bool :=
  let digits := back.takeWhile isHexDigit
  3 ≤ digits.length && digits.length ≤ 8 && (back.dropWhile isHexDigit).head? == some '#'

/-- A number may begin between the text before it, given backwards, and the text after it: at the
start, behind what precedes numbers, and behind a hex color. -/
def ready (back after : List Char) : Bool :=
  back.head?.all precedesNumber || endsHex back && endsWord after

/-- The quantity that begins a text. -/
def readAt? (cs : List Char) : Option Quantity :=
  (takeNumber? cs).bind fun r => quantity? r.1 (r.2.takeWhile isUnitChar)

/-- The quantities that begin in a text, between the text before it, given backwards, and the text
after it. -/
def readings (back : List Char) : (cs after : List Char) → List Quantity
  | [], _ => []
  | c :: cs, after =>
    (if ready back (c :: (cs ++ after)) then readAt? (c :: (cs ++ after)) else none).toList ++
      readings (c :: back) cs after

/-- What is read in two texts in a row. -/
theorem readings_append (back xs ys after : List Char) :
    readings back (xs ++ ys) after =
      readings back xs (ys ++ after) ++ readings (xs.reverse ++ back) ys after := by
  induction xs generalizing back with
  | nil => rfl
  | cons x xs ih =>
    rw [List.cons_append, readings, readings, ih, List.append_assoc, List.append_assoc,
      List.reverse_cons, List.append_assoc]
    rfl

section

variable {back cs after rest : List Char} {c : Char}

/-- Behind a hash, or a hex digit after one, a number begins only where a hex color ends. -/
theorem ready_eq_false (hhash : (back.dropWhile isHexDigit).head? = some '#')
    (hafter : endsWord after = false) : ready back after = false := by
  have hhead : back.head?.all precedesNumber = false := by
    cases back with
    | nil => cases hhash
    | cons c back =>
      refine Bool.eq_false_iff.2 fun hc => ?_
      have hdigit : isHexDigit c = false := isHexDigit_eq_false hc
      rw [List.dropWhile_cons_of_neg (by simp [hdigit])] at hhash
      rw [Option.some.inj hhash] at hc
      change precedesNumber '#' = true at hc
      exact absurd hc (by decide)
  rw [ready, hhead, hafter, Bool.and_false]
  rfl

theorem dropWhile_reverse_append {p : List Char} (hdigits : ∀ c ∈ p, isHexDigit c = true) :
    (p.reverse ++ back).dropWhile isHexDigit = back.dropWhile isHexDigit :=
  List.dropWhile_append_of_pos fun c hc => hdigits c (List.mem_reverse.1 hc)

/-- A hash before the hex digits at the end of a text without hashes stands before the text. -/
theorem forall_isHexDigit_of_hash {p : List Char}
    (hhash : ((p.reverse ++ back).dropWhile isHexDigit).head? = some '#') (hp : ∀ c ∈ p, c ≠ '#') :
    ∀ c ∈ p, isHexDigit c = true := by
  cases hdrop : p.reverse.dropWhile isHexDigit with
  | nil => exact fun c hc => List.dropWhile_eq_nil_iff.1 hdrop c (List.mem_reverse.2 hc)
  | cons d ds =>
    rw [List.dropWhile_append, hdrop, List.isEmpty_cons, if_neg Bool.false_ne_true] at hhash
    have hmem : d ∈ p.reverse := by
      refine (List.dropWhile_sublist isHexDigit).subset ?_
      rw [hdrop]
      exact List.mem_cons_self
    exact absurd (Option.some.inj hhash) (hp d (List.mem_reverse.1 hmem))

/-- Where a number begins no hex color goes on. -/
theorem not_hash_of_ready {p : List Char} (hready : ready back (p ++ after) = true) (hne : p ≠ [])
    (hp : ∀ c ∈ p, c ≠ '#') : ((p.reverse ++ back).dropWhile isHexDigit).head? ≠ some '#' := by
  intro hhash
  have hdigits := forall_isHexDigit_of_hash hhash hp
  rw [dropWhile_reverse_append hdigits] at hhash
  have hword : endsWord (p ++ after) = false := by
    obtain ⟨c, p, rfl⟩ := List.exists_cons_of_ne_nil hne
    rw [List.cons_append, endsWord, isWordChar_of_isHexDigit (hdigits c List.mem_cons_self)]
    rfl
  rw [ready_eq_false hhash hword] at hready
  cases hready

theorem endsHex_eq_false (h : (back.dropWhile isHexDigit).head? ≠ some '#') :
    endsHex back = false := by
  rw [endsHex, Bool.and_eq_false_iff]
  exact .inr (beq_false_of_ne h)

/-- Within a number with its unit, and right behind it, no other one begins. -/
theorem ready_eq_false_of_quantity {p : List Char} (hready : ready back (p ++ rest) = true)
    (hne : p ≠ []) (hp : ∀ c ∈ p, isQuantityChar c = true) (after : List Char) :
    ready (p.reverse ++ back) after = false := by
  have hhash := not_hash_of_ready hready hne fun c hc => ne_hash_of_isQuantityChar (hp c hc)
  rw [ready, endsHex_eq_false hhash, Bool.false_and, Bool.or_false]
  cases hback : p.reverse with
  | nil => exact absurd (List.reverse_eq_nil_iff.1 hback) hne
  | cons c cs =>
    exact precedesNumber_eq_false (hp c (List.mem_reverse.1 (hback ▸ List.mem_cons_self)))

/-- Nothing is read in a text in which no number may begin. -/
theorem readings_eq_nil
    (h : ∀ p q, cs = p ++ q → q ≠ [] → ready (p.reverse ++ back) (q ++ after) = false) :
    readings back cs after = [] := by
  induction cs generalizing back with
  | nil => rfl
  | cons c cs ih =>
    have hhead := h [] (c :: cs) rfl (List.cons_ne_nil c cs)
    rw [readings, ih fun p q heq hq => ?_]
    · rw [List.reverse_nil, List.nil_append, List.cons_append] at hhead
      rw [hhead]
      rfl
    · have hrest := h (c :: p) q (by rw [heq, List.cons_append]) hq
      rwa [List.reverse_cons, List.append_assoc] at hrest

/-- Nothing more is read within a number with its unit. -/
theorem readings_interior (hready : ready back (c :: cs ++ rest) = true)
    (hchars : ∀ d ∈ c :: cs, isQuantityChar d = true) : readings (c :: back) cs rest = [] := by
  refine readings_eq_nil fun p q heq hq => ?_
  have hall : ∀ d ∈ c :: p, isQuantityChar d = true := fun d hd => hchars d (by
    rw [heq]
    exact (List.mem_cons.1 hd).elim (fun h => h ▸ List.mem_cons_self) fun h => by simp [h])
  have hready' : ready back ((c :: p) ++ (q ++ rest)) = true := by
    rwa [List.cons_append, ← List.append_assoc p, ← heq]
  have hfalse := ready_eq_false_of_quantity hready' (List.cons_ne_nil c p) hall (q ++ rest)
  rwa [List.reverse_cons, List.append_assoc] at hfalse

/-- A number with its unit is read at once. -/
theorem readings_quantity {number unit : List Char}
    (hready : ready back (number ++ (unit ++ rest)) = true) (hnumber : IsNumber number)
    (hunit : ∀ c ∈ unit, isUnitChar c = true) (hstops : Stops number (unit ++ rest))
    (hrest : ∀ c ∈ rest.head?, isUnitChar c = false) :
    readings back (number ++ unit) rest = (quantity? number unit).toList := by
  have hread : readAt? (number ++ (unit ++ rest)) = quantity? number unit := by
    rw [readAt?, takeNumber?_eq_some_iff.2 ⟨rfl, hnumber, hstops⟩, Option.bind_some,
      takeWhile_append_eq hunit hrest]
  have hchars := hnumber.isQuantityChar_append hunit
  rw [← List.append_assoc] at hready hread
  obtain ⟨c, cs, hcs⟩ :=
    List.exists_cons_of_ne_nil (List.append_ne_nil_of_left_ne_nil hnumber.ne_nil unit)
  rw [hcs] at hready hread hchars ⊢
  rw [readings, ← List.cons_append, hready, if_pos rfl, hread, readings_interior hready hchars,
    List.append_nil]

end

/-! ### Hex colors -/

section

variable {c : Char} {cs hex rest : List Char}

theorem takeHex?_eq_some_iff : takeHex? cs = some (hex, rest) ↔
    ∃ digits, cs = '#' :: (digits ++ rest) ∧ hex = '#' :: digits ∧
      (∀ d ∈ digits, isHexDigit d = true) ∧ 3 ≤ digits.length ∧ digits.length ≤ 8 ∧
      endsWord rest = true := by
  constructor
  · intro h
    rw [takeHex?.eq_def] at h
    split at h
    · next cs =>
      dsimp only at h
      split at h
      · next hcond =>
        obtain ⟨rfl, rfl⟩ := Prod.mk.inj (Option.some.inj h)
        rw [Bool.and_eq_true, Bool.and_eq_true, decide_eq_true_eq, decide_eq_true_eq] at hcond
        refine ⟨_, ?_, rfl, List.all_eq_true.1 List.all_takeWhile, hcond.1.1, hcond.1.2, hcond.2⟩
        rw [List.takeWhile_append_dropWhile]
      · cases h
    · cases h
  · rintro ⟨digits, rfl, rfl, hdigits, hleast, hmost, hends⟩
    have hrest : ∀ c ∈ rest.head?, isHexDigit c = false := by
      intro c hc
      obtain ⟨tail, rfl⟩ := List.head?_eq_some_iff.1 hc
      refine Bool.eq_false_iff.2 fun hhex => ?_
      rw [endsWord, isWordChar_of_isHexDigit hhex] at hends
      cases hends
    rw [takeHex?, takeWhile_append_eq hdigits hrest, dropWhile_append_eq hdigits hrest, if_pos]
    simp [hleast, hmost, hends]

theorem cutHex_cons_of_none (h : takeHex? (c :: cs) = none) :
    cutHex (c :: cs) = .inl c :: cutHex cs := by
  rw [cutHex]
  split
  · next heq =>
    rw [h] at heq
    cases heq
  · rfl

theorem cutHex_cons_of_some (h : takeHex? (c :: cs) = some (hex, rest)) :
    cutHex (c :: cs) = .inr hex :: cutHex rest := by
  rw [cutHex]
  split
  · next heq =>
    obtain ⟨rfl, rfl⟩ := Prod.mk.inj (Option.some.inj (h.symm.trans heq))
    rfl
  · next heq =>
    rw [h] at heq
    cases heq

theorem blankHex_cons_of_none (h : takeHex? (c :: cs) = none) :
    blankHex (c :: cs) = c :: blankHex cs := by
  rw [blankHex, cutHex_cons_of_none h, List.map_cons]
  rfl

theorem blankHex_cons_of_some (h : takeHex? (c :: cs) = some (hex, rest)) :
    blankHex (c :: cs) = ' ' :: blankHex rest := by
  rw [blankHex, cutHex_cons_of_some h, List.map_cons]
  rfl

theorem takeHex?_cons_of_ne (h : c ≠ '#') (cs : List Char) : takeHex? (c :: cs) = none := by
  rw [takeHex?.eq_def]
  split
  · next heq => exact absurd (List.cons.inj heq).1 h
  · rfl

theorem blankHex_append {p : List Char} (hp : ∀ c ∈ p, c ≠ '#') (cs : List Char) :
    blankHex (p ++ cs) = p ++ blankHex cs := by
  induction p with
  | nil => rfl
  | cons c p ih =>
    obtain ⟨hc, hp⟩ := List.forall_mem_cons.1 hp
    rw [List.cons_append, blankHex_cons_of_none (takeHex?_cons_of_ne hc _), ih hp, List.cons_append]

/-- The text with its hex colors taken out begins with a space or as it did before. -/
theorem blankHex_cases (cs : List Char) :
    (∃ tail, blankHex cs = ' ' :: tail ∧ cs.head? = some '#') ∨
      (blankHex cs).head? = cs.head? := by
  cases cs with
  | nil => exact .inr (by rw [blankHex, cutHex]; rfl)
  | cons c cs =>
    cases h : takeHex? (c :: cs) with
    | none => exact .inr (by rw [blankHex_cons_of_none h]; rfl)
    | some r =>
      obtain ⟨digits, heq, -⟩ := takeHex?_eq_some_iff.1 h
      exact .inl ⟨_, blankHex_cons_of_some h, congrArg some (List.cons.inj heq).1⟩

/-- A text without spaces before what is left of another is left from the same text. -/
theorem exists_of_blankHex_eq {p : List Char} (hp : ' ' ∉ p) (h : blankHex cs = p ++ rest) :
    ∃ tail, cs = p ++ tail ∧ blankHex tail = rest := by
  induction p generalizing cs with
  | nil => exact ⟨cs, rfl, h⟩
  | cons d p ih =>
    cases cs with
    | nil =>
      rw [blankHex, cutHex] at h
      cases h
    | cons c cs =>
      cases hhex : takeHex? (c :: cs) with
      | none =>
        rw [blankHex_cons_of_none hhex] at h
        obtain ⟨rfl, hcs⟩ := List.cons.inj h
        obtain ⟨tail, rfl, htail⟩ := ih (fun hmem => hp (List.mem_cons_of_mem c hmem)) hcs
        exact ⟨tail, rfl, htail⟩
      | some r =>
        rw [blankHex_cons_of_some hhex] at h
        exact absurd ((List.cons.inj h).1 ▸ List.mem_cons_self) hp

/-- Numbers are read in the same way where hex colors have been taken out. -/
theorem takeNumber?_blankHex (cs : List Char) :
    takeNumber? (blankHex cs) = (takeNumber? cs).map fun r => (r.1, blankHex r.2) := by
  have hstops (number tail : List Char) : Stops number (blankHex tail) ↔ Stops number tail := by
    rcases blankHex_cases tail with ⟨rest, heq, hhead⟩ | heq
    · rw [Stops, Stops, heq, hhead]
      constructor
      · intro _ c hc
        obtain rfl : '#' = c := Option.some.inj hc
        exact ⟨by decide, fun h => absurd h (by decide)⟩
      · intro _ c hc
        obtain rfl : ' ' = c := Option.some.inj hc
        exact ⟨by decide, fun h => absurd h (by decide)⟩
    · rw [Stops, Stops, heq]
  refine Option.ext fun ⟨number, rest⟩ => ?_
  rw [Option.map_eq_some_iff, takeNumber?_eq_some_iff]
  constructor
  · rintro ⟨heq, hnumber, hrest⟩
    have hspace : ' ' ∉ number := fun hmem =>
      absurd (hnumber.isQuantityChar ' ' hmem) (by decide)
    obtain ⟨tail, rfl, rfl⟩ := exists_of_blankHex_eq hspace heq
    exact ⟨(number, tail), takeNumber?_eq_some_iff.2 ⟨rfl, hnumber, (hstops _ _).1 hrest⟩, rfl⟩
  · rintro ⟨⟨number', tail⟩, hread, heq⟩
    obtain ⟨rfl, rfl⟩ := Prod.mk.inj heq
    obtain ⟨rfl, hnumber, hrest⟩ := takeNumber?_eq_some_iff.1 hread
    refine ⟨blankHex_append (fun c hc => ?_) tail, hnumber, (hstops _ _).2 hrest⟩
    exact ne_hash_of_isQuantityChar (hnumber.isQuantityChar c hc)

end

/-! ### The scan -/

/-- A hex color that began in the text before, given backwards, ends within the text after it. -/
def CutsHex (back cs : List Char) : Prop :=
  ∃ digits rest, cs = digits ++ rest ∧ digits ≠ [] ∧ (∀ d ∈ digits, isHexDigit d = true) ∧
    endsHex (digits.reverse ++ back) = true ∧ endsWord rest = true

section

variable {back cs rest hex number : List Char} {c : Char}

theorem head?_of_endsHex (h : endsHex back = true) :
    (back.dropWhile isHexDigit).head? = some '#' := by
  rw [endsHex, Bool.and_eq_true, beq_iff_eq] at h
  exact h.2

theorem endsHex_append_iff {digits : List Char} (hdigits : ∀ d ∈ digits, isHexDigit d = true) :
    endsHex (digits.reverse ++ '#' :: back) = true ↔ 3 ≤ digits.length ∧ digits.length ≤ 8 := by
  have hreverse : ∀ d ∈ digits.reverse, isHexDigit d = true := fun d hd =>
    hdigits d (List.mem_reverse.1 hd)
  have hhash : ∀ c ∈ ('#' :: back).head?, isHexDigit c = false := by
    intro c hc
    obtain rfl : '#' = c := Option.some.inj hc
    rfl
  rw [endsHex, takeWhile_append_eq hreverse hhash, dropWhile_append_eq hreverse hhash]
  simp

theorem not_cutsHex_nil (cs : List Char) : ¬ CutsHex [] cs := by
  rintro ⟨digits, rest, -, -, hdigits, hends, -⟩
  have hhash := head?_of_endsHex hends
  rw [dropWhile_reverse_append hdigits] at hhash
  cases hhash

/-- Behind a number with its unit no hex color goes on. -/
theorem not_cutsHex_of_quantity {p : List Char} (hready : ready back (p ++ rest) = true)
    (hne : p ≠ []) (hp : ∀ c ∈ p, isQuantityChar c = true) : ¬ CutsHex (p.reverse ++ back) cs := by
  rintro ⟨digits, after, -, -, hdigits, hends, -⟩
  have hhash := head?_of_endsHex hends
  rw [dropWhile_reverse_append hdigits] at hhash
  exact not_hash_of_ready hready hne (fun c hc => ne_hash_of_isQuantityChar (hp c hc)) hhash

/-- Behind a hex color none goes on. -/
theorem not_cutsHex_of_endsWord (h : endsWord cs = true) : ¬ CutsHex back cs := by
  rintro ⟨digits, rest, rfl, hne, hdigits, -, -⟩
  obtain ⟨d, digits, rfl⟩ := List.exists_cons_of_ne_nil hne
  rw [List.cons_append, endsWord, isWordChar_of_isHexDigit (hdigits d List.mem_cons_self)] at h
  cases h

/-- A character that begins no hex color leaves none open. -/
theorem not_cutsHex_cons (h : ¬ CutsHex back (c :: cs)) (hhex : takeHex? (c :: cs) = none) :
    ¬ CutsHex (c :: back) cs := by
  rintro ⟨digits, rest, rfl, hne, hdigits, hends, hword⟩
  by_cases hc : isHexDigit c = true
  · refine h ⟨c :: digits, rest, rfl, List.cons_ne_nil c digits, ?_, ?_, hword⟩
    · exact List.forall_mem_cons.2 ⟨hc, hdigits⟩
    · rwa [List.reverse_cons, List.append_assoc]
  by_cases hhash : c = '#'
  · subst hhash
    obtain ⟨hleast, hmost⟩ := (endsHex_append_iff hdigits).1 hends
    have hsome := takeHex?_eq_some_iff.2 ⟨digits, rfl, rfl, hdigits, hleast, hmost, hword⟩
    rw [hhex] at hsome
    cases hsome
  · have hhead := head?_of_endsHex hends
    rw [dropWhile_reverse_append hdigits, List.dropWhile_cons_of_neg hc] at hhead
    exact hhash (Option.some.inj hhead)

theorem ready_cons (h : ¬ CutsHex back (c :: cs)) : ready (c :: back) cs = precedesNumber c := by
  have hfalse : (endsHex (c :: back) && endsWord cs) = false := by
    refine Bool.eq_false_iff.2 fun hboth => ?_
    obtain ⟨hends, hword⟩ := Bool.and_eq_true_iff.1 hboth
    by_cases hc : isHexDigit c = true
    · exact h ⟨[c], cs, rfl, List.cons_ne_nil c [], by simpa using hc, hends, hword⟩
    · rw [endsHex, List.takeWhile_cons_of_neg hc] at hends
      cases hends
  rw [ready, hfalse, Bool.or_false]
  rfl

theorem quantitiesFrom_number (h : takeNumber? cs = some (number, rest)) :
    quantitiesFrom true cs = (quantity? number (rest.takeWhile isUnitChar)).toList ++
      quantitiesFrom false (rest.dropWhile isUnitChar) := by
  cases cs with
  | nil =>
    obtain ⟨heq, hnumber, -⟩ := takeNumber?_eq_some_iff.1 h
    exact absurd (List.append_eq_nil_iff.1 heq.symm).1 hnumber.ne_nil
  | cons c cs =>
    rw [quantitiesFrom, if_pos rfl]
    split
    · next heq =>
      obtain ⟨rfl, rfl⟩ := Prod.mk.inj (Option.some.inj (h.symm.trans heq))
      rfl
    · next heq =>
      rw [h] at heq
      cases heq

theorem quantitiesFrom_cons {r : Bool} (h : (if r then takeNumber? (c :: cs) else none) = none) :
    quantitiesFrom r (c :: cs) = quantitiesFrom (precedesNumber c) cs := by
  rw [quantitiesFrom]
  split
  · next heq =>
    rw [h] at heq
    cases heq
  · rfl

theorem readings_cons_of_none
    (h : (if ready back (c :: cs) then takeNumber? (c :: cs) else none) = none) :
    readings back (c :: cs) [] = readings (c :: back) cs [] := by
  rw [readings, List.append_nil]
  cases hready : ready back (c :: cs) with
  | false => rfl
  | true =>
    rw [hready, if_pos rfl] at h
    rw [if_pos rfl, readAt?, h]
    rfl

/-- Nothing is read within a hex color. -/
theorem readings_hex (h : takeHex? (c :: cs) = some (hex, rest)) :
    readings back (c :: cs) [] = readings (hex.reverse ++ back) rest [] := by
  obtain ⟨digits, heq, rfl, hdigits, -⟩ := takeHex?_eq_some_iff.1 h
  obtain ⟨rfl, rfl⟩ := List.cons.inj heq
  have hhash : takeNumber? ('#' :: (digits ++ rest)) = none := rfl
  rw [readings_cons_of_none (by rw [hhash, ite_self]), readings_append, readings_eq_nil,
    List.nil_append, List.reverse_cons, List.append_assoc]
  · rfl
  · rintro p q rfl hq
    have hp : ∀ d ∈ p, isHexDigit d = true := fun d hd => hdigits d (List.mem_append_left q hd)
    refine ready_eq_false ?_ ?_
    · rw [dropWhile_reverse_append hp]
      rfl
    · obtain ⟨d, q, rfl⟩ := List.exists_cons_of_ne_nil hq
      rw [List.cons_append, endsWord, isWordChar_of_isHexDigit (hdigits d (by simp))]
      rfl

/-- The scan behind a text, given backwards, finds what is read place by place. -/
def Agrees (back cs : List Char) : Prop :=
  quantitiesFrom (ready back cs) (blankHex cs) = readings back cs []

theorem agrees_nil (back : List Char) : Agrees back [] := by
  have hnil : blankHex [] = [] := by rw [blankHex, cutHex]; rfl
  rw [Agrees, hnil, quantitiesFrom]
  rfl

/-- The scan goes on behind a hex color, where a number may begin. -/
theorem agrees_of_hex (hhex : takeHex? (c :: cs) = some (hex, rest))
    (hrest : Agrees (hex.reverse ++ back) rest) : Agrees back (c :: cs) := by
  have hspace : (if ready back (c :: cs) then takeNumber? (' ' :: blankHex rest) else none) =
      none := by
    rw [takeNumber?_of_isBlank (by decide), ite_self]
  have hready : ready (hex.reverse ++ back) rest = true := by
    obtain ⟨digits, -, rfl, hdigits, hleast, hmost, hword⟩ := takeHex?_eq_some_iff.1 hhex
    have hends : endsHex (digits.reverse ++ '#' :: back) = true :=
      (endsHex_append_iff hdigits).2 ⟨hleast, hmost⟩
    rw [List.reverse_cons, List.append_assoc, List.singleton_append, ready, hends, hword,
      Bool.and_self, Bool.or_true]
  rw [Agrees, hready] at hrest
  rw [Agrees, blankHex_cons_of_some hhex, quantitiesFrom_cons hspace, readings_hex hhex, ← hrest]
  rfl

/-- The scan reads a number where it may begin, and goes on behind its unit. -/
theorem agrees_of_number {unit : List Char} (hready : ready back (number ++ (unit ++ rest)) = true)
    (hnumber : IsNumber number) (hstops : Stops number (unit ++ rest))
    (hunit : ∀ c ∈ unit, isUnitChar c = true) (hrest : ∀ c ∈ rest.head?, isUnitChar c = false)
    (hbehind : Agrees ((number ++ unit).reverse ++ back) rest) :
    Agrees back (number ++ (unit ++ rest)) := by
  have hchars := hnumber.isQuantityChar_append hunit
  have hscan : takeNumber? (blankHex (number ++ (unit ++ rest))) =
      some (number, unit ++ blankHex rest) := by
    rw [takeNumber?_blankHex, takeNumber?_eq_some_iff.2 ⟨rfl, hnumber, hstops⟩, Option.map_some,
      blankHex_append fun c hc => ne_hash_of_isQuantityChar
        (hchars c (List.mem_append_right number hc))]
  have hblank : ∀ c ∈ (blankHex rest).head?, isUnitChar c = false := by
    rcases blankHex_cases rest with ⟨tail, hblank, -⟩ | hblank
    · intro c hc
      rw [hblank] at hc
      obtain rfl : ' ' = c := Option.some.inj hc
      decide
    · rwa [hblank]
  have hinside : ready ((number ++ unit).reverse ++ back) rest = false :=
    ready_eq_false_of_quantity (by rwa [List.append_assoc])
      (List.append_ne_nil_of_left_ne_nil hnumber.ne_nil unit) hchars rest
  rw [Agrees, hinside] at hbehind
  rw [Agrees, hready, quantitiesFrom_number hscan, takeWhile_append_eq hunit hblank,
    dropWhile_append_eq hunit hblank, hbehind, ← List.append_assoc, readings_append,
    List.append_nil, readings_quantity hready hnumber hunit hstops hrest]

/-- The scan passes over a character at which neither begins. -/
theorem agrees_of_char (h : ¬ CutsHex back (c :: cs)) (hhex : takeHex? (c :: cs) = none)
    (hnumber : (if ready back (c :: cs) then takeNumber? (c :: cs) else none) = none)
    (hrest : Agrees (c :: back) cs) : Agrees back (c :: cs) := by
  have hblank : (if ready back (c :: cs) then takeNumber? (c :: blankHex cs) else none) = none := by
    cases hready : ready back (c :: cs) with
    | false => rfl
    | true =>
      rw [hready, if_pos rfl] at hnumber
      rw [if_pos rfl, ← blankHex_cons_of_none hhex, takeNumber?_blankHex, hnumber]
      rfl
  rw [Agrees, ready_cons h] at hrest
  rw [Agrees, blankHex_cons_of_none hhex, quantitiesFrom_cons hblank,
    readings_cons_of_none hnumber, hrest]

/-- Where no hex color is open, the scan finds what is read place by place. -/
theorem agrees_of_not_cutsHex (back cs : List Char) (h : ¬ CutsHex back cs) : Agrees back cs := by
  induction hn : cs.length using Nat.strongRecOn generalizing back cs with
  | _ n ih =>
    cases cs with
    | nil => exact agrees_nil back
    | cons c cs =>
      cases hhex : takeHex? (c :: cs) with
      | some r =>
        obtain ⟨hex, rest⟩ := r
        have hlength := length_takeHex? hhex
        obtain ⟨-, -, -, -, -, -, hword⟩ := takeHex?_eq_some_iff.1 hhex
        exact agrees_of_hex hhex
          (ih rest.length (by omega) _ rest (not_cutsHex_of_endsWord hword) rfl)
      | none =>
        cases hnumber : (if ready back (c :: cs) then takeNumber? (c :: cs) else none) with
        | some r =>
          obtain ⟨number, rest⟩ := r
          obtain ⟨hready, hnumber⟩ := Option.ite_none_right_eq_some.1 hnumber
          obtain ⟨heq, hread, hstops⟩ := takeNumber?_eq_some_iff.1 hnumber
          obtain ⟨unit, after, rfl, hunit, hafter⟩ := exists_unit rest
          rw [heq] at hready ⊢
          have hlength : after.length < n := by
            have := List.length_pos_iff.2 hread.ne_nil
            rw [← hn, heq, List.length_append, List.length_append]
            omega
          refine agrees_of_number hready hread hstops hunit hafter
            (ih after.length hlength _ after ?_ rfl)
          exact not_cutsHex_of_quantity (by rwa [List.append_assoc])
            (List.append_ne_nil_of_left_ne_nil hread.ne_nil unit)
            (hread.isQuantityChar_append hunit)
        | none =>
          have hlength : cs.length < n := by rw [← hn]; exact Nat.lt_succ_self _
          exact agrees_of_char h hhex hnumber
            (ih cs.length hlength (c :: back) cs (not_cutsHex_cons h hhex) rfl)

/-- **The quantities of a value are those that are read place by place.** -/
theorem quantities_eq_readings (value : List Char) :
    quantities value = readings [] (literalPart value) [] :=
  agrees_of_not_cutsHex [] (literalPart value) (not_cutsHex_nil _)

end

end Value
end SheetAudit
