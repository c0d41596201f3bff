import SheetAudit.Offsets.Value
import SheetAudit.Proofs.Bytes

/-!
# Values by offsets

A value is searched in its form in small letters, and cut at the offsets that were found there.
Small letters have as many bytes as capitals, so every such offset lies between two characters of
the value itself.

## Main results

* `contains_iff` — what a text contains stands somewhere in it.
* `findText?_lowerAscii` — a word is found at the offset of its first character.
* `dropImportant_eq`, `blankReferences_eq` — both cuts are those of the characters.
* `purpose_eq` — the purpose of a custom property, read at offsets.
-/

namespace SheetAudit

namespace Text

/-! ### Searching -/

theorem contains_cons (pattern : List Char) (c : Char) (cs : List Char) :
    contains pattern (c :: cs) = ((pattern.isPrefixOf? (c :: cs)).isSome || contains pattern cs) := by
  rw [contains, contains, splitAt?, splitAt?, splitBy?]
  cases pattern.isPrefixOf? (c :: cs) with
  | some rest => rfl
  | none => rw [Option.isSome_map, Option.isSome_none, Bool.false_or]

theorem contains_iff {pattern text : List Char} :
    contains pattern text = true ↔ pattern <:+: text := by
  have hbegins (rest : List Char) : (pattern.isPrefixOf? rest).isSome = true ↔ pattern <+: rest := by
    simp only [Option.isSome_iff_exists, List.isPrefixOf?_eq_some_iff_append_eq]
    exact Iff.rfl
  induction text with
  | nil =>
    rw [List.infix_nil, ← List.prefix_nil, ← hbegins, contains, splitAt?, splitBy?,
      Option.isSome_map]
  | cons c cs ih =>
    rw [contains_cons, Bool.or_eq_true, hbegins, List.infix_cons_iff]
    exact or_congr_right ih

end Text

namespace Offsets

open Text Value

/-! ### Searching in any letter case -/

theorem splitBy?_eq_some {drop? : List Char → Option (List Char)} {cs before after : List Char}
    (h : splitBy? drop? cs = some (before, after)) :
    ∃ rest, cs = before ++ rest ∧ drop? rest = some after := by
  induction cs generalizing before with
  | nil =>
    rw [splitBy?] at h
    obtain ⟨after, hdrop, heq⟩ := Option.map_eq_some_iff.1 h
    obtain ⟨rfl, rfl⟩ := Prod.mk.inj heq
    exact ⟨[], rfl, hdrop⟩
  | cons c cs ih =>
    rw [splitBy?] at h
    split at h
    · next after hdrop =>
      obtain ⟨rfl, rfl⟩ := Prod.mk.inj (Option.some.inj h)
      exact ⟨c :: cs, rfl, hdrop⟩
    · obtain ⟨⟨b, a⟩, hsplit, heq⟩ := Option.map_eq_some_iff.1 h
      obtain ⟨rfl, rfl⟩ := Prod.mk.inj heq
      obtain ⟨rest, rfl, hdrop⟩ := ih hsplit
      exact ⟨rest, rfl, hdrop⟩

theorem isPrefixOf?_lowerAscii (word cs : List Char) :
    word.isPrefixOf? (lowerAscii cs) = (dropAscii? word cs).map lowerAscii := by
  fun_induction dropAscii? word cs with
  | case1 cs => rfl
  | case2 => rfl
  | case3 w word c cs hc ih =>
    rw [lowerAscii, List.map_cons, ← lowerAscii, List.isPrefixOf?, Bool.beq_comm, if_pos hc, ih]
  | case4 w word c cs hc =>
    rw [lowerAscii, List.map_cons, List.isPrefixOf?, Bool.beq_comm, if_neg hc]
    rfl

/-- A word is found in the small letters of a text where it is found in any letter case. -/
theorem splitAt?_lowerAscii (word cs : List Char) :
    splitAt? word (lowerAscii cs) =
      (splitAscii? word cs).map fun r => (lowerAscii r.1, lowerAscii r.2) := by
  rw [splitAt?, splitAscii?]
  induction cs with
  | nil =>
    have h := isPrefixOf?_lowerAscii word []
    rw [lowerAscii, List.map_nil] at h ⊢
    rw [splitBy?, splitBy?, h]
    cases dropAscii? word [] <;> rfl
  | cons c cs ih =>
    have h := isPrefixOf?_lowerAscii word (c :: cs)
    rw [lowerAscii, List.map_cons, ← lowerAscii] at h ⊢
    rw [splitBy?, splitBy?, h]
    cases dropAscii? word (c :: cs) with
    | some rest => rfl
    | none =>
      rw [Option.map_none, ih]
      cases splitBy? (dropAscii? word) cs <;> rfl

/-- The offset of a word is the number of bytes before it. -/
theorem findText?_lowerAscii {word : List Char} (hne : word ≠ [])
    (hw : ∀ c ∈ word, c.utf8Size = 1) (cs : List Char) :
    findText? word (lowerAscii cs) = (splitAscii? word cs).map fun r => size r.1 := by
  rw [findText?, find?, List.drop_zero, findFrom_encode hne hw, splitAt?_lowerAscii,
    Option.map_map]
  refine congrArg (fun f => Option.map f _) (funext fun r => ?_)
  rw [Function.comp_apply, size_lowerAscii, Nat.zero_add]

/-! ### Values -/

theorem dropImportant_eq (value : List Char) :
    dropImportant value = .ok (Value.dropImportant value) := by
  have hword : ∀ c ∈ "!important".toList, c.utf8Size = 1 := by
    simp only [String.reduceToList]
    exact single_of_all (by decide)
  rw [dropImportant, findText?_lowerAscii (by simp) hword, Value.dropImportant]
  cases hsplit : splitAscii? "!important".toList value with
  | none => rfl
  | some r =>
    obtain ⟨rest, hvalue, -⟩ := splitBy?_eq_some hsplit
    have hslice : slice value 0 (size r.1) = .ok r.1 := by
      rw [hvalue]
      exact slice_front r.1 rest
    rw [Option.map_some]
    dsimp only
    rw [hslice]
    rfl

/-! ### References -/

/-- The arguments of a reference end at the parenthesis that closes it, if there is one. -/
theorem takeArguments_cases (depth offset : Nat) (cs : List Char) :
    (∃ args rest, cs = args ++ ')' :: rest ∧ takeArguments depth cs = (args, rest) ∧
      closingParenFrom (depth + 1) (Selector.withOffsets offset cs) = some (offset + size args)) ∨
    (takeArguments depth cs = (cs, []) ∧
      closingParenFrom (depth + 1) (Selector.withOffsets offset cs) = none) := by
  induction cs generalizing depth offset with
  | nil => exact .inr ⟨rfl, rfl⟩
  | cons c cs ih =>
    -- a character that does not close the reference is one of its arguments
    have hstep {d : Nat}
        (htake : takeArguments depth (c :: cs) =
          (c :: (takeArguments d cs).1, (takeArguments d cs).2))
        (hscan : closingParenFrom (depth + 1) (Selector.withOffsets offset (c :: cs)) =
          closingParenFrom (d + 1) (Selector.withOffsets (offset + c.utf8Size) cs)) :
        (∃ args rest, c :: cs = args ++ ')' :: rest ∧ takeArguments depth (c :: cs) = (args, rest) ∧
          closingParenFrom (depth + 1) (Selector.withOffsets offset (c :: cs)) =
            some (offset + size args)) ∨
        (takeArguments depth (c :: cs) = (c :: cs, []) ∧
          closingParenFrom (depth + 1) (Selector.withOffsets offset (c :: cs)) = none) := by
      rw [htake, hscan]
      rcases ih d (offset + c.utf8Size) with ⟨args, rest, rfl, ht, hs⟩ | ⟨ht, hs⟩
      · refine .inl ⟨c :: args, rest, rfl, by rw [ht], ?_⟩
        rw [hs, size_cons, Nat.add_assoc]
      · exact .inr ⟨by rw [ht], hs⟩
    by_cases ho : c = '('
    · refine hstep (d := depth + 1) ?_ ?_
      · simp [takeArguments, ho]
      · simp [Selector.withOffsets, closingParenFrom, ho]
    by_cases hc : c = ')'
    · by_cases hd : depth = 0
      · refine .inl ⟨[], cs, by rw [hc]; rfl, ?_, ?_⟩
        · simp [takeArguments, hc, hd]
        · simp [Selector.withOffsets, closingParenFrom, hc, hd]
      · refine hstep (d := depth - 1) ?_ ?_
        · simp [takeArguments, hc, hd]
        · simp [Selector.withOffsets, closingParenFrom, hc, hd]
          congr 1
          omega
    · refine hstep (d := depth) ?_ ?_
      · simp [takeArguments, ho, hc]
      · simp [Selector.withOffsets, closingParenFrom, ho, hc]

theorem withOffsets_append (offset : Nat) (cs ds : List Char) :
    Selector.withOffsets offset (cs ++ ds) =
      Selector.withOffsets offset cs ++ Selector.withOffsets (offset + size cs) ds := by
  induction cs generalizing offset with
  | nil => rfl
  | cons c cs ih =>
    rw [List.cons_append, Selector.withOffsets, Selector.withOffsets, ih, size_cons,
      Nat.add_assoc, List.cons_append]

theorem lt_of_mem_withOffsets {offset : Nat} {cs : List Char} {p : Nat × Char}
    (h : p ∈ Selector.withOffsets offset cs) : p.1 < offset + size cs := by
  induction cs generalizing offset with
  | nil => exact absurd h List.not_mem_nil
  | cons c cs ih =>
    have hpos := c.utf8Size_pos
    rw [size_cons]
    rcases List.mem_cons.1 h with rfl | h
    · dsimp only
      omega
    · have := ih h
      omega

/-- The search for a parenthesis begins at its own offset. -/
theorem closingParen?_append (before rest : List Char) :
    closingParen? (before ++ rest) (size before) =
      closingParenFrom 0 (Selector.withOffsets (size before) rest) := by
  have hbefore : ∀ p ∈ Selector.withOffsets 0 before, decide (p.1 < size before) = true := by
    intro p hp
    have := lt_of_mem_withOffsets hp
    rw [Nat.zero_add] at this
    exact decide_eq_true this
  rw [closingParen?, withOffsets_append, Nat.zero_add, List.dropWhile_append_of_pos hbefore]
  cases rest with
  | nil => rfl
  | cons c rest => rw [Selector.withOffsets, List.dropWhile_cons, if_neg (by simp)]

theorem dropAscii?_eq_some {word cs rest : List Char} (h : dropAscii? word cs = some rest) :
    ∃ front, cs = front ++ rest ∧ lowerAscii front = word := by
  fun_induction dropAscii? word cs with
  | case1 cs => exact ⟨[], by rw [Option.some.inj h]; rfl, rfl⟩
  | case2 => cases h
  | case3 w word c cs hc ih =>
    obtain ⟨front, rfl, rfl⟩ := ih h
    exact ⟨c :: front, rfl, by rw [lowerAscii, List.map_cons, eq_of_beq hc]; rfl⟩
  | case4 => cases h

theorem blankReferences_cons_of_none {c : Char} {cs : List Char}
    (h : reference? (c :: cs) = none) :
    Value.blankReferences (c :: cs) = c :: Value.blankReferences cs := by
  rw [Value.blankReferences]
  split
  · next heq => simp [h] at heq
  · rfl

theorem blankReferences_cons_of_some {c : Char} {cs rest : List Char}
    (h : reference? (c :: cs) = some rest) :
    Value.blankReferences (c :: cs) = ' ' :: Value.blankReferences (takeArguments 0 rest).2 := by
  rw [Value.blankReferences]
  split
  · next heq =>
    rw [h] at heq
    rw [← Option.some.inj heq]
  · next heq => simp [h] at heq

/-- A value without references stays as it is. -/
theorem blankReferences_of_none {value : List Char} (h : splitAscii? "var(".toList value = none) :
    Value.blankReferences value = value := by
  induction value with
  | nil => rw [Value.blankReferences]
  | cons c cs ih =>
    rw [splitAscii?, splitBy?] at h
    split at h
    · cases h
    · next hdrop =>
      rw [blankReferences_cons_of_none hdrop, ih (Option.map_eq_none_iff.1 h)]

/-- The first reference of a value makes way for a space. -/
theorem blankReferences_of_some {value before after : List Char}
    (h : splitAscii? "var(".toList value = some (before, after)) :
    Value.blankReferences value =
      before ++ ' ' :: Value.blankReferences (takeArguments 0 after).2 := by
  induction value generalizing before with
  | nil => cases h
  | cons c cs ih =>
    rw [splitAscii?, splitBy?] at h
    split at h
    · next rest hdrop =>
      obtain ⟨rfl, rfl⟩ := Prod.mk.inj (Option.some.inj h)
      exact blankReferences_cons_of_some hdrop
    · next hdrop =>
      obtain ⟨⟨b, a⟩, hsplit, heq⟩ := Option.map_eq_some_iff.1 h
      obtain ⟨rfl, rfl⟩ := Prod.mk.inj heq
      rw [blankReferences_cons_of_none hdrop, ih hsplit]
      rfl

/-- What is read of a value from an offset on, by the first reference there. -/
theorem blankReferencesFrom_append (before rest : List Char) :
    blankReferencesFrom (before ++ rest) (size before) =
      match splitAscii? "var(".toList rest with
      | none => .ok rest
      | some (front, _) => do
        return front ++ ' ' :: (← blankReferencesFrom (before ++ rest)
          (afterReference (before ++ rest) (size before + size front + 3))) := by
  have hlower : lowerAscii (before ++ rest) = lowerAscii before ++ lowerAscii rest :=
    List.map_append
  have htail : slice (lowerAscii (before ++ rest)) (size before)
      (size (lowerAscii (before ++ rest))) = .ok (lowerAscii rest) := by
    rw [hlower, ← size_lowerAscii before, slice_back]
  have hword : ∀ c ∈ "var(".toList, c.utf8Size = 1 := by
    simp only [String.reduceToList]
    exact single_of_all (by decide)
  rw [blankReferencesFrom.eq_def]
  split
  · next heq =>
    rw [htail] at heq
    cases heq
  · next tail heq =>
    obtain rfl : lowerAscii rest = tail := Except.ok.inj (htail.symm.trans heq)
    have hfind := findText?_lowerAscii (by simp) hword rest
    split
    · next hnone =>
      rw [hnone] at hfind
      rw [Option.map_eq_none_iff.1 hfind.symm]
      have hmin : min (size before) (size (before ++ rest)) = size before := by
        rw [size_append]
        omega
      rw [hmin, slice_back]
    · next found hsome =>
      rw [hsome] at hfind
      obtain ⟨⟨front, after⟩, hsplit, rfl⟩ := Option.map_eq_some_iff.1 hfind.symm
      obtain ⟨word, rfl, -⟩ := splitBy?_eq_some hsplit
      rw [hsplit]
      dsimp only
      rw [slice_append before front word]
      rfl

/-- No other character has the small form of a parenthesis. -/
theorem eq_openParen_of_toLower {c : Char} (h : c.toLower = '(') : c = '(' := by
  rcases toLower_cases c with hsame | ⟨hcapital, hlower⟩
  · rw [← hsame, h]
  · rw [h] at hlower
    have hparen : '('.toNat = 40 := rfl
    omega

/-- The reading goes on behind the reference. -/
theorem afterReference_append (before : List Char) {word : List Char}
    (hword : lowerAscii word = "var(".toList) (after : List Char) :
    ∃ mid, before ++ (word ++ after) = mid ++ (takeArguments 0 after).2 ∧
      afterReference (before ++ (word ++ after)) (size before + 3) = size mid := by
  have hword : word.map Char.toLower = ['v', 'a', 'r'] ++ ['('] := hword
  obtain ⟨name, paren, rfl, hname, hparen⟩ := List.map_eq_append_iff.1 hword
  obtain ⟨p, rest, rfl, hp, hrest⟩ := List.map_eq_cons_iff.1 hparen
  obtain rfl := eq_openParen_of_toLower hp
  obtain rfl := List.map_eq_nil_iff.1 hrest
  have hsize : size (before ++ name) = size before + 3 := by
    rw [size_append, ← size_lowerAscii name, lowerAscii, hname]
    rfl
  rw [← hsize, List.append_assoc, ← List.append_assoc before, List.singleton_append]
  rw [afterReference, closingParen?_append, Selector.withOffsets]
  rw [closingParenFrom, if_pos (beq_self_eq_true '(')]
  rcases takeArguments_cases 0 (size (before ++ name) + '('.utf8Size) after with
    ⟨args, rest, rfl, htake, hscan⟩ | ⟨htake, hscan⟩
  · refine ⟨before ++ name ++ '(' :: (args ++ [')']), by simp [htake], ?_⟩
    have hopen : '('.utf8Size = 1 := by decide
    have hclose : ')'.utf8Size = 1 := by decide
    rw [hscan]
    simp only [size_append, size_cons, size_nil]
    omega
  · exact ⟨before ++ name ++ '(' :: after, by rw [htake, List.append_nil], by rw [hscan]⟩

theorem blankReferencesFrom_eq (before rest : List Char) :
    blankReferencesFrom (before ++ rest) (size before) = .ok (Value.blankReferences rest) := by
  induction hn : rest.length using Nat.strongRecOn generalizing before rest with
  | _ n ih =>
    rw [blankReferencesFrom_append]
    cases hsplit : splitAscii? "var(".toList rest with
    | none => rw [blankReferences_of_none hsplit]
    | some r =>
      obtain ⟨front, after⟩ := r
      obtain ⟨cs, rfl, hdrop⟩ := splitBy?_eq_some hsplit
      have hlength : (takeArguments 0 after).2.length < n := by
        have h₁ := length_reference? hdrop
        have h₂ := length_takeArguments 0 after
        rw [List.length_append] at hn
        omega
      obtain ⟨word, rfl, hword⟩ := dropAscii?_eq_some hdrop
      obtain ⟨mid, hvalue, hafter⟩ := afterReference_append (before ++ front) hword after
      rw [List.append_assoc] at hvalue hafter
      rw [size_append] at hafter
      rw [blankReferences_of_some hsplit]
      dsimp only
      rw [hafter, hvalue, ih _ hlength mid _ rfl]
      rfl

/-- **Blanking references at offsets is blanking them.** -/
theorem blankReferences_eq (value : List Char) :
    blankReferences value = .ok (Value.blankReferences value) :=
  blankReferencesFrom_eq [] value

/-! ### Purposes -/

theorem isColor_eq (value : List Char) : isColor value = .ok (Value.isColor value) := by
  rw [isColor, dropImportant_eq]
  rfl

theorem times_eq (value : List Char) : times value = .ok (Value.times value) := by
  rw [times, dropImportant_eq]
  rw [ok_bind, blankReferences_eq]
  rfl

/-- **The purpose of a custom property, read at offsets, is the one it has.** -/
theorem purpose_eq (name value : List Char) :
    purpose name value = .ok (Purpose.infer name value) := by
  rw [purpose, isColor_eq, times_eq, Purpose.infer]
  -- a duration is told by the name or else by the value
  simp only [ok_bind, pure_eq_ok, Bool.or_eq_true, ite_or, apply_ite Except.ok]

end Offsets
end SheetAudit
