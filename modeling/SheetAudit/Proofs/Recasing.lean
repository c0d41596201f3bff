import SheetAudit.Proofs.OutlineFlags
import SheetAudit.Proofs.Resolution
import SheetAudit.Proofs.SingleColors

/-!
# The letter case of references

A reference is found by `var(` in every letter case, and so is the name in it, but its fallback is
read only behind `var(` in small letters.  Here texts are compared that differ in the letter case of
`var(` only, and their colors are the same but for fallbacks that are not read.

## Main definitions

* `Recased` — two texts that are the same but for the letter case of `var(`.
* `foldedFallback?`, `resolveFolded` — the resolution that reads fallbacks in every letter case.
* `Stalls` — on the way from a value a fallback is wanted that is not read.
* `InSmall` — every `var(` of a text is in small letters.

## Main results

* `Recased.references_eq` — the names that are referred to are the same.
* `resolveFolded_congr` — reading every fallback, the colors are the same.
* `resolve_eq_ite` — the resolution finds that color unless it stalls.
* `resolve_eq_resolveFolded_of_inSmall` — in small letters it never stalls.
* `resolve_recased_iff` — **two spellings of a value have the same color exactly if there is none
  to be found or if both or neither of them stall.**
-/

namespace SheetAudit

open Text Value
open Offsets (splitBy?_eq_some dropAscii?_eq_some)

namespace Value

/-! ### Texts in other letters -/

/-- The text before the first comma of the arguments of a call, which names the property. -/
def firstArgument (cs : List Char) : List Char := (takeArguments 0 cs).1.takeWhile (· != ',')

/-- Two texts that are the same but for the letter case of `var(`, wherever it stands; what stands
for the name behind it is the same. -/
inductive Recased : List Char → List Char → Prop where
  | nil : Recased [] []
  | char {c : Char} {cs cs' : List Char} (plain : reference? (c :: cs) = none)
      (rest : Recased cs cs') : Recased (c :: cs) (c :: cs')
  | opening {word word' cs cs' : List Char} (opens : lowerAscii word = "var(".toList)
      (opens' : lowerAscii word' = "var(".toList) (named : firstArgument cs = firstArgument cs')
      (rest : Recased cs cs') : Recased (word ++ cs) (word' ++ cs')

theorem length_lowerAscii (cs : List Char) : (lowerAscii cs).length = cs.length :=
  List.length_map Char.toLower

theorem length_eq_of_lowerAscii {cs cs' : List Char} (h : lowerAscii cs = lowerAscii cs') :
    cs.length = cs'.length := by
  rw [← length_lowerAscii cs, h, length_lowerAscii]

theorem reference?_eq_none_iff {cs cs' : List Char} (h : lowerAscii cs = lowerAscii cs') :
    reference? cs = none ↔ reference? cs' = none := by
  have hfold (ds : List Char) :
      reference? ds = none ↔ "var(".toList.isPrefixOf? (lowerAscii ds) = none := by
    rw [Offsets.isPrefixOf?_lowerAscii, Option.map_eq_none_iff, reference?]
  rw [hfold, hfold, h]

/-- A character that is no letter stands at the same places of texts with the same small letters. -/
theorem exists_append_cons_of_lowerAscii {d : Char} (hd : d.toLower.toNat < 97)
    {front back cs : List Char} (h : lowerAscii (front ++ d :: back) = lowerAscii cs) :
    ∃ front' back', cs = front' ++ d :: back' ∧ front.length = front'.length := by
  rw [lowerAscii, List.map_append, List.map_cons] at h
  obtain ⟨front', more, rfl, hfront, hmore⟩ := List.map_eq_append_iff.1 h.symm
  obtain ⟨c, back', rfl, hc, -⟩ := List.map_eq_cons_iff.1 hmore
  have hsame : c = d.toLower := eq_of_toLower hc hd
  have hsame' : d = d.toLower := eq_of_toLower rfl hd
  refine ⟨front', back', by rw [hsame, ← hsame'], length_eq_of_lowerAscii hfront.symm⟩

section

variable {cs cs' : List Char}

namespace Recased

theorem lowerAscii_eq (h : Recased cs cs') : lowerAscii cs = lowerAscii cs' := by
  induction h with
  | nil => rfl
  | @char c _ _ _ _ ih => exact congrArg (List.cons c.toLower) ih
  | opening opens opens' _ _ ih =>
    rw [lowerAscii, List.map_append, lowerAscii, List.map_append]
    exact congrArg₂ _ (opens.trans opens'.symm) ih

theorem refl (cs : List Char) : Recased cs cs := by
  induction hn : cs.length using Nat.strongRecOn generalizing cs with
  | _ n ih =>
    cases href : reference? cs with
    | some rest =>
      have hshort := length_reference? href
      obtain ⟨word, rfl, opens⟩ := reference?_eq_some_iff.1 href
      exact .opening opens opens rfl (ih _ (by omega) rest rfl)
    | none =>
      cases cs with
      | nil => exact .nil
      | cons c cs => exact .char href (ih _ (by rw [← hn]; exact Nat.lt_succ_self _) cs rfl)

theorem symm (h : Recased cs cs') : Recased cs' cs := by
  induction h with
  | nil => exact .nil
  | char plain rest ih =>
    exact .char ((reference?_eq_none_iff (Recased.char plain rest).lowerAscii_eq).1 plain) ih
  | opening opens opens' named _ ih => exact .opening opens' opens named.symm ih

/-- References begin at the same place, with the same name. -/
theorem rel_reference? (h : Recased cs cs') :
    Option.Rel (fun rest rest' => firstArgument rest = firstArgument rest' ∧ Recased rest rest')
      (reference? cs) (reference? cs') := by
  cases h with
  | nil => exact .none
  | char plain rest =>
    rw [plain, (reference?_eq_none_iff (Recased.char plain rest).lowerAscii_eq).1 plain]
    exact .none
  | opening opens opens' named rest =>
    rw [reference?_eq_some_iff.2 ⟨_, rfl, opens⟩, reference?_eq_some_iff.2 ⟨_, rfl, opens'⟩]
    exact .some ⟨named, rest⟩

end Recased

/-! ### Parts of texts in other letters -/

theorem takeArguments_fst_append (depth : Nat) (cs rest : List Char) :
    (takeArguments depth cs).1 = (takeArguments depth (cs ++ rest)).1.take cs.length := by
  induction cs generalizing depth with
  | nil => rw [List.length_nil, List.take_zero, takeArguments]
  | cons c cs ih =>
    rw [List.cons_append, takeArguments, takeArguments]
    split
    · rfl
    · rw [List.length_cons, List.take_succ_cons, ← ih]

theorem firstArgument_append (cs rest : List Char) :
    firstArgument cs = (firstArgument (cs ++ rest)).take cs.length := by
  rw [firstArgument, takeArguments_fst_append 0 cs rest, firstArgument, List.take_takeWhile]

/-- Only the letters of `var(` behind its first stand where it is cut. -/
theorem length_le_of_opens {word cs front back : List Char}
    (opens : lowerAscii word = "var(".toList) (heq : front ++ back = word ++ cs) (hne : front ≠ [])
    (hback : ∀ c ∈ back.head?, c.toLower ∉ ['a', 'r', '(']) : word.length ≤ front.length := by
  by_contra hlt
  obtain ⟨tail, rfl⟩ : front <+: word :=
    List.prefix_of_prefix_length_le ⟨back, heq⟩ ⟨cs, rfl⟩ (Nat.le_of_not_le hlt)
  rw [List.append_assoc] at heq
  obtain rfl := List.append_cancel_left heq
  obtain ⟨d, front, rfl⟩ := List.exists_cons_of_ne_nil hne
  cases tail with
  | nil =>
    rw [List.append_nil] at hlt
    exact hlt (Nat.le_refl _)
  | cons c tail =>
    have hlower : lowerAscii (front ++ c :: tail) = ['a', 'r', '('] := (List.cons.inj opens).2
    apply hback c rfl
    rw [← hlower]
    exact List.mem_map_of_mem (List.mem_append_right front List.mem_cons_self)

theorem exists_append_of_length_le {word cs front back : List Char}
    (heq : front ++ back = word ++ cs) (hle : word.length ≤ front.length) :
    ∃ tail, front = word ++ tail ∧ cs = tail ++ back := by
  obtain ⟨tail, rfl⟩ : word <+: front :=
    List.prefix_of_prefix_length_le ⟨cs, rfl⟩ ⟨back, heq⟩ hle
  rw [List.append_assoc] at heq
  exact ⟨tail, rfl, (List.append_cancel_left heq).symm⟩

namespace Recased

/-- Texts are cut at the same place, unless `var(` is cut. -/
theorem of_append {front front' back back' : List Char}
    (h : Recased (front ++ back) (front' ++ back')) (hlength : front.length = front'.length)
    (hback : ∀ c ∈ back.head?, c.toLower ∉ ['a', 'r', '(']) : Recased front front' := by
  generalize htext : front ++ back = text at h
  generalize htext' : front' ++ back' = text' at h
  induction h generalizing front front' with
  | nil =>
    obtain ⟨rfl, -⟩ := List.append_eq_nil_iff.1 htext
    obtain ⟨rfl, -⟩ := List.append_eq_nil_iff.1 htext'
    exact .nil
  | @char c cs cs' plain rest ih =>
    cases front with
    | nil =>
      obtain rfl := List.eq_nil_of_length_eq_zero hlength.symm
      exact .nil
    | cons d front =>
      obtain ⟨d', front', rfl⟩ := List.exists_cons_of_length_eq_add_one hlength.symm
      rw [← htext, reference?_append hback, Option.map_eq_none_iff] at plain
      obtain ⟨rfl, rfl⟩ := List.cons.inj htext
      obtain ⟨rfl, rfl⟩ := List.cons.inj htext'
      exact .char plain (ih (Nat.succ.inj hlength) rfl rfl)
  | @opening word word' cs cs' opens opens' named rest ih =>
    by_cases hne : front = []
    · subst hne
      obtain rfl := List.eq_nil_of_length_eq_zero hlength.symm
      exact .nil
    have hwords : word.length = word'.length :=
      length_eq_of_lowerAscii (opens.trans opens'.symm)
    -- the cut lies behind the whole of `var(`, so the same is left of both texts
    have hle : word.length ≤ front.length := length_le_of_opens opens htext hne hback
    obtain ⟨tail, rfl, rfl⟩ := exists_append_of_length_le htext hle
    obtain ⟨tail', rfl, rfl⟩ := exists_append_of_length_le htext' (by omega)
    have htails : tail.length = tail'.length := by
      rw [List.length_append, List.length_append] at hlength
      omega
    have hname : firstArgument tail = firstArgument tail' := by
      rw [firstArgument_append tail back, firstArgument_append tail' back', named, htails]
    exact .opening opens opens' hname (ih htails rfl rfl)

/-! ### What readers of references see -/

theorem takeArguments (h : Recased cs cs') (depth : Nat) :
    Recased (takeArguments depth cs).2 (takeArguments depth cs').2 := by
  induction h generalizing depth with
  | nil => exact .nil
  | char _ rest ih =>
    rw [takeArguments_cons, takeArguments_cons]
    split
    · exact rest
    · exact ih _
  | opening opens opens' _ _ ih =>
    rw [takeArguments_opening opens, takeArguments_opening opens']
    exact ih _

/-- **The same names are referred to.** -/
theorem references_eq (h : Recased cs cs') : references cs = references cs' := by
  induction hn : cs.length using Nat.strongRecOn generalizing cs cs' with
  | _ n ih =>
    have href := h.rel_reference?
    generalize hrest : reference? cs = r, hrest' : reference? cs' = r' at href
    cases href with
    | @some rest rest' hsame =>
      -- what follows the arguments is in other letters as well, and shorter
      have hshort : (Value.takeArguments 0 rest).2.length < n := by
        have h₁ := length_reference? hrest
        have h₂ := length_takeArguments 0 rest
        omega
      have hname : referredName (Value.takeArguments 0 rest).1 =
          referredName (Value.takeArguments 0 rest').1 := congrArg Text.trim hsame.1
      rw [references_of_some hrest, references_of_some hrest', hname,
        ih _ hshort (hsame.2.takeArguments 0) rfl]
    | none =>
      cases h with
      | nil => rfl
      | char _ rest =>
        rw [references_of_none hrest, references_of_none hrest',
          ih _ (by rw [← hn]; exact Nat.lt_succ_self _) rest rfl]
      | opening opens =>
        rw [reference?_eq_some_iff.2 ⟨_, rfl, opens⟩] at hrest
        cases hrest

end Recased

/-! ### Texts with the ends cut off -/

theorem trimLeft_opening {word : List Char} (opens : lowerAscii word = "var(".toList)
    (cs : List Char) : trimLeft (word ++ cs) = word ++ cs :=
  @Color.trimLeft_of_opens [] word cs (by decide) opens

namespace Recased

theorem trimLeft (h : Recased cs cs') : Recased (trimLeft cs) (trimLeft cs') := by
  induction h with
  | nil => exact .nil
  | @char c cs cs' plain rest ih =>
    by_cases hc : isBlank c = true
    · rwa [Text.trimLeft, List.dropWhile_cons_of_pos hc, Text.trimLeft,
        List.dropWhile_cons_of_pos hc]
    · rw [Text.trimLeft, List.dropWhile_cons_of_neg hc, Text.trimLeft,
        List.dropWhile_cons_of_neg hc]
      exact .char plain rest
  | @opening word word' cs cs' opens opens' named rest _ =>
    rw [trimLeft_opening opens, trimLeft_opening opens']
    exact .opening opens opens' named rest

theorem trimRight (h : Recased cs cs') : Recased (trimRight cs) (trimRight cs') := by
  obtain ⟨blank, hblank, hcs⟩ := exists_append_trimRight cs
  obtain ⟨blank', -, hcs'⟩ := exists_append_trimRight cs'
  have hlower : lowerAscii (Text.trimRight cs) = lowerAscii (Text.trimRight cs') := by
    rw [← trimRight_lowerAscii, h.lowerAscii_eq, trimRight_lowerAscii]
  rw [hcs, hcs'] at h
  exact h.of_append (length_eq_of_lowerAscii hlower) fun c hc =>
    toLower_not_mem_of_isBlank (by decide) (hblank c (List.mem_of_mem_head? hc))

theorem trim (h : Recased cs cs') : Recased (trim cs) (trim cs') := h.trimLeft.trimRight

theorem dropImportant (h : Recased cs cs') : Recased (dropImportant cs) (dropImportant cs') := by
  have hsplit := congrArg (splitAt? "!important".toList) h.lowerAscii_eq
  rw [Offsets.splitAt?_lowerAscii, Offsets.splitAt?_lowerAscii] at hsplit
  rw [Value.dropImportant, Value.dropImportant]
  cases hcs : splitAscii? "!important".toList cs with
  | none =>
    rw [hcs, Option.map_none, eq_comm, Option.map_eq_none_iff] at hsplit
    rw [hsplit]
    exact h
  | some r =>
    rw [hcs, Option.map_some, eq_comm] at hsplit
    obtain ⟨r', hcs', heq⟩ := Option.map_eq_some_iff.1 hsplit
    rw [hcs']
    apply trimRight
    obtain ⟨more, hmore, hdrop⟩ := splitBy?_eq_some hcs
    obtain ⟨more', hmore', -⟩ := splitBy?_eq_some hcs'
    obtain ⟨flag, rfl, hflag⟩ := dropAscii?_eq_some hdrop
    obtain ⟨tail, rfl⟩ := IsFlag.exists_cons hflag
    rw [hmore, hmore'] at h
    -- the mark of the flag is no letter of `var(`
    refine h.of_append (length_eq_of_lowerAscii (Prod.mk.inj heq).1.symm) fun c hc => ?_
    obtain rfl : '!' = c := Option.some.inj hc
    decide

end Recased

end

end Value

/-! ### Fallbacks -/

namespace Color

/-- What stands before a closing parenthesis at the end. -/
def held? (cs : List Char) : Option (List Char) :=
  if cs.getLast? = some ')' then some cs.dropLast else none

/-- What a reference falls back to, in whatever letters it is written. -/
def foldedFallback? (value : List Char) : Option (List Char) :=
  ((reference? (trim value)).bind held?).bind fun held => (afterComma? 0 held).map trim

theorem held?_eq_some_iff {cs held : List Char} : held? cs = some held ↔ cs = held ++ [')'] := by
  rw [held?]
  constructor
  · intro h
    split at h
    · next hlast =>
      obtain ⟨front, rfl⟩ := List.getLast?_eq_some_iff.1 hlast
      rw [List.dropLast_concat] at h
      rw [Option.some.inj h]
    · cases h
  · rintro rfl
    rw [List.getLast?_concat, if_pos rfl, List.dropLast_concat]

/-- The fallback is read behind `var(` in small letters. -/
theorem fallback?_eq (value : List Char) :
    fallback? value = if "var(".toList <+: trim value then foldedFallback? value else none := by
  rw [fallback?, foldedFallback?]
  split
  · next h =>
    obtain ⟨rest, hrest⟩ := h
    have hword : lowerAscii "var(".toList = "var(".toList := by decide
    rw [← hrest, reference?_eq_some_iff.2 ⟨_, rfl, hword⟩,
      List.isPrefixOf?_eq_some_iff_append_eq.2 rfl, Option.bind_eq_bind, Option.bind_some,
      Option.bind_some]
    split
    · next inner heq =>
      have hlast : rest = inner.reverse ++ [')'] := by
        rw [← List.reverse_reverse rest, heq, List.reverse_cons]
      rw [held?_eq_some_iff.2 hlast, Option.bind_some]
    · next hnot =>
      cases hheld : held? rest with
      | none => rfl
      | some held =>
        have hlast := held?_eq_some_iff.1 hheld
        exact absurd (by rw [hlast, List.reverse_concat]) (hnot held.reverse)
  · next h =>
    rw [Option.eq_none_iff_forall_ne_some.2 fun rest hrest =>
      h ⟨rest, List.isPrefixOf?_eq_some_iff_append_eq.1 hrest⟩]
    rfl

theorem afterComma?_opening {word : List Char} (opens : lowerAscii word = "var(".toList)
    (depth : Nat) (cs : List Char) :
    afterComma? depth (word ++ cs) = afterComma? (depth + 1) cs := by
  obtain ⟨v, a, r, rfl, hv, ha, hr⟩ := exists_of_lowerAscii opens
  have hletter {x l : Char} (hx : x.toLower = l) (hl : l ∈ ['v', 'a', 'r']) :
      x ≠ ',' ∧ x ≠ '(' ∧ x ≠ ')' := by
    refine ⟨?_, ?_, ?_⟩ <;> rintro rfl <;> rw [← hx] at hl <;> revert hl <;> decide
  have hletters : ∀ x ∈ [v, a, r], x ≠ ',' ∧ x ≠ '(' ∧ x ≠ ')' := by
    intro x hx
    simp only [List.mem_cons, List.not_mem_nil, or_false] at hx
    obtain rfl | rfl | rfl := hx
    · exact hletter hv (by decide)
    · exact hletter ha (by decide)
    · exact hletter hr (by decide)
  rw [show [v, a, r, '('] ++ cs = [v, a, r] ++ '(' :: cs from rfl, afterComma?_append hletters,
    afterComma?, if_neg (by simp), if_pos (by decide)]

section

variable {cs cs' value value' : List Char}

theorem rel_bind {α β γ δ : Type} {R : α → β → Prop} {S : γ → δ → Prop} {o : Option α}
    {o' : Option β} {f : α → Option γ} {g : β → Option δ} (h : Option.Rel R o o')
    (hfg : ∀ a b, R a b → Option.Rel S (f a) (g b)) : Option.Rel S (o.bind f) (o'.bind g) := by
  cases h with
  | some hab => exact hfg _ _ hab
  | none => exact .none

theorem rel_map {α β γ δ : Type} {R : α → β → Prop} {S : γ → δ → Prop} {o : Option α}
    {o' : Option β} {f : α → γ} {g : β → δ} (h : Option.Rel R o o')
    (hfg : ∀ a b, R a b → S (f a) (g b)) : Option.Rel S (o.map f) (o'.map g) := by
  cases h with
  | some hab => exact .some (hfg _ _ hab)
  | none => exact .none

theorem rel_held? (h : Recased cs cs') : Option.Rel Recased (held? cs) (held? cs') := by
  have hends {ds ds' held : List Char} (h : Recased ds ds') (hheld : held? ds = some held) :
      ∃ held', held? ds' = some held' ∧ Recased held held' := by
    obtain rfl := held?_eq_some_iff.1 hheld
    obtain ⟨held', back, rfl, hlength⟩ :=
      exists_append_cons_of_lowerAscii (by decide) h.lowerAscii_eq
    obtain rfl : back = [] := by
      have hsum := length_eq_of_lowerAscii h.lowerAscii_eq
      rw [List.length_append, List.length_append, List.length_cons, List.length_cons,
        List.length_nil] at hsum
      exact List.eq_nil_of_length_eq_zero (by omega)
    exact ⟨held', held?_eq_some_iff.2 rfl, h.of_append hlength (by simp)⟩
  cases hcs : held? cs with
  | some held =>
    obtain ⟨held', hheld', hsame⟩ := hends h hcs
    rw [hheld']
    exact .some hsame
  | none =>
    cases hcs' : held? cs' with
    | none => exact .none
    | some held' =>
      obtain ⟨held, hheld, -⟩ := hends h.symm hcs'
      rw [hcs] at hheld
      cases hheld

theorem rel_afterComma? (h : Recased cs cs') (depth : Nat) :
    Option.Rel Recased (afterComma? depth cs) (afterComma? depth cs') := by
  induction h generalizing depth with
  | nil => exact .none
  | char _ rest ih =>
    rw [afterComma?, afterComma?]
    split
    · exact .some rest
    · exact ih _
  | opening opens opens' _ _ ih =>
    rw [afterComma?_opening opens, afterComma?_opening opens']
    exact ih _

theorem rel_foldedFallback? (h : Recased value value') :
    Option.Rel Recased (foldedFallback? value) (foldedFallback? value') := by
  apply rel_bind (R := Recased)
  · apply rel_bind h.trim.rel_reference?
    rintro rest rest' ⟨-, hsame⟩
    exact rel_held? hsame
  · intro held held' hsame
    exact rel_map (rel_afterComma? hsame 0) fun _ _ h => h.trim

theorem parse?_congr (h : Recased value value') : parse? value = parse? value' := by
  rw [parse?, parse?, h.dropImportant.trim.lowerAscii_eq]

end

end Color

/-! ### Declarations in other letters -/

/-- Two declarations that are the same but for the letter case of `var(` in their values. -/
def Variable.Recased (v v' : Variable) : Prop :=
  v' = { v with value := v'.value } ∧ Value.Recased v.value.toList v'.value.toList

namespace Color

section

variable {declared declared' : List Variable} {value value' : List Char}

theorem rel_find? {α β : Type} {R : α → β → Prop} {p : α → Bool} {q : β → Bool} {xs : List α}
    {ys : List β} (h : List.Forall₂ R xs ys) (hpq : ∀ a b, R a b → p a = q b) :
    Option.Rel R (xs.find? p) (ys.find? q) := by
  induction h with
  | nil => exact .none
  | @cons a b xs ys hab _ ih =>
    rw [List.find?_cons, List.find?_cons, hpq a b hab]
    cases q b with
    | true => exact .some hab
    | false => exact ih

theorem rel_or {α β : Type} {R : α → β → Prop} {o₁ o₂ : Option α} {o₁' o₂' : Option β}
    (h₁ : Option.Rel R o₁ o₁') (h₂ : Option.Rel R o₂ o₂') :
    Option.Rel R (o₁.or o₂) (o₁'.or o₂') := by
  cases h₁ with
  | some hab => exact .some hab
  | none => exact h₂

theorem rel_chosen? (h : List.Forall₂ Variable.Recased declared declared') (name : List Char) :
    Option.Rel (fun found found' : String => Recased found.toList found'.toList)
      (chosen? declared name) (chosen? declared' name) := by
  have hfind (p : Variable → Bool) (hp : ∀ v v', v.Recased v' → p v = p v') :
      Option.Rel Variable.Recased (declared.reverse.find? p) (declared'.reverse.find? p) :=
    rel_find? (List.forall₂_reverse_iff.2 h) hp
  rw [chosen?_eq, chosen?_eq]
  refine rel_map (rel_or (hfind _ ?_) (hfind _ ?_)) fun v v' h => h.2
  · rintro v v' ⟨heq, -⟩
    rw [heq]
    rfl
  · rintro v v' ⟨heq, -⟩
    rw [heq]
    rfl

/-! ### The resolution that reads every fallback -/

/-- The value behind a reference, with its fallback read in every letter case. -/
def foldedNext? (declared : List Variable) (value : List Char) : Option (List Char) :=
  (references value).head?.bind fun name =>
    match chosen? declared name with
    | some found => some (trim found.toList)
    | none => foldedFallback? value

/-- The color that a value denotes after at most `steps` references, if fallbacks are read in every
letter case. -/
def resolveFoldedIn (declared : List Variable) : Nat → List Char → Option Rgb
  | 0, value => if (reference? value).isSome then none else parse? value
  | steps + 1, value =>
    if (reference? value).isSome then
      (foldedNext? declared value).bind (resolveFoldedIn declared steps)
    else parse? value

/-- The color that a value denotes in a style sheet, if fallbacks are read in every letter case. -/
def resolveFolded (declared : List Variable) (value : List Char) : Option Rgb :=
  resolveFoldedIn declared maxSteps (trim (dropImportant value))

theorem rel_foldedNext? (hdeclared : List.Forall₂ Variable.Recased declared declared')
    (h : Recased value value') :
    Option.Rel Recased (foldedNext? declared value) (foldedNext? declared' value') := by
  rw [foldedNext?, foldedNext?, h.references_eq]
  cases (references value').head? with
  | none => exact .none
  | some name =>
    have hchosen := rel_chosen? hdeclared name
    rw [Option.bind_some, Option.bind_some]
    generalize chosen? declared name = o, chosen? declared' name = o' at hchosen
    cases hchosen with
    | some hfound => exact .some hfound.trim
    | none => exact rel_foldedFallback? h

theorem resolveFoldedIn_congr (hdeclared : List.Forall₂ Variable.Recased declared declared')
    (h : Recased value value') (n : Nat) :
    resolveFoldedIn declared n value = resolveFoldedIn declared' n value' := by
  have href {cs cs' : List Char} (h : Recased cs cs') :
      (reference? cs).isSome = (reference? cs').isSome := by
    have hrel := h.rel_reference?
    generalize reference? cs = r, reference? cs' = r' at hrel
    cases hrel <;> rfl
  induction n generalizing value value' with
  | zero => rw [resolveFoldedIn, resolveFoldedIn, href h, parse?_congr h]
  | succ n ih =>
    rw [resolveFoldedIn, resolveFoldedIn, href h, parse?_congr h]
    have hnext := rel_foldedNext? hdeclared h
    generalize foldedNext? declared value = o, foldedNext? declared' value' = o' at hnext
    cases hnext with
    | some himage => rw [Option.bind_some, Option.bind_some, ih himage]
    | none => rfl

/-- **Reading every fallback, the letter case of `var(` does not matter.** -/
theorem resolveFolded_congr (hdeclared : List.Forall₂ Variable.Recased declared declared')
    (h : Recased value value') : resolveFolded declared value = resolveFolded declared' value' :=
  resolveFoldedIn_congr hdeclared h.dropImportant.trim maxSteps

/-! ### Fallbacks that are not read -/

/-- The value refers to a property that is not declared, by `var(` in other than small letters. -/
structure WantsFallback (declared : List Variable) (value : List Char) : Prop where
  refers : (reference? value).isSome = true
  capital : ¬ "var(".toList <+: value
  undeclared : ∃ name ∈ (references value).head?, ∀ u ∈ declared, u.name.toList ≠ name

/-- Within a number of references the resolution comes to a fallback that it does not read. -/
inductive StallsIn (declared : List Variable) : Nat → List Char → Prop where
  | here {n : Nat} {value : List Char} (wants : WantsFallback declared value) :
      StallsIn declared (n + 1) value
  | later {n : Nat} {value image : List Char} (refers : (reference? value).isSome = true)
      (next : next? declared value = some image) (rest : StallsIn declared n image) :
      StallsIn declared (n + 1) value

/-- The resolution of a value comes to a fallback that it does not read. -/
def Stalls (declared : List Variable) (value : List Char) : Prop :=
  StallsIn declared maxSteps (trim (dropImportant value))

/-- Trimming a reference leaves its letters. -/
theorem prefix_trim_iff (h : (reference? value).isSome = true) :
    "var(".toList <+: trim value ↔ "var(".toList <+: value := by
  obtain ⟨rest, hrest⟩ := Option.isSome_iff_exists.1 h
  obtain ⟨word, rfl, opens⟩ := reference?_eq_some_iff.1 hrest
  have hword (cs : List Char) : "var(".toList <+: word ++ cs ↔ "var(".toList = word := by
    constructor
    · rintro ⟨tail, htail⟩
      exact (List.append_inj htail (length_eq_of_lowerAscii (by rw [opens]; decide))).1
    · rintro rfl
      exact List.prefix_append _ _
  have htrim : trim (word ++ rest) = word ++ trimRight rest := by
    rw [trim, trimLeft_opening opens]
    obtain ⟨v, a, r, rfl, -, -, -⟩ := exists_of_lowerAscii opens
    exact trimRight_append_cons (by decide) [v, a, r] rest
  rw [htrim, hword, hword]

/-- Only a fallback behind other than small letters is not read. -/
theorem next?_eq (declared : List Variable) (h : (reference? value).isSome = true) :
    (next? declared value = none ∧ WantsFallback declared value) ∨
      (next? declared value = foldedNext? declared value ∧ ¬ WantsFallback declared value) := by
  cases hname : (references value).head? with
  | none =>
    refine .inr ⟨by rw [next?, foldedNext?, hname]; rfl, fun hwants => ?_⟩
    obtain ⟨name, hmem, -⟩ := hwants.undeclared
    rw [hname] at hmem
    cases hmem
  | some name =>
    rw [next?, foldedNext?, hname, Option.bind_some, Option.bind_some]
    cases hchosen : chosen? declared name with
    | some found =>
      refine .inr ⟨rfl, fun hwants => ?_⟩
      obtain ⟨name', hmem, hundeclared⟩ := hwants.undeclared
      rw [hname] at hmem
      obtain rfl := Option.some.inj hmem
      rw [chosen?_eq_none_iff.2 hundeclared] at hchosen
      cases hchosen
    | none =>
      dsimp only
      rw [fallback?_eq]
      split
      · next hsmall =>
        exact .inr ⟨rfl, fun hwants => hwants.capital ((prefix_trim_iff h).1 hsmall)⟩
      · next hcapital =>
        exact .inl ⟨rfl, h, fun hsmall => hcapital ((prefix_trim_iff h).2 hsmall), name,
          hname, chosen?_eq_none_iff.1 hchosen⟩

theorem StallsIn.resolveIn_eq {n : Nat} (h : StallsIn declared n value) :
    resolveIn declared n value = none := by
  induction h with
  | here wants =>
    rw [resolveIn_succ wants.refers]
    rcases next?_eq declared wants.refers with ⟨hnext, -⟩ | ⟨-, hnot⟩
    · rw [hnext]
      rfl
    · exact absurd wants hnot
  | later refers next _ ih => rw [resolveIn_succ refers, next, Option.bind_some, ih]

theorem resolveIn_eq_resolveFoldedIn {n : Nat} (h : ¬ StallsIn declared n value) :
    resolveIn declared n value = resolveFoldedIn declared n value := by
  induction n generalizing value with
  | zero =>
    rw [resolveFoldedIn]
    split
    · next href => exact resolveIn_zero href
    · next href => exact resolveIn_of_none (Option.not_isSome_iff_eq_none.1 href) 0
  | succ n ih =>
    rw [resolveFoldedIn]
    split
    · next href =>
      rw [resolveIn_succ href]
      rcases next?_eq declared href with ⟨-, hwants⟩ | ⟨hnext, -⟩
      · exact absurd (.here hwants) h
      · rw [← hnext]
        cases himage : next? declared value with
        | none => rfl
        | some image => exact ih fun hrest => h (.later href himage hrest)
    · next href => exact resolveIn_of_none (Option.not_isSome_iff_eq_none.1 href) _

/-- The resolution reads every fallback that it wants, or it ends without a color. -/
theorem resolve_eq_ite [Decidable (Stalls declared value)] :
    resolve declared value =
      if Stalls declared value then none else resolveFolded declared value := by
  split
  · next h => exact h.resolveIn_eq
  · next h => exact resolveIn_eq_resolveFoldedIn h

/-! ### Small letters -/

/-- Wherever `var(` stands in the text, it is in small letters. -/
def InSmall (text : List Char) : Prop :=
  ∀ word, lowerAscii word = "var(".toList → word <:+: text → word = "var(".toList

theorem InSmall.mono {part text : List Char} (h : InSmall text) (hsub : part <:+: text) :
    InSmall part :=
  fun word opens hword => h word opens (hword.trans hsub)

theorem infix_trim (cs : List Char) : trim cs <:+: cs := by
  obtain ⟨left, right, heq, -, -⟩ := exists_append_trim cs
  exact ⟨left, right, by rw [List.append_assoc]; exact heq.symm⟩

theorem infix_trim_dropImportant (value : List Char) : trim (dropImportant value) <:+: value := by
  obtain ⟨left, right, more, heq, -⟩ := cut_trim_dropImportant value
  exact ⟨left, right ++ more, by rw [List.append_assoc]; exact heq.symm⟩

theorem suffix_of_afterComma? {depth : Nat} {cs rest : List Char}
    (h : afterComma? depth cs = some rest) : rest <:+ cs := by
  induction cs generalizing depth with
  | nil => cases h
  | cons c cs ih =>
    rw [afterComma?] at h
    split at h
    · obtain rfl := Option.some.inj h
      exact List.suffix_cons c cs
    · exact (ih h).trans (List.suffix_cons c cs)

/-- A fallback stands in its reference. -/
theorem infix_of_fallback? {image : List Char} (h : fallback? value = some image) :
    image <:+: value := by
  rw [fallback?_eq] at h
  split at h
  · obtain ⟨held, hheld, hcomma⟩ := Option.bind_eq_some_iff.1 h
    obtain ⟨rest, hrest, hlast⟩ := Option.bind_eq_some_iff.1 hheld
    obtain ⟨after, hafter, rfl⟩ := Option.map_eq_some_iff.1 hcomma
    obtain ⟨word, hword, -⟩ := reference?_eq_some_iff.1 hrest
    have hinner : held <:+: trim value :=
      ⟨word, [')'], by rw [hword, held?_eq_some_iff.1 hlast, List.append_assoc]⟩
    exact (infix_trim after).trans ((suffix_of_afterComma? hafter).isInfix.trans
      (hinner.trans (infix_trim value)))
  · cases h

/-- What the resolution looks at next stands in the value or in a declaration. -/
theorem infix_of_next? {image : List Char} (h : next? declared value = some image) :
    image <:+: value ∨ ∃ v ∈ declared, image <:+: v.value.toList := by
  obtain ⟨name, -, himage⟩ := Option.bind_eq_some_iff.1 h
  cases hchosen : chosen? declared name with
  | some found =>
    rw [hchosen] at himage
    obtain ⟨v, hv, rfl⟩ := chosen?_eq_some_iff.1 hchosen
    obtain rfl := Option.some.inj himage
    exact .inr ⟨v, hv.mem, infix_trim _⟩
  | none =>
    rw [hchosen] at himage
    exact .inl (infix_of_fallback? himage)

theorem InSmall.not_wantsFallback (h : InSmall value) : ¬ WantsFallback declared value := by
  intro hwants
  obtain ⟨rest, hrest⟩ := Option.isSome_iff_exists.1 hwants.refers
  obtain ⟨word, rfl, opens⟩ := reference?_eq_some_iff.1 hrest
  apply hwants.capital
  rw [← h word opens (List.prefix_append word rest).isInfix]
  exact List.prefix_append word rest

theorem InSmall.not_stallsIn (hdeclared : ∀ v ∈ declared, InSmall v.value.toList) {n : Nat}
    (h : InSmall value) : ¬ StallsIn declared n value := by
  intro hstalls
  induction hstalls with
  | here wants => exact h.not_wantsFallback wants
  | later _ next _ ih =>
    apply ih
    rcases infix_of_next? next with hsub | ⟨v, hv, hsub⟩
    · exact h.mono hsub
    · exact (hdeclared v hv).mono hsub

/-- **In small letters every fallback is read**, and in other letters a color is at most lost. -/
theorem resolve_eq_resolveFolded_of_inSmall (hdeclared : ∀ v ∈ declared, InSmall v.value.toList)
    (h : InSmall value) : resolve declared value = resolveFolded declared value :=
  resolveIn_eq_resolveFoldedIn
    (InSmall.not_stallsIn hdeclared (h.mono (infix_trim_dropImportant value)))

end

/-! ### Stalling is decided -/

instance (declared : List Variable) (value : List Char) :
    Decidable (WantsFallback declared value) :=
  decidable_of_iff
    ((reference? value).isSome = true ∧ ¬ "var(".toList <+: value ∧
      ∃ name ∈ (references value).head?, ∀ u ∈ declared, u.name.toList ≠ name)
    ⟨fun h => ⟨h.1, h.2.1, h.2.2⟩, fun h => ⟨h.1, h.2, h.3⟩⟩

theorem stallsIn_succ_iff {declared : List Variable} {n : Nat} {value : List Char} :
    StallsIn declared (n + 1) value ↔
      WantsFallback declared value ∨
        (reference? value).isSome = true ∧
          ∃ image ∈ next? declared value, StallsIn declared n image := by
  constructor
  · rintro (hwants | ⟨href, hnext, hrest⟩)
    · exact .inl hwants
    · exact .inr ⟨href, _, hnext, hrest⟩
  · rintro (hwants | ⟨href, image, hnext, hrest⟩)
    · exact .here hwants
    · exact .later href hnext hrest

instance decidableStallsIn (declared : List Variable) :
    ∀ (n : Nat) (value : List Char), Decidable (StallsIn declared n value)
  | 0, _ => isFalse nofun
  | n + 1, _ =>
    have (image : List Char) : Decidable (StallsIn declared n image) :=
      decidableStallsIn declared n image
    decidable_of_iff' _ stallsIn_succ_iff

instance (declared : List Variable) (value : List Char) : Decidable (Stalls declared value) :=
  inferInstanceAs (Decidable (StallsIn declared maxSteps (trim (dropImportant value))))

/-! ### Spellings of a style sheet -/

/-- **Two spellings of a value have the same color exactly if there is none to be found or if both
or neither of them stall.** -/
theorem resolve_recased_iff {s s' : Sheet}
    (hs : List.Forall₂ Variable.Recased s.customProperties s'.customProperties)
    {value value' : List Char} (hvalue : Recased value value') :
    resolve s'.customProperties value' = resolve s.customProperties value ↔
      resolveFolded s.customProperties value = none ∨
        (Stalls s.customProperties value ↔ Stalls s'.customProperties value') := by
  rw [resolve_eq_ite, resolve_eq_ite, ← resolveFolded_congr hs hvalue]
  by_cases hstalls : Stalls s.customProperties value <;>
    by_cases hstalls' : Stalls s'.customProperties value'
  · rw [if_pos hstalls, if_pos hstalls']
    exact iff_of_true rfl (.inr (iff_of_true hstalls hstalls'))
  · rw [if_pos hstalls, if_neg hstalls']
    exact (or_iff_left fun hiff => hstalls' (hiff.1 hstalls)).symm
  · rw [if_neg hstalls, if_pos hstalls', eq_comm]
    exact (or_iff_left fun hiff => hstalls (hiff.2 hstalls')).symm
  · rw [if_neg hstalls, if_neg hstalls']
    exact iff_of_true rfl (.inr (iff_of_false hstalls hstalls'))

/-- References in capitals to properties that are declared are followed. -/
theorem resolve_recased_of_declared :
    ∃ s s' : Sheet, s.customProperties.map (fun v => (v.name, v.value)) =
        [("--a", "var( --b , #fff)"), ("--b", "red")] ∧
      s'.customProperties.map (fun v => (v.name, v.value)) =
        [("--a", "VAR( --b , #fff)"), ("--b", "red")] ∧
      List.Forall₂ Variable.Recased s.customProperties s'.customProperties ∧
      Recased "var(--a)".toList "Var(--a)".toList ∧
      resolve s'.customProperties "Var(--a)".toList =
        resolve s.customProperties "var(--a)".toList := by
  let a : Variable := ⟨"--a", "var( --b , #fff)", .color, ":root", .start⟩
  let a' : Variable := ⟨"--a", "VAR( --b , #fff)", .color, ":root", .start⟩
  let b : Variable := ⟨"--b", "red", .color, ":root", .start⟩
  let s : Sheet := ⟨"a.css", [a, b], [], [], [], []⟩
  let s' : Sheet := ⟨"a.css", [a', b], [], [], [], []⟩
  have hopening (word cs : List Char) (opens : lowerAscii word = "var(".toList) :
      Recased ("var(".toList ++ cs) (word ++ cs) :=
    .opening (by decide) opens rfl (.refl cs)
  have hfirst : Recased "var( --b , #fff)".toList "VAR( --b , #fff)".toList :=
    hopening "VAR(".toList " --b , #fff)".toList (by decide)
  have ha : a.Recased a' := ⟨rfl, hfirst⟩
  have hb : b.Recased b := ⟨rfl, .refl _⟩
  have hs : List.Forall₂ Variable.Recased s.customProperties s'.customProperties :=
    .cons ha (.cons hb .nil)
  have hvalue : Recased "var(--a)".toList "Var(--a)".toList :=
    hopening "Var(".toList "--a)".toList (by decide)
  exact ⟨s, s', rfl, rfl, hs, hvalue, (resolve_recased_iff hs hvalue).2 (.inr (by decide +kernel))⟩

/-- Behind capitals the fallback is not read. -/
theorem resolve_loses_fallback :
    ∃ (s : Sheet) (value value' : List Char), s.customProperties = [] ∧
      value = "var(--x, red)".toList ∧ value' = "VAR(--x, red)".toList ∧ Recased value value' ∧
      resolve s.customProperties value = some ⟨255, 0, 0⟩ ∧
      resolve s.customProperties value' = none := by
  let s : Sheet := ⟨"a.css", [], [], [], [], []⟩
  have hvalue : Recased "var(--x, red)".toList "VAR(--x, red)".toList :=
    @Recased.opening "var(".toList "VAR(".toList _ _ (by decide) (by decide) rfl (.refl _)
  exact ⟨s, _, _, rfl, rfl, rfl, hvalue, by decide +kernel, by decide +kernel⟩

end Color
end SheetAudit
