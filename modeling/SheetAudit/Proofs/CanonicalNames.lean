import Mathlib
import SheetAudit.Proofs.Flags
import SheetAudit.Rules.Naming

/-!
# Canonical names

The canonical form of a name puts a hyphen where a capital follows a small letter or a digit, and
one hyphen for every run of separators.  Two hyphens never meet in it and none is left at an end, so
it is a canonical name if the name is made of letters, digits, hyphens and underscores, and whatever
the name is, it is its own canonical form.

## Main definitions

* `isSeparator` — the characters that part the words of a name.
* `IsPlain` — a name of ASCII letters, digits, hyphens and underscores that has a letter or a digit.
* `Parted`, `SinglyJoined` — no two hyphens meet, and none stands at an end.
* `IsSettled` — the canonical form of a name has no other characters between its hyphens.

## Main results

* `isCanonical_iff` — canonical names, without the reading that recognises them.
* `isChain_hyphenate` — no two hyphens meet in what is produced, whatever was produced before.
* `filter_canonical` — the canonical form keeps the letters of a name, small and in order.
* `canonical_eq_self` — settled words that single hyphens join are their own canonical form.
* `Naming.proposal_settles` — **what is proposed in place of a name is canonical and has the letters
  of the name, and nothing is found about it; what is canonical stays as it is.**
-/

namespace SheetAudit
namespace Name

open Text

/-! ### Characters of names -/

/-- Parts two words of a name. -/
def isSeparator (c : Char) : Bool := c == '_' || c == '-' || isBlank c

/-- Neither a capital nor a separator. -/
structure IsSettled (c : Char) : Prop where
  upper : c.isUpper = false
  separator : isSeparator c = false

/-- ASCII letters, digits, hyphens and underscores, with a letter or a digit among them. -/
structure IsPlain (name : List Char) : Prop where
  chars : ∀ c ∈ name, c.isAlphanum = true ∨ c = '-' ∨ c = '_'
  letter : ∃ c ∈ name, c.isAlphanum = true

theorem isPlain_iff {name : List Char} : IsPlain name ↔
    name.all (fun c => c.isAlphanum || c == '-' || c == '_') = true ∧
      name.any Char.isAlphanum = true := by
  simp only [List.all_eq_true, List.any_eq_true, Bool.or_eq_true, beq_iff_eq, or_assoc]
  exact ⟨fun h => ⟨h.chars, h.letter⟩, fun h => ⟨h.1, h.2⟩⟩

instance (name : List Char) : Decidable (IsPlain name) := decidable_of_iff _ isPlain_iff.symm

theorem isSeparator_hyphen : isSeparator '-' = true := by decide

theorem isSeparator_of_isAlphanum {c : Char} (h : c.isAlphanum = true) : isSeparator c = false := by
  rw [isAlphanum_iff] at h
  simp only [isSeparator, isBlank, Bool.or_eq_false_iff, Bool.and_eq_false_iff,
    decide_eq_false_iff_not, beq_eq_false_iff_ne]
  have hne {d : Char} (hd : c.toNat ≠ d.toNat) : c ≠ d := fun heq => hd (congrArg Char.toNat heq)
  have hunderscore : '_'.toNat = 95 := rfl
  have hhyphen : '-'.toNat = 45 := rfl
  refine ⟨⟨hne (by omega), hne (by omega)⟩, ?_⟩
  omega

theorem isAlphanum_of_isUpper {c : Char} (h : c.isUpper = true) : c.isAlphanum = true := by
  rw [Char.isAlphanum, Char.isAlpha, h, Bool.true_or, Bool.true_or]

theorem isSeparator_toLower (c : Char) : isSeparator c.toLower = isSeparator c := by
  by_cases hc : c.isUpper = true
  · have hlower : c.toLower.isAlphanum = true := by
      rw [Char.isAlphanum, Char.isAlpha_toLower_eq_isAlpha, Char.isAlpha, hc, Bool.true_or,
        Bool.true_or]
    rw [isSeparator_of_isAlphanum hlower, isSeparator_of_isAlphanum (isAlphanum_of_isUpper hc)]
  · rw [Char.toLower_eq_of_not_isUpper hc]

/-- The small form of what is no separator is settled. -/
theorem isSettled_toLower {c : Char} (h : isSeparator c = false) : IsSettled c.toLower where
  upper := Char.isUpper_toLower_eq_false c
  separator := by rw [isSeparator_toLower, h]

theorem IsSettled.ne_hyphen {c : Char} (h : IsSettled c) : c ≠ '-' := by
  rintro rfl
  exact Bool.false_ne_true (h.separator.symm.trans isSeparator_hyphen)

theorem isAlphanum_of_isLowerAlnum {c : Char} (h : isLowerAlnum c = true) :
    c.isAlphanum = true := by
  rw [isLowerAlnum, Bool.or_eq_true] at h
  rw [Char.isAlphanum, Char.isAlpha]
  rcases h with h | h
  · rw [h, Bool.or_true, Bool.true_or]
  · rw [h, Bool.or_true]

theorem isSettled_of_isLowerAlnum {c : Char} (h : isLowerAlnum c = true) : IsSettled c where
  upper := by
    rw [isLowerAlnum, Bool.or_eq_true] at h
    rcases h with h | h
    · exact Bool.eq_false_iff.2 (Char.not_isUpper_of_isLower h)
    · refine Bool.eq_false_iff.2 fun hupper => ?_
      simp only [Char.isDigit, Char.isUpper, Bool.and_eq_true, decide_eq_true_eq,
        UInt32.le_iff_toNat_le, ge_iff_le, Char.reduceVal, UInt32.reduceToNat] at h hupper
      omega
  separator := isSeparator_of_isAlphanum (isAlphanum_of_isLowerAlnum h)

theorem isLowerAlnum_toLower {c : Char} (h : c.isAlphanum = true) :
    isLowerAlnum c.toLower = true := by
  rw [isLowerAlnum, Char.isLower_toLower_eq_isAlpha]
  cases halpha : c.isAlpha with
  | true => rfl
  | false =>
    rw [Char.isAlphanum, halpha, Bool.false_or] at h
    rw [Char.isAlpha, Bool.or_eq_false_iff] at halpha
    rw [Char.toLower_eq_of_not_isUpper (Bool.eq_false_iff.1 halpha.1), h, Bool.or_true]

/-! ### Single hyphens -/

/-- Not both characters are hyphens. -/
def Parted (c d : Char) : Prop := ¬ (c = '-' ∧ d = '-')

/-- Between two hyphens the text has no two hyphens that meet: it is not empty, neither begins nor
ends with a hyphen, and has single hyphens only. -/
def SinglyJoined (cs : List Char) : Prop := List.IsChain Parted ('-' :: (cs ++ ['-']))

theorem parted_of_ne_left {c d : Char} (h : c ≠ '-') : Parted c d := fun both => h both.1

theorem parted_of_ne_right {c d : Char} (h : d ≠ '-') : Parted c d := fun both => h both.2

theorem canonicalFrom_iff (b : Char) (cs : List Char) : canonicalFrom (b == '-') cs = true ↔
    (∀ c ∈ cs, c = '-' ∨ isLowerAlnum c = true) ∧ List.IsChain Parted (b :: (cs ++ ['-'])) := by
  induction cs generalizing b with
  | nil =>
    rw [canonicalFrom, List.nil_append, List.isChain_cons_cons, Bool.not_eq_true',
      beq_eq_false_iff_ne]
    simp [Parted]
  | cons c cs ih =>
    rw [canonicalFrom, List.forall_mem_cons, List.cons_append, List.isChain_cons_cons]
    by_cases hc : c = '-'
    · subst hc
      have ih := ih '-'
      rw [beq_self_eq_true] at ih
      rw [if_pos (beq_self_eq_true _), Bool.and_eq_true, ih, Bool.not_eq_true', beq_eq_false_iff_ne]
      simp only [Parted, and_true, true_or, true_and, and_left_comm]
    · have ih := ih c
      rw [beq_false_of_ne hc] at ih
      rw [if_neg (by simpa using hc), Bool.and_eq_true, ih, and_iff_right (parted_of_ne_right hc),
        or_iff_right hc, and_assoc]

/-- A canonical name consists of small letters and digits in words that single hyphens join. -/
theorem isCanonical_iff {name : List Char} : isCanonical name = true ↔
    (∀ c ∈ name, c = '-' ∨ isLowerAlnum c = true) ∧ SinglyJoined name :=
  canonicalFrom_iff '-' name

section

variable {cs : List Char}

theorem SinglyJoined.ne_nil (h : SinglyJoined cs) : cs ≠ [] := by
  rintro rfl
  exact (List.isChain_cons_cons.1 h).1 ⟨rfl, rfl⟩

theorem SinglyJoined.isChain (h : SinglyJoined cs) : List.IsChain Parted ('-' :: cs) :=
  List.IsChain.prefix h ⟨['-'], rfl⟩

theorem SinglyJoined.head (h : SinglyJoined cs) : ∀ c ∈ cs.head?, c ≠ '-' := fun c hc heq =>
  (List.isChain_cons.1 h.isChain).1 c hc ⟨rfl, heq⟩

theorem SinglyJoined.last (h : SinglyJoined cs) : ∀ c ∈ cs.getLast?, c ≠ '-' := by
  intro c hc heq
  have hchain : List.IsChain Parted (('-' :: cs) ++ ['-']) := h
  refine (List.isChain_append.1 hchain).2.2 c ?_ '-' rfl ⟨heq, rfl⟩
  rw [List.getLast?_cons, hc]
  rfl

/-- Hyphens that do not meet leave a text that single hyphens join, or none, once those at its end
are taken away. -/
theorem trimHyphens_of_isChain (h : List.IsChain Parted ('-' :: cs)) :
    trimMatches (· == '-') cs = [] ∨ SinglyJoined (trimMatches (· == '-') cs) := by
  have hleft : cs.dropWhile (· == '-') = cs := by
    cases cs with
    | nil => rfl
    | cons c cs =>
      have hc : c ≠ '-' := fun heq => (List.isChain_cons_cons.1 h).1 ⟨rfl, heq⟩
      exact List.dropWhile_cons_of_neg (by simpa using hc)
  have htrim : trimMatches (· == '-') cs = cs.rdropWhile (· == '-') := by
    rw [trimMatches, hleft, List.rdropWhile]
  rw [htrim]
  by_cases hnil : cs.rdropWhile (· == '-') = []
  · exact .inl hnil
  · refine .inr ?_
    have hprefix : '-' :: cs.rdropWhile (· == '-') <+: '-' :: cs :=
      List.cons_prefix_cons.2 ⟨rfl, List.rdropWhile_prefix _ _⟩
    have hlast := List.rdropWhile_last_not (· == '-') cs hnil
    have hchain := List.IsChain.prefix h hprefix
    rw [SinglyJoined, ← List.cons_append]
    refine hchain.append (List.isChain_singleton _) ?_
    intro c hc d _
    rw [List.getLast?_cons, List.getLast?_eq_some_getLast hnil] at hc
    obtain rfl := Option.some.inj hc
    exact parted_of_ne_left (by simpa using hlast)

theorem trimHyphens_eq_self (h : SinglyJoined cs) : trimMatches (· == '-') cs = cs := by
  have hleft : cs.dropWhile (· == '-') = cs := by
    cases cs with
    | nil => rfl
    | cons c cs => exact List.dropWhile_cons_of_neg (by simpa using h.head c rfl)
  have hright : cs.rdropWhile (· == '-') = cs := by
    refine List.rdropWhile_eq_self_iff.2 fun hne => ?_
    simpa using h.last _ (List.getLast?_eq_some_getLast hne)
  rw [trimMatches, hleft]
  exact hright

end

/-! ### The canonical form -/

theorem hyphenate_cons (small joined : Bool) (c : Char) (cs : List Char) :
    hyphenate small joined (c :: cs) =
      if c.isUpper then
        if small then '-' :: c.toLower :: hyphenate false false cs
        else c.toLower :: hyphenate false false cs
      else if isSeparator c then
        if joined then hyphenate false true cs else '-' :: hyphenate false true cs
      else c :: hyphenate (isLowerAlnum c) false cs :=
  rfl

/-- No two hyphens meet in what is produced behind a character, or behind a hyphen if there is
none yet; a small letter or a digit that came right before has been produced. -/
theorem isChain_hyphenate (small : Bool) (b : Char) (hsmall : small = true → b ≠ '-')
    (cs : List Char) : List.IsChain Parted (b :: hyphenate small (b == '-') cs) := by
  induction cs generalizing small b with
  | nil => exact List.isChain_singleton b
  | cons c cs ih =>
    have hnext {d : Char} {small' : Bool} (hd : d ≠ '-') :
        List.IsChain Parted (d :: hyphenate small' false cs) := by
      have hchain := ih small' d fun _ => hd
      rwa [beq_false_of_ne hd] at hchain
    rw [hyphenate_cons]
    split
    · next hupper =>
      have hc := isSeparator_of_isAlphanum (isAlphanum_of_isUpper hupper)
      have hlower : c.toLower ≠ '-' := (isSettled_toLower hc).ne_hyphen
      split
      · next hs =>
        refine List.isChain_cons_cons.2 ⟨parted_of_ne_left (hsmall hs), ?_⟩
        exact List.isChain_cons_cons.2 ⟨parted_of_ne_right hlower, hnext hlower⟩
      · exact List.isChain_cons_cons.2 ⟨parted_of_ne_right hlower, hnext hlower⟩
    · split
      · have hhyphen := ih false '-' nofun
        rw [beq_self_eq_true] at hhyphen
        split
        · next hb => rwa [← eq_of_beq hb] at hhyphen
        · next hb => exact List.isChain_cons_cons.2 ⟨parted_of_ne_left (by simpa using hb), hhyphen⟩
      · next hkept =>
        have hc : c ≠ '-' := by
          rintro rfl
          exact hkept isSeparator_hyphen
        exact List.isChain_cons_cons.2 ⟨parted_of_ne_right hc, hnext hc⟩

/-- Apart from hyphens, the small form of every character that is no separator is produced. -/
theorem filter_hyphenate (small joined : Bool) (cs : List Char) :
    (hyphenate small joined cs).filter (· != '-') =
      lowerAscii (cs.filter fun c => !isSeparator c) := by
  induction cs generalizing small joined with
  | nil => rfl
  | cons c cs ih =>
    have hkeep (hc : isSeparator c = false) (small' : Bool) :
        (c.toLower :: hyphenate small' false cs).filter (· != '-') =
          lowerAscii ((c :: cs).filter fun c => !isSeparator c) := by
      have hlower : (c.toLower != '-') = true := bne_iff_ne.2 (isSettled_toLower hc).ne_hyphen
      have hkept : (!isSeparator c) = true := by rw [hc]; rfl
      rw [List.filter_cons_of_pos (p := (· != '-')) hlower,
        List.filter_cons_of_pos (p := fun c => !isSeparator c) hkept, ih]
      rfl
    have hhyphen (ds : List Char) : ('-' :: ds).filter (· != '-') = ds.filter (· != '-') :=
      List.filter_cons_of_neg (by decide)
    rw [hyphenate_cons]
    split
    · next hupper =>
      have hc := isSeparator_of_isAlphanum (isAlphanum_of_isUpper hupper)
      split
      · rw [hhyphen, hkeep hc]
      · exact hkeep hc false
    · next hupper =>
      split
      · next hc =>
        rw [List.filter_cons_of_neg (p := fun c => !isSeparator c) (by rw [hc]; exact nofun)]
        split
        · exact ih _ _
        · rw [hhyphen, ih]
      · next hc =>
        have hkept := hkeep (Bool.eq_false_iff.2 hc) (isLowerAlnum c)
        rwa [Char.toLower_eq_of_not_isUpper hupper] at hkept

/-- What is settled and has no hyphens that meet is produced as it is. -/
theorem hyphenate_eq_self (small : Bool) {b : Char} {cs : List Char}
    (hsettled : ∀ c ∈ cs, c = '-' ∨ IsSettled c) (hchain : List.IsChain Parted (b :: cs)) :
    hyphenate small (b == '-') cs = cs := by
  induction cs generalizing small b with
  | nil => rfl
  | cons c cs ih =>
    obtain ⟨hc, hcs⟩ := List.forall_mem_cons.1 hsettled
    obtain ⟨hparted, hchain⟩ := List.isChain_cons_cons.1 hchain
    rw [hyphenate_cons]
    rcases hc with rfl | hc
    · have hb : ¬ (b == '-') = true := fun hb => hparted ⟨eq_of_beq hb, rfl⟩
      have ih := ih false hcs hchain
      rw [beq_self_eq_true] at ih
      rw [if_neg (by decide), if_pos isSeparator_hyphen, if_neg hb, ih]
    · have ih := ih (isLowerAlnum c) hcs hchain
      rw [beq_false_of_ne hc.ne_hyphen] at ih
      have hseparator : ¬ isSeparator c = true := Bool.eq_false_iff.1 hc.separator
      rw [if_neg (Bool.eq_false_iff.1 hc.upper), if_neg hseparator, ih]

section

variable {text name : List Char}

theorem filter_trimHyphens (cs : List Char) :
    (trimMatches (· == '-') cs).filter (· != '-') = cs.filter (· != '-') := by
  have hdrop (ds : List Char) :
      (ds.dropWhile (· == '-')).filter (· != '-') = ds.filter (· != '-') := by
    conv_rhs => rw [← List.takeWhile_append_dropWhile (p := (· == '-')) (l := ds)]
    have hnone : (ds.takeWhile (· == '-')).filter (· != '-') = [] := by
      refine List.filter_eq_nil_iff.2 fun c hc => ?_
      have hhyphen : (c == '-') = true := List.mem_takeWhile_imp (p := (· == '-')) hc
      simpa using hhyphen
    rw [List.filter_append, hnone, List.nil_append]
  rw [trimMatches, List.filter_reverse, hdrop, List.filter_reverse, List.reverse_reverse, hdrop]

/-- The canonical form keeps the letters of a name, small and in order. -/
theorem filter_canonical (text : List Char) : (canonical text).filter (· != '-') =
    lowerAscii (text.filter fun c => !isSeparator c) := by
  rw [canonical, filter_trimHyphens, filter_hyphenate]

/-- The canonical form of a text is nothing, or single hyphens join it. -/
theorem canonical_eq_nil_or (text : List Char) :
    canonical text = [] ∨ SinglyJoined (canonical text) :=
  trimHyphens_of_isChain (isChain_hyphenate false '-' nofun text)

theorem isSettled_of_mem_canonical {c : Char} (h : c ∈ canonical text) : c = '-' ∨ IsSettled c := by
  by_cases hc : c = '-'
  · exact .inl hc
  · have hmem : c ∈ (canonical text).filter (· != '-') :=
      List.mem_filter.2 ⟨h, bne_iff_ne.2 hc⟩
    rw [filter_canonical] at hmem
    obtain ⟨d, hd, rfl⟩ := List.mem_map.1 hmem
    exact .inr (isSettled_toLower (by simpa using (List.mem_filter.1 hd).2))

/-- Settled words that single hyphens join are their own canonical form. -/
theorem canonical_eq_self (hsettled : ∀ c ∈ name, c = '-' ∨ IsSettled c) (h : SinglyJoined name) :
    canonical name = name := by
  rw [canonical, ← beq_self_eq_true '-', hyphenate_eq_self false hsettled h.isChain,
    trimHyphens_eq_self h]

theorem canonical_canonical (text : List Char) : canonical (canonical text) = canonical text := by
  rcases canonical_eq_nil_or text with hnil | hjoined
  · rw [hnil]
    rfl
  · exact canonical_eq_self (fun _ => isSettled_of_mem_canonical) hjoined

theorem canonical_of_isCanonical (h : isCanonical name = true) : canonical name = name := by
  obtain ⟨hchars, hjoined⟩ := isCanonical_iff.1 h
  exact canonical_eq_self (fun c hc => (hchars c hc).imp_right isSettled_of_isLowerAlnum) hjoined

/-! ### Plain names -/

theorem IsPlain.filter_eq (h : IsPlain name) :
    (name.filter fun c => !isSeparator c) = name.filter Char.isAlphanum := by
  refine List.filter_congr fun c hc => ?_
  rcases h.chars c hc with halnum | rfl | rfl
  · rw [isSeparator_of_isAlphanum halnum, halnum]
    rfl
  · decide
  · decide

theorem IsPlain.filter_canonical (h : IsPlain name) :
    (canonical name).filter (· != '-') = lowerAscii (name.filter Char.isAlphanum) := by
  rw [Name.filter_canonical, h.filter_eq]

/-- The canonical form of a plain name is a canonical name. -/
theorem IsPlain.isCanonical (h : IsPlain name) : isCanonical (canonical name) = true := by
  refine isCanonical_iff.2 ⟨fun c hc => ?_, (canonical_eq_nil_or name).resolve_left fun hnil => ?_⟩
  · by_cases hhyphen : c = '-'
    · exact .inl hhyphen
    · have hmem : c ∈ (canonical name).filter (· != '-') :=
        List.mem_filter.2 ⟨hc, bne_iff_ne.2 hhyphen⟩
      rw [h.filter_canonical] at hmem
      obtain ⟨d, hd, rfl⟩ := List.mem_map.1 hmem
      exact .inr (isLowerAlnum_toLower (List.mem_filter.1 hd).2)
  · -- a letter or a digit of the name is left
    obtain ⟨c, hc, halnum⟩ := h.letter
    have hmem : c.toLower ∈ (canonical name).filter (· != '-') := by
      rw [h.filter_canonical]
      exact List.mem_map_of_mem (List.mem_filter.2 ⟨hc, halnum⟩)
    rw [hnil] at hmem
    exact List.not_mem_nil hmem

end

/-! ### Names of classes -/

theorem canonicalFrom_hyphen (b : Bool) (cs : List Char) :
    canonicalFrom b ('-' :: cs) = (!b && canonicalFrom true cs) := rfl

theorem canonicalFrom_of_ne {c : Char} (hc : c ≠ '-') (b : Bool) (cs : List Char) :
    canonicalFrom b (c :: cs) = (isLowerAlnum c && canonicalFrom false cs) := by
  rw [canonicalFrom, if_neg (by simpa using hc)]

/-- Where a word has to begin, it begins with a small letter or a digit. -/
theorem canonicalFrom_true (c : Char) (cs : List Char) :
    canonicalFrom true (c :: cs) = (isLowerAlnum c && canonicalFrom false cs) := by
  by_cases hc : c = '-'
  · subst hc
    rfl
  · exact canonicalFrom_of_ne hc true cs

/-- Nothing follows a canonical name in itself. -/
theorem afterCanonical?_of_isCanonical {name : List Char} (h : isCanonical name = true) :
    afterCanonical? name = some [] := by
  unfold isCanonical at h
  fun_induction afterCanonical? name with
  | case1 => cases h
  | case2 c cs hc =>
    rw [canonicalFrom_true, Bool.and_eq_true] at h
    rw [h.1] at hc
    cases hc
  | case3 c hc d ds hd ih =>
    rw [canonicalFrom_true, Bool.and_eq_true, canonicalFrom_hyphen] at h
    exact ih h.2
  | case4 c hc d ds hd =>
    rw [canonicalFrom_true, Bool.and_eq_true, canonicalFrom_hyphen] at h
    have hword : canonicalFrom true (d :: ds) = true := h.2
    rw [canonicalFrom_true, Bool.and_eq_true] at hword
    exact absurd hword.1 hd
  | case5 c hc d ds hnot hd ih =>
    have hne : d ≠ '-' := (isSettled_of_isLowerAlnum hd).ne_hyphen
    rw [canonicalFrom_true, Bool.and_eq_true, canonicalFrom_of_ne hne] at h
    exact ih (by rw [canonicalFrom_true]; exact h.2)
  | case6 c hc d ds hnot hd =>
    rw [canonicalFrom_true, Bool.and_eq_true] at h
    by_cases hne : d = '-'
    · -- a canonical name does not end with a hyphen
      subst hne
      cases ds with
      | nil => cases h.2
      | cons e es => exact absurd rfl (hnot e es rfl)
    · rw [canonicalFrom_of_ne hne, Bool.and_eq_true] at h
      exact absurd h.2.1 hd
  | case7 => rfl

theorem isCanonicalClass_of_isCanonical {name : List Char} (h : isCanonical name = true) :
    isCanonicalClass name = true := by
  rw [isCanonicalClass, afterCanonical?_of_isCanonical h]
  rfl

end Name

namespace Naming

open Text

/-- What is proposed for a name is as it should be, and is found as it should be. -/
theorem misspelled_of_canonicalVariable {v w : Variable} (hv : Name.IsPlain v.name.toList)
    (hw : w.name = canonicalVariable v) (t : Sheet) : misspelled t w = none := by
  have hname : w.name.toList = '-' :: '-' :: Name.canonical v.name.toList := by
    rw [hw, canonicalVariable, String.toList_append, String.toList_ofList, String.toList_ofList]
    rfl
  rw [misspelled, hname, Name.isCanonicalVariable, hv.isCanonical]
  rfl

theorem misspelledClass_of_canonical {c d : StyledClass} (hc : Name.IsPlain c.name.toList)
    (hd : d.name = String.ofList (Name.canonical c.name.toList)) (t : Sheet) :
    misspelledClass t d = none := by
  rw [misspelledClass, hd, String.toList_ofList,
    Name.isCanonicalClass_of_isCanonical hc.isCanonical]
  rfl

theorem suggestion_of_misspelled {s : Sheet} {v : Variable} {i : Issue}
    (h : misspelled s v = some i) : i.suggestion = s!"Rename to '{canonicalVariable v}'" := by
  rw [misspelled, Option.ite_none_left_eq_some] at h
  obtain ⟨-, h⟩ := h
  rw [← Option.some.inj h]

theorem suggestion_of_misspelledClass {s : Sheet} {c : StyledClass} {i : Issue}
    (h : misspelledClass s c = some i) :
    i.suggestion = s!"Rename to '.{String.ofList (Name.canonical c.name.toList)}'" := by
  rw [misspelledClass, Option.ite_none_left_eq_some] at h
  obtain ⟨-, h⟩ := h
  rw [← Option.some.inj h]

/-- **What is proposed in place of a name is canonical and has the letters of the name, and nothing
is found about it; the canonical form of any text stays as it is, and so does a canonical name.** -/
theorem proposal_settles :
    (∀ name : List Char, Name.IsPlain name →
      Name.isCanonical (Name.canonical name) = true ∧
        Name.isCanonicalVariable ('-' :: '-' :: Name.canonical name) = true ∧
        Name.isCanonicalClass (Name.canonical name) = true ∧
        (Name.canonical name).filter (· != '-') = lowerAscii (name.filter Char.isAlphanum)) ∧
    (∀ (s : Sheet) (v : Variable) (i : Issue), Name.IsPlain v.name.toList →
      misspelled s v = some i →
        i.suggestion = s!"Rename to '{canonicalVariable v}'" ∧
          ∀ (t : Sheet) (w : Variable), w.name = canonicalVariable v → misspelled t w = none) ∧
    (∀ (s : Sheet) (c : StyledClass) (i : Issue), Name.IsPlain c.name.toList →
      misspelledClass s c = some i →
        i.suggestion = s!"Rename to '.{String.ofList (Name.canonical c.name.toList)}'" ∧
          ∀ (t : Sheet) (d : StyledClass), d.name = String.ofList (Name.canonical c.name.toList) →
            misspelledClass t d = none) ∧
    (∀ text : List Char, Name.canonical (Name.canonical text) = Name.canonical text) ∧
    ∀ name : List Char, Name.isCanonical name = true → Name.canonical name = name := by
  refine ⟨fun name hname => ?_, fun s v i hv hi => ?_, fun s c i hc hi => ?_,
    Name.canonical_canonical, fun name => Name.canonical_of_isCanonical⟩
  · have hcanonical := hname.isCanonical
    exact ⟨hcanonical, hcanonical, Name.isCanonicalClass_of_isCanonical hcanonical,
      hname.filter_canonical⟩
  · exact ⟨suggestion_of_misspelled hi, fun t w hw => misspelled_of_canonicalVariable hv hw t⟩
  · exact ⟨suggestion_of_misspelledClass hi, fun t d hd => misspelledClass_of_canonical hc hd t⟩

/-- Capitals, a digit and separators in a row. -/
theorem proposal_settles_mixed :
    Name.canonical "--mainColor__2X-".toList = "main-color-2-x".toList ∧
      Name.isCanonical (Name.canonical "--mainColor__2X-".toList) = true ∧
      Name.canonical (Name.canonical "--mainColor__2X-".toList) =
        Name.canonical "--mainColor__2X-".toList := by
  have hplain : Name.IsPlain "--mainColor__2X-".toList := by decide
  obtain ⟨hname, -, -, htwice, -⟩ := proposal_settles
  exact ⟨by decide, (hname _ hplain).1, htwice _⟩

end Naming
end SheetAudit
