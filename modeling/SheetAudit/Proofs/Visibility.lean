import SheetAudit.Proofs.Proposals

/-!
# What the search for colors sees

A value is searched for colors up to its flag, with a space in place of every reference and of every
address.  A word that is replaced by a reference is either seen there, or it makes no difference;
only a flag that goes on in the word is no longer one afterwards.

## Main definitions

* `visible` — what the search sees of a value.
* `Clear` — a word of the syntax neither begins in a text nor goes through it.
* `IsToken` — a text without blanks, parentheses and flags in which no reference and no address
  takes part.
* `SparesFlag` — the first flag does not begin before a place and go on behind it.
* `ClosedAddresses`, `OpenAddress` — whether an address is open at the end of a text.
* `Shown` — the texts that the search sees on both sides of a place.

## Main results

* `IsToken.blankAddresses_place` — a token outside addresses is seen, and a space in its place.
* `IsToken.visible_eq_or_shown` — **a reference in place of a token is seen as a space, or not at
  all.**
-/

namespace SheetAudit
namespace Value

open Text
open Offsets (dropAscii?_eq_some blankReferences_cons_of_none eq_openParen_of_toLower)

/-- What the search for colors sees of a value. -/
def visible (value : List Char) : List Char := blankAddresses (literalPart value)

/-! ### Words of the syntax -/

/-- No occurrence of the word begins in the text, or goes through it. -/
structure Clear (word p : List Char) : Prop where
  begins : ∀ q ∈ p.tails, q ≠ [] → ¬ lowerAscii q <+: word
  through : ¬ lowerAscii p <:+: word

instance (word p : List Char) : Decidable (Clear word p) :=
  decidable_of_iff ((∀ q ∈ p.tails, q ≠ [] → ¬ lowerAscii q <+: word) ∧ ¬ lowerAscii p <:+: word)
    ⟨fun h => ⟨h.1, h.2⟩, fun h => ⟨h.begins, h.through⟩⟩

/-- Calls end with the parenthesis of their arguments. -/
def IsCall (word : List Char) : Prop := ∃ stem, word = stem ++ ['(']

section

variable {word p q tail : List Char}

theorem IsCall.ne_nil (hword : IsCall word) : word ≠ [] := by
  obtain ⟨stem, rfl⟩ := hword
  exact List.append_ne_nil_of_right_ne_nil stem (by decide)

/-- A text that ends a call ends with its parenthesis. -/
theorem IsCall.mem (hword : IsCall word) (front : List Char) (hne : q ≠ [])
    (h : front ++ lowerAscii q = word) : '(' ∈ q := by
  obtain ⟨stem, rfl⟩ := hword
  obtain ⟨r, c, rfl⟩ := (List.eq_nil_or_concat q).resolve_left hne
  rw [List.concat_eq_append, lowerAscii, List.map_append, ← List.append_assoc] at h
  have hlast := List.append_inj_right' h rfl
  have hc : c.toLower = '(' := (List.cons.inj hlast).1
  rw [List.concat_eq_append, eq_openParen_of_toLower hc]
  exact List.mem_append_right r List.mem_cons_self

theorem Clear.dropAscii?_eq_none (h : Clear word p) (hword : IsCall word) (hparen : '(' ∉ p)
    (hq : q <:+ p) (hne : q ≠ []) (after : List Char) : dropAscii? word (q ++ after) = none := by
  refine Option.eq_none_iff_forall_ne_some.2 fun rest hrest => ?_
  obtain ⟨front, heq, hfront⟩ := dropAscii?_eq_some hrest
  rcases List.append_eq_append_iff.1 heq with ⟨more, rfl, -⟩ | ⟨more, rfl, -⟩
  · refine h.begins q ((List.mem_tails _ _).2 hq) hne ⟨lowerAscii more, ?_⟩
    rw [← hfront, lowerAscii, lowerAscii, lowerAscii, List.map_append]
  · have hne : front ≠ [] := by
      rintro rfl
      exact hword.ne_nil hfront.symm
    exact hparen (hq.mem (List.mem_append_left more (hword.mem [] hne hfront)))

theorem Clear.unreached (h : Clear word p) (hword : IsCall word) (hparen : '(' ∉ p)
    (after : List Char) : Unreached word (p ++ after) := by
  intro c cs
  cases hdrop : dropAscii? word (c :: cs) with
  | some rest =>
    obtain ⟨front, heq, hfront⟩ := dropAscii?_eq_some hdrop
    rw [← List.cons_append, heq, List.append_assoc, ← hfront, dropAscii?_lowerAscii]
    rfl
  | none =>
    refine Option.eq_none_iff_forall_ne_some.2 fun rest hrest => ?_
    obtain ⟨front, heq, hfront⟩ := dropAscii?_eq_some hrest
    rw [← List.cons_append] at heq
    rcases List.append_eq_append_iff.1 heq with ⟨more, rfl, hmore⟩ | ⟨more, hmore, -⟩
    · -- the word goes on behind the first text
      rw [lowerAscii, List.map_append, ← lowerAscii, ← lowerAscii] at hfront
      rcases List.append_eq_append_iff.1 hmore with ⟨past, rfl, -⟩ | ⟨past, rfl, -⟩
      · refine h.through ⟨lowerAscii (c :: cs), lowerAscii past, ?_⟩
        rw [← hfront, lowerAscii, lowerAscii, lowerAscii, lowerAscii, List.map_append,
          List.append_assoc]
      · by_cases hne : more = []
        · subst hne
          have hwhole : lowerAscii (c :: cs) = word := (List.append_nil _).symm.trans hfront
          have hself := dropAscii?_lowerAscii (c :: cs) []
          rw [hwhole, List.append_nil, hdrop] at hself
          cases hself
        · exact hparen (List.mem_append_left past (hword.mem _ hne hfront))
    · have hself := dropAscii?_lowerAscii front more
      rw [hfront, ← hmore, hdrop] at hself
      cases hself

end

/-! ### Addresses -/

section

variable {c : Char} {cs rest tail p front back : List Char}

theorem blankAddresses_cons_of_none (h : afterAddress? (c :: cs) = none) :
    blankAddresses (c :: cs) = c :: blankAddresses cs := by
  rw [blankAddresses]
  split
  · next heq =>
    rw [h] at heq
    cases heq
  · rfl

theorem blankAddresses_cons_of_some (h : afterAddress? (c :: cs) = some rest) :
    blankAddresses (c :: cs) = ' ' :: blankAddresses rest := by
  rw [blankAddresses]
  split
  · next heq =>
    obtain rfl := Option.some.inj (h.symm.trans heq)
    rfl
  · next heq =>
    rw [h] at heq
    cases heq

theorem afterAddress?_of_none (h : dropAscii? "url(".toList cs = none) :
    afterAddress? cs = none := by
  rw [afterAddress?, h]
  rfl

/-- An address is closed by the first parenthesis. -/
theorem afterAddress?_of_some {held : List Char} (h : dropAscii? "url(".toList cs = some rest)
    (hheld : ')' ∉ held) (hrest : rest = held ++ ')' :: tail) : afterAddress? cs = some tail := by
  have hall : ∀ d ∈ held, (d != ')') = true := by
    intro d hd
    rw [bne_iff_ne]
    rintro rfl
    exact hheld hd
  rw [afterAddress?, h, Option.bind_some, hrest, List.dropWhile_append_of_pos hall]
  rfl

theorem afterAddress?_of_not_mem (h : ')' ∉ cs) : afterAddress? cs = none := by
  cases hdrop : dropAscii? "url(".toList cs with
  | none => exact afterAddress?_of_none hdrop
  | some rest =>
    obtain ⟨word, rfl, -⟩ := dropAscii?_eq_some hdrop
    have hnil : rest.dropWhile (· != ')') = [] := by
      rw [List.dropWhile_eq_nil_iff]
      intro d hd
      rw [bne_iff_ne]
      rintro rfl
      exact h (List.mem_append_right word hd)
    rw [afterAddress?, hdrop, Option.bind_some, hnil]

/-- Where no parenthesis is closed there is no address. -/
theorem blankAddresses_of_not_mem (h : ')' ∉ cs) : blankAddresses cs = cs := by
  induction cs with
  | nil => rw [blankAddresses]
  | cons c cs ih =>
    rw [blankAddresses_cons_of_none (afterAddress?_of_not_mem h),
      ih fun hmem => h (List.mem_cons_of_mem c hmem)]

/-- No address is open at the end of a text, of which this is shown. -/
def ClosedAddresses (front shown : List Char) : Prop :=
  ∀ tail, Unreached "url(".toList tail →
    blankAddresses (front ++ tail) = shown ++ blankAddresses tail

/-- An address is open at the end of a text: the next parenthesis closes it, and if there is none
it is no address, and its text is shown. -/
structure OpenAddress (front shown held : List Char) : Prop where
  closed : ∀ left right, Unreached "url(".toList (left ++ ')' :: right) → ')' ∉ left →
    blankAddresses (front ++ (left ++ ')' :: right)) = shown ++ ' ' :: blankAddresses right
  unclosed : ∀ tail, Unreached "url(".toList tail → ')' ∉ tail →
    blankAddresses (front ++ tail) = shown ++ (held ++ tail)

/-- What stands before is shown as one character. -/
def ShowsFirst (front : List Char) (d : Char) (rest : List Char) : Prop :=
  ∀ tail, Unreached "url(".toList tail →
    blankAddresses (front ++ tail) = d :: blankAddresses (rest ++ tail)

theorem ShowsFirst.closedAddresses {d : Char} {shown : List Char} (h : ShowsFirst front d rest)
    (hrest : ClosedAddresses rest shown) : ClosedAddresses front (d :: shown) := by
  intro tail htail
  rw [h tail htail, hrest tail htail, List.cons_append]

theorem ShowsFirst.openAddress {d : Char} {shown held : List Char} (h : ShowsFirst front d rest)
    (hrest : OpenAddress rest shown held) : OpenAddress front (d :: shown) held where
  closed := by
    intro left right htail hleft
    rw [h _ htail, hrest.closed left right htail hleft, List.cons_append]
  unclosed := by
    intro tail htail hnot
    rw [h _ htail, hrest.unclosed tail htail hnot, List.cons_append]

theorem showsFirst_of_none (h : dropAscii? "url(".toList (c :: cs) = none) :
    ShowsFirst (c :: cs) c cs := by
  intro tail htail
  have hnone : dropAscii? "url(".toList (c :: (cs ++ tail)) = none := by
    rw [htail c cs, h, Option.map_none]
  rw [List.cons_append, blankAddresses_cons_of_none (afterAddress?_of_none hnone)]

theorem showsFirst_of_some {held : List Char}
    (h : dropAscii? "url(".toList (c :: cs) = some (held ++ ')' :: rest)) (hheld : ')' ∉ held) :
    ShowsFirst (c :: cs) ' ' rest := by
  intro tail htail
  have hsome : dropAscii? "url(".toList (c :: (cs ++ tail)) =
      some (held ++ ')' :: rest ++ tail) := by
    rw [htail c cs, h, Option.map_some]
  have hafter : afterAddress? (c :: (cs ++ tail)) = some (rest ++ tail) :=
    afterAddress?_of_some hsome hheld (by rw [List.append_assoc, List.cons_append])
  rw [List.cons_append, blankAddresses_cons_of_some hafter]

theorem openAddress_of_some (h : dropAscii? "url(".toList (c :: cs) = some rest)
    (hrest : ')' ∉ rest) : OpenAddress (c :: cs) [] (c :: cs) where
  closed := by
    intro left right htail hleft
    have hsome : dropAscii? "url(".toList (c :: (cs ++ (left ++ ')' :: right))) =
        some (rest ++ (left ++ ')' :: right)) := by
      rw [htail c cs, h, Option.map_some]
    have hnot : ')' ∉ rest ++ left := by
      rw [List.mem_append, not_or]
      exact ⟨hrest, hleft⟩
    have hafter := afterAddress?_of_some hsome hnot (by rw [List.append_assoc])
    rw [List.cons_append, blankAddresses_cons_of_some hafter, List.nil_append]
  unclosed := by
    intro tail htail hnot
    obtain ⟨word, heq, hword⟩ := dropAscii?_eq_some h
    have hparen : ')' ∉ word := by
      intro hmem
      have hlower : Char.toLower ')' ∈ lowerAscii word := List.mem_map_of_mem hmem
      rw [hword] at hlower
      exact absurd hlower (by decide)
    refine blankAddresses_of_not_mem ?_
    rw [heq, List.mem_append, List.mem_append, not_or, not_or]
    exact ⟨⟨hparen, hrest⟩, hnot⟩

/-- An address is open at the end of a text, or none is. -/
theorem closed_or_open (front : List Char) :
    (∃ shown, ClosedAddresses front shown) ∨ ∃ shown held, OpenAddress front shown held := by
  induction hn : front.length using Nat.strongRecOn generalizing front with
  | _ n ih =>
    -- it depends on what follows the first character or the first address
    have hstep {d : Char} {rest : List Char} (h : ShowsFirst front d rest)
        (hlength : rest.length < n) :
        (∃ shown, ClosedAddresses front shown) ∨ ∃ shown held, OpenAddress front shown held := by
      rcases ih rest.length hlength rest rfl with ⟨shown, hclosed⟩ | ⟨shown, held, hopen⟩
      · exact .inl ⟨_, h.closedAddresses hclosed⟩
      · exact .inr ⟨_, _, h.openAddress hopen⟩
    cases front with
    | nil => exact .inl ⟨[], fun _ _ => rfl⟩
    | cons c cs =>
      cases hdrop : dropAscii? "url(".toList (c :: cs) with
      | none => exact hstep (showsFirst_of_none hdrop) (hn ▸ Nat.lt_succ_self _)
      | some rest =>
        by_cases hclosed : ')' ∈ rest
        · obtain ⟨held, after, rfl, hheld⟩ := List.eq_append_cons_of_mem hclosed
          have hlength := length_dropAscii? hdrop
          rw [List.length_append, List.length_cons] at hlength
          exact hstep (showsFirst_of_some hdrop hheld) (by omega)
        · exact .inr ⟨[], c :: cs, openAddress_of_some hdrop hclosed⟩

end

/-! ### Tokens -/

/-- A text without blanks, parentheses and exclamation marks in which no reference and no address
takes part. -/
structure IsToken (p : List Char) : Prop where
  ne_nil : p ≠ []
  plain : ∀ c ∈ p, isBlank c = false ∧ c ∉ ['(', ')', '!']
  reference : Clear "var(".toList p
  address : Clear "url(".toList p

section

variable {p before after name : List Char}

theorem IsToken.not_mem (hp : IsToken p) {c : Char} (hc : c ∈ ['(', ')', '!']) : c ∉ p :=
  fun hmem => (hp.plain c hmem).2 hc

/-- The search for references passes over a token. -/
theorem IsToken.blankReferences_append (hp : IsToken p) (after : List Char) :
    blankReferences (p ++ after) = p ++ blankReferences after := by
  have hpass (q : List Char) (hq : q <:+ p) :
      blankReferences (q ++ after) = q ++ blankReferences after := by
    induction q with
    | nil => rfl
    | cons c q ih =>
      have hnone : reference? (c :: (q ++ after)) = none :=
        hp.reference.dropAscii?_eq_none ⟨"var".toList, rfl⟩ (hp.not_mem (by decide)) hq
          (List.cons_ne_nil c q) after
      rw [List.cons_append, blankReferences_cons_of_none hnone,
        ih ((List.suffix_cons c q).trans hq), List.cons_append]
  exact hpass p List.suffix_rfl

/-- The search for addresses passes over a token. -/
theorem IsToken.blankAddresses_append (hp : IsToken p) (after : List Char) :
    blankAddresses (p ++ after) = p ++ blankAddresses after := by
  have hpass (q : List Char) (hq : q <:+ p) :
      blankAddresses (q ++ after) = q ++ blankAddresses after := by
    induction q with
    | nil => rfl
    | cons c q ih =>
      have hnone : dropAscii? "url(".toList (c :: (q ++ after)) = none :=
        hp.address.dropAscii?_eq_none ⟨"url".toList, rfl⟩ (hp.not_mem (by decide)) hq
          (List.cons_ne_nil c q) after
      rw [List.cons_append, blankAddresses_cons_of_none (afterAddress?_of_none hnone),
        ih ((List.suffix_cons c q).trans hq), List.cons_append]
  exact hpass p List.suffix_rfl

theorem IsToken.inert (hp : IsToken p) : Inert p where
  unreached := hp.reference.unreached ⟨"var".toList, rfl⟩ (hp.not_mem (by decide))
  passed := hp.blankReferences_append
  balanced := by
    refine balanced_of_forall fun c hc => ⟨?_, ?_⟩
    · rintro rfl
      exact hp.not_mem (by decide) hc
    · rintro rfl
      exact hp.not_mem (by decide) hc

/-- A token outside addresses is seen, and a space in its place; in an address neither is. -/
theorem IsToken.blankAddresses_place (hp : IsToken p) (front back : List Char) :
    blankAddresses (front ++ (p ++ back)) = blankAddresses (front ++ ' ' :: back) ∨
      ∃ left right, blankAddresses (front ++ (p ++ back)) = left ++ (p ++ right) ∧
        blankAddresses (front ++ ' ' :: back) = left ++ ' ' :: right := by
  have htoken : Unreached "url(".toList (p ++ back) :=
    hp.address.unreached ⟨"url".toList, rfl⟩ (hp.not_mem (by decide)) back
  have hspace : Unreached "url(".toList (' ' :: back) :=
    Clear.unreached (p := [' ']) (by decide) ⟨"url".toList, rfl⟩ (by decide) back
  have hcons : blankAddresses (' ' :: back) = ' ' :: blankAddresses back :=
    blankAddresses_cons_of_none (afterAddress?_of_none rfl)
  rcases closed_or_open front with ⟨shown, hclosed⟩ | ⟨shown, held, hopen⟩
  · refine .inr ⟨shown, blankAddresses back, ?_, ?_⟩
    · rw [hclosed _ htoken, hp.blankAddresses_append]
    · rw [hclosed _ hspace, hcons]
  · have hparen : ')' ∉ p := hp.not_mem (by decide)
    by_cases hback : ')' ∈ back
    · obtain ⟨left, right, rfl, hleft⟩ := List.eq_append_cons_of_mem hback
      left
      rw [← List.append_assoc] at htoken
      rw [← List.append_assoc p left, hopen.closed _ right htoken (by simp [hparen, hleft]),
        ← List.cons_append, hopen.closed _ right hspace (by simp [hleft])]
    · refine .inr ⟨shown ++ held, back, ?_, ?_⟩
      · rw [hopen.unclosed _ htoken (by simp [hparen, hback]), List.append_assoc]
      · rw [hopen.unclosed _ hspace (by simp [hback]), List.append_assoc]

/-! ### A place before the flag -/

/-- A flag that begins in the first text goes on in the second. -/
def FlagAcross (before rest : List Char) : Prop :=
  ∃ left right, left ≠ [] ∧ right ≠ [] ∧ left <:+ before ∧ right <+: rest ∧ IsFlag (left ++ right)

/-- The first flag does not begin before a place and go on behind it. -/
def SparesFlag (before rest : List Char) : Prop :=
  ¬ SaysImportant before → ¬ FlagAcross before rest

theorem sparesFlag_of_not_mem (h : '!' ∉ before) (rest : List Char) : SparesFlag before rest := by
  rintro - ⟨left, right, hleft, -, hsuffix, -, hflag⟩
  obtain ⟨c, left, rfl⟩ := List.exists_cons_of_ne_nil hleft
  obtain ⟨tail, heq⟩ := hflag.exists_cons
  obtain rfl : c = '!' := (List.cons.inj heq).1
  exact h (hsuffix.mem List.mem_cons_self)

theorem splitAscii?_append_of_not_across {rest : List Char} (hbefore : ¬ SaysImportant before)
    (hacross : ¬ FlagAcross before rest) : splitAscii? "!important".toList (before ++ rest) =
      (splitAscii? "!important".toList rest).map fun r => (before ++ r.1, r.2) := by
  induction before with
  | nil => exact (congrFun Option.map_id _).symm
  | cons c before ih =>
    have hnone : dropAscii? "!important".toList (c :: (before ++ rest)) = none := by
      refine Option.eq_none_iff_forall_ne_some.2 fun back hback => ?_
      obtain ⟨word, heq, hword⟩ := dropAscii?_eq_some hback
      rw [← List.cons_append] at heq
      rcases List.append_eq_append_iff.1 heq with ⟨more, rfl, hmore⟩ | ⟨more, hmore, -⟩
      · by_cases hne : more = []
        · subst hne
          rw [List.append_nil] at hword
          exact hbefore ⟨c :: before, List.infix_rfl, hword⟩
        · exact hacross ⟨c :: before, more, List.cons_ne_nil c before, hne, List.suffix_rfl,
            ⟨back, hmore.symm⟩, hword⟩
      · exact hbefore ⟨word, ⟨[], more, hmore.symm⟩, hword⟩
    have hrest := ih (fun h => hbefore (h.mono (List.suffix_cons c before).isInfix)) (by
      rintro ⟨left, right, hleft, hright, hsuffix, hprefix, hflag⟩
      exact hacross ⟨left, right, hleft, hright, hsuffix.trans (List.suffix_cons c before), hprefix,
        hflag⟩)
    rw [splitAscii?] at hrest
    rw [List.cons_append, splitAscii?, splitBy?, hnone]
    dsimp only
    rw [hrest, Option.map_map]
    rfl

/-- Before the flag, a token stays where the flag is looked for behind it. -/
theorem IsToken.dropImportant_eq (hp : IsToken p) (hbefore : ¬ SaysImportant before)
    (hacross : ¬ FlagAcross before (p ++ after)) :
    dropImportant (before ++ (p ++ after)) = before ++ (p ++ dropImportant after) := by
  have hsplit : splitAscii? "!important".toList (before ++ p ++ after) =
      (splitAscii? "!important".toList after).map fun r => (before ++ p ++ r.1, r.2) := by
    rw [List.append_assoc, splitAscii?_append_of_not_across hbefore hacross,
      splitAscii?_append_of_not_mem (hp.not_mem (by decide)), Option.map_map]
    refine Option.map_congr fun r _ => ?_
    simp [Function.comp]
  have hlast : ∀ c ∈ (before ++ p).getLast?, isBlank c = false := by
    intro c hc
    rw [List.getLast?_append, List.getLast?_eq_some_getLast hp.ne_nil, Option.some_or] at hc
    exact (hp.plain c (Option.some.inj hc ▸ List.getLast_mem hp.ne_nil)).1
  rw [← List.append_assoc, dropImportant_append (List.append_ne_nil_of_right_ne_nil before hp.ne_nil)
    hlast hsplit, List.append_assoc]

/-! ### A place in a value -/

/-- The search sees the word between two texts, and a space there in place of a reference. -/
structure Shown (before word name after front back : List Char) : Prop where
  word : visible (before ++ (word ++ after)) = front ++ (word ++ back)
  reference : visible (referring before "var(".toList name after) = front ++ ' ' :: back

/-- **A reference in place of a token is seen as a space, or makes no difference.** -/
theorem IsToken.visible_eq_or_shown (hp : IsToken p) (hspares : SparesFlag before (p ++ after))
    (hbalanced : Balanced name) (hname : ¬ SaysImportant name) :
    visible (before ++ (p ++ after)) = visible (referring before "var(".toList name after) ∨
      ∃ front back, Shown before p name after front back := by
  by_cases hnot : SaysImportant before ∨ ¬ ∃ front, Seen before front
  · left
    rw [visible, visible, literalPart_eq_of_not_seen hnot hp.inert
      (fun hbefore => hp.dropImportant_eq hbefore (hspares hbefore)) hbalanced hname]
  obtain ⟨hbefore, hseen⟩ := not_or.1 hnot
  obtain ⟨front, hseen⟩ := not_not.1 hseen
  obtain ⟨hword, hreference⟩ := hseen.literalPart_eq hbefore hp.inert
    (hp.dropImportant_eq hbefore (hspares hbefore)) hbalanced hname
  rcases hp.blankAddresses_place front (literalPart after) with heq | ⟨left, right, hleft, hright⟩
  · left
    rw [visible, visible, hword, hreference, heq]
  · refine .inr ⟨left, right, ?_, ?_⟩
    · rw [visible, hword, hleft]
    · rw [visible, hreference, hright]

end

end Value
end SheetAudit
