import SheetAudit.Proofs.Escapes
import SheetAudit.Proofs.SelectorGrammar

/-!
# The weight of a written selector

A selector is weighed by reading its text, in which no parse tree is built: names and groups are
passed over, and the arguments of a pseudo-class are cut and collapsed before they are read in their
turn.  The weight is that of the tree that the text was written from.

The induction is on the tree.  Since arguments are collapsed with all that they hold, at every depth
again, it is about the texts with their blanks copied in any of the ways of `Spacing`.

## Main definitions

* `Ends` — a text does not go on with a name, an escape or an argument.
* `Weighs` — however its blanks are copied, a text adds its weight to what follows it.

## Main results

* `total_weigh_le` — the counts of a weight are together no more than the characters of the text.
* `Complex.bracketed` — the brackets of a written selector are closed.
* `Complex.weighs` — a written selector has the weight of its tree.
* `Complex.specificity_write` — **a selector is as specific as its ids, classes and elements make
  it, in a number that fits into 32 bits.**
-/

namespace SheetAudit
namespace Selector

open Text

/-! ### Steps of the weighing -/

/-- What a pseudo-class or pseudo-element adds to the weight. -/
def Pseudo.weight (p : Pseudo) : Weight :=
  if p.element || legacyPseudoElements.contains p.name then .ofElement
  else
    match p.arguments with
    | some inner =>
      if forwardingPseudoClasses.contains p.name then
        (selectors inner).foldl (fun w s => w.max (weigh s)) {}
      else if p.name == "where" then {} else .ofClass
    | none => if p.name == "where" then {} else .ofClass

theorem weigh_nil : weigh [] = 0 := by rw [weigh]; rfl

theorem weigh_hash (cs : List Char) : weigh ('#' :: cs) = .ofId + weigh (takeName cs).2 := by
  rw [weigh, if_pos (by rfl)]

theorem weigh_dot (cs : List Char) : weigh ('.' :: cs) = .ofClass + weigh (takeName cs).2 := by
  rw [weigh, if_neg (by decide), if_pos (by rfl)]

theorem weigh_square (cs : List Char) :
    weigh ('[' :: cs) = .ofClass + weigh (takeGroup '[' ']' 0 none cs).2 := by
  rw [weigh, if_neg (by decide), if_neg (by decide), if_pos (by rfl)]

theorem weigh_colon (cs : List Char) :
    weigh (':' :: cs) = (takePseudo cs).weight + weigh (takePseudo cs).rest := by
  have hattach (inner : List Char) :
      (selectors inner).attach.foldl (fun (w : Weight) s => w.max (weigh s.1)) {} =
        (selectors inner).foldl (fun w s => w.max (weigh s)) {} :=
    List.foldl_attach (f := fun (w : Weight) s => w.max (weigh s))
  rw [weigh, if_neg (by decide), if_neg (by decide), if_neg (by decide), if_pos (by rfl)]
  dsimp only
  simp only [hattach]
  rw [Pseudo.weight]
  cases (takePseudo cs).arguments <;> rfl

/-- A character that is passed over on its own. -/
def isSkipped (c : Char) : Bool :=
  !(c == '#' || c == '.' || c == '[' || c == ':' || isAlphabetic c || c == '_')

theorem weigh_skip {c : Char} (hc : isSkipped c = true) (cs : List Char) :
    weigh (c :: cs) = weigh cs := by
  simp only [isSkipped, Bool.not_eq_true', Bool.or_eq_false_iff] at hc
  obtain ⟨⟨⟨⟨⟨h₁, h₂⟩, h₃⟩, h₄⟩, h₅⟩, h₆⟩ := hc
  rw [weigh, h₁, h₂, h₃, h₄, h₅, h₆]
  simp

theorem weigh_skip_append {cs : List Char} (h : ∀ c ∈ cs, isSkipped c = true)
    (rest : List Char) : weigh (cs ++ rest) = weigh rest := by
  induction cs with
  | nil => rfl
  | cons c cs ih =>
    obtain ⟨hc, hcs⟩ := List.forall_mem_cons.1 h
    rw [List.cons_append, weigh_skip hc, ih hcs]

theorem weigh_letter {c : Char} (hc : isAlphabetic c = true ∨ c = '_') (cs : List Char) :
    weigh (c :: cs) = .ofElement + weigh (takeName cs).2 := by
  have hne {d : Char} (hd : isAlphabetic d = false) (hd' : d ≠ '_') : (c == d) = false := by
    refine beq_false_of_ne ?_
    rintro rfl
    rcases hc with hc | hc
    · rw [hd] at hc
      cases hc
    · exact hd' hc
  have hletter : (isAlphabetic c || c == '_') = true := by simpa using hc
  rw [weigh, hne (by decide) (by decide), hne (by decide) (by decide), hne (by decide) (by decide),
    hne (by decide) (by decide), hletter]
  rfl

/-! ### Pseudo-classes with their arguments -/

/-- A name with its arguments, if any; `element` tells whether two colons stand before it. -/
def takeCall (element : Bool) (cs : List Char) : Pseudo :=
  let (name, rest) := takeName cs
  let name := String.ofList (lowerAscii name)
  match rest with
  | '(' :: rest =>
    let (inner, rest) := takeGroup '(' ')' 0 none rest
    ⟨element, name, some inner, rest⟩
  | _ => ⟨element, name, none, rest⟩

theorem takePseudo_colon (cs : List Char) : takePseudo (':' :: cs) = takeCall true cs := by
  rw [takePseudo]
  rfl

theorem takePseudo_of_ne {c : Char} (hc : c ≠ ':') (cs : List Char) :
    takePseudo (c :: cs) = takeCall false (c :: cs) := by
  rw [takePseudo]
  · rfl
  · exact fun rest heq => hc (List.cons.inj heq).1

theorem takeCall_of_group {element : Bool} {cs name rest : List Char}
    (h : takeName cs = (name, '(' :: rest)) :
    takeCall element cs = ⟨element, String.ofList (lowerAscii name),
      some (takeGroup '(' ')' 0 none rest).1, (takeGroup '(' ')' 0 none rest).2⟩ := by
  rw [takeCall, h]
  rfl

theorem takeCall_of_not {element : Bool} {cs name rest : List Char}
    (h : takeName cs = (name, rest)) (hrest : ∀ c ∈ rest.head?, c ≠ '(') :
    takeCall element cs = ⟨element, String.ofList (lowerAscii name), none, rest⟩ := by
  rw [takeCall, h]
  dsimp only
  split
  · next rest' => exact absurd rfl (hrest '(' rfl)
  · rfl

/-! ### Bounds -/

/-- The counts of a weight together. -/
def Weight.total (w : Weight) : Nat := w.ids + w.classes + w.elements

theorem Weight.total_add (v w : Weight) : (v + w).total = v.total + w.total := by
  simp only [Weight.add_eq, Weight.total]
  omega

theorem Weight.score_le (w : Weight) : w.score ≤ 100 * w.total := by
  simp only [Weight.score, Weight.total]
  omega

theorem length_takeGroup_add (left right : Char) (depth : Nat) (quote : Option Char)
    (cs : List Char) : (takeGroup left right depth quote cs).1.length +
      (takeGroup left right depth quote cs).2.length ≤ cs.length := by
  induction cs generalizing depth quote with
  | nil => exact Nat.le_refl 0
  | cons c cs ih =>
    rw [takeGroup]
    split
    · simp
    · have hrest := ih (groupStep left right depth quote c).1 (groupStep left right depth quote c).2
      dsimp only
      split <;> simp only [List.length_cons, List.length_nil] <;> omega

theorem length_takeCall (element : Bool) (cs : List Char) :
    (takeCall element cs).rest.length +
      ((takeCall element cs).arguments.map List.length).getD 0 ≤ cs.length := by
  have hname := length_takeName cs
  by_cases hgroup : ∃ rest, (takeName cs).2 = '(' :: rest
  · obtain ⟨rest, heq⟩ := hgroup
    have hlength := length_takeGroup_add '(' ')' 0 none rest
    have hpair : takeName cs = ((takeName cs).1, '(' :: rest) := Prod.ext rfl heq
    rw [heq, List.length_cons] at hname
    rw [takeCall_of_group hpair, Option.map_some, Option.getD_some]
    dsimp only
    omega
  · have hhead : ∀ c ∈ (takeName cs).2.head?, c ≠ '(' := by
      rintro c hc rfl
      exact hgroup ⟨_, (List.cons_head?_tail hc).symm⟩
    rw [takeCall_of_not rfl hhead]
    exact hname

theorem length_arguments_add (cs : List Char) :
    (takePseudo cs).rest.length + ((takePseudo cs).arguments.map List.length).getD 0 ≤
      cs.length := by
  cases cs with
  | nil => exact Nat.le_refl 0
  | cons c cs =>
    by_cases hc : c = ':'
    · subst hc
      rw [takePseudo_colon]
      exact Nat.le_succ_of_le (length_takeCall true cs)
    · rw [takePseudo_of_ne hc]
      exact length_takeCall false (c :: cs)

theorem foldl_max_le {n : Nat} {f : List Char → Weight} {l : List (List Char)} {w : Weight}
    (hw : w.total ≤ n) (h : ∀ s ∈ l, (f s).total ≤ n) :
    (l.foldl (fun w s => w.max (f s)) w).total ≤ n := by
  induction l generalizing w with
  | nil => exact hw
  | cons s l ih =>
    obtain ⟨hs, hl⟩ := List.forall_mem_cons.1 h
    refine ih (w := w.max (f s)) ?_ hl
    rw [Weight.max]
    split
    · exact hs
    · exact hw

theorem Pseudo.total_weight_le {p : Pseudo}
    (h : ∀ inner ∈ p.arguments, ∀ s ∈ selectors inner, (weigh s).total ≤ inner.length) :
    p.weight.total ≤ 1 + (p.arguments.map List.length).getD 0 := by
  have hone {n : Nat} : (1 : Nat) ≤ 1 + n := Nat.le_add_right 1 n
  have hzero {n : Nat} : (0 : Nat) ≤ 1 + n := Nat.zero_le _
  rw [Pseudo.weight]
  split
  · exact hone
  split
  · next inner hinner =>
    split
    · rw [hinner, Option.map_some, Option.getD_some]
      exact foldl_max_le hzero fun s hs => Nat.le_add_left_of_le (h inner hinner s hs)
    · split
      · exact hzero
      · exact hone
  · split
    · exact hzero
    · exact hone

/-- The counts of a weight are together no more than the characters of the text. -/
theorem total_weigh_le (cs : List Char) : (weigh cs).total ≤ cs.length := by
  induction hn : cs.length using Nat.strongRecOn generalizing cs with
  | _ n ih =>
    subst hn
    cases cs with
    | nil => rw [weigh_nil]; exact Nat.le_refl 0
    | cons c cs =>
      have hname := length_takeName cs
      -- one more for what has been met
      have step {w : Weight} {rest : List Char} (hw : w.total ≤ 1)
          (hrest : rest.length ≤ cs.length) : (w + weigh rest).total ≤ (c :: cs).length := by
        have hih := ih rest.length (Nat.lt_succ_of_le hrest) rest rfl
        rw [Weight.total_add, List.length_cons]
        omega
      by_cases hhash : c = '#'
      · subst hhash
        rw [weigh_hash]
        exact step (Nat.le_refl 1) hname
      by_cases hdot : c = '.'
      · subst hdot
        rw [weigh_dot]
        exact step (Nat.le_refl 1) hname
      by_cases hsquare : c = '['
      · subst hsquare
        rw [weigh_square]
        exact step (Nat.le_refl 1) (length_takeGroup '[' ']' 0 none cs).2
      by_cases hcolon : c = ':'
      · subst hcolon
        have hlength := length_arguments_add cs
        have hrest := ih (takePseudo cs).rest.length (by simp only [List.length_cons]; omega) _ rfl
        have hown : (takePseudo cs).weight.total ≤
            1 + ((takePseudo cs).arguments.map List.length).getD 0 := by
          refine Pseudo.total_weight_le fun inner hinner s hs => ?_
          have hselector := length_of_mem_selectors hs
          have hargument : inner.length ≤ cs.length := (length_takePseudo cs).2 inner hinner
          have hweight := ih s.length (by simp only [List.length_cons]; omega) s rfl
          omega
        rw [weigh_colon, Weight.total_add, List.length_cons]
        omega
      by_cases hletter : isAlphabetic c = true ∨ c = '_'
      · rw [weigh_letter hletter]
        exact step (Nat.le_refl 1) hname
      · have hskip : isSkipped c = true := by
          simpa [isSkipped, hhash, hdot, hsquare, hcolon] using hletter
        rw [weigh_skip hskip]
        exact Nat.le_succ_of_le (ih cs.length (Nat.lt_succ_self _) cs rfl)

/-! ### Names, blanks and signs -/

/-- The quotes, the brackets and the comma. -/
def marks : List Char := ['"', '\'', '(', ')', '[', ']', ',']

theorem isPlain_of_not_mem_marks {c : Char} (h : c ∉ marks) : isPlain false c = true := by
  simp only [marks, List.mem_cons, List.not_mem_nil, or_false, not_or] at h
  simp [isPlain, isQuote, opens, closes, h]

theorem isPlain_of_isNameChar {c : Char} (hc : isNameChar c = true) : isPlain false c = true := by
  refine isPlain_of_not_mem_marks fun hmem => ?_
  simp only [marks, List.mem_cons, List.not_mem_nil, or_false] at hmem
  rcases hmem with rfl | rfl | rfl | rfl | rfl | rfl | rfl <;> exact absurd hc (by decide)

theorem isPlain_of_isCombinator {c : Char} (hc : isCombinator c = true) :
    isPlain false c = true := by
  refine isPlain_of_not_mem_marks fun hmem => ?_
  simp only [marks, List.mem_cons, List.not_mem_nil, or_false] at hmem
  rcases hmem with rfl | rfl | rfl | rfl | rfl | rfl | rfl <;> exact absurd hc (by decide)

theorem isNameChar_of_isAlphabetic {c : Char} (h : isAlphabetic c = true) :
    isNameChar c = true := by
  have halnum : isAlphanumeric c = true := by
    rw [isAlphanumeric]
    rw [isAlphabetic] at h
    split at h
    · next hascii => rw [if_pos hascii, Char.isAlphanum, h]; rfl
    · next hascii => rw [if_neg hascii, isAlphabetic, if_neg hascii, h]; rfl
  rw [isNameChar, halnum]
  rfl

theorem isNameChar_of_isCombinator {c : Char} (h : isCombinator c = true) :
    isNameChar c = false := by
  simp only [isCombinator, Bool.or_eq_true, beq_iff_eq] at h
  rcases h with ((hblank | rfl) | rfl) | rfl
  · refine Bool.eq_false_iff.2 fun hname => ?_
    rw [isBlank_of_isNameChar hname] at hblank
    cases hblank
  · decide
  · decide
  · decide

theorem isSkipped_of_isCombinator {c : Char} (h : isCombinator c = true) :
    isSkipped c = true := by
  have hletter : isAlphabetic c = false := Bool.eq_false_iff.2 fun halpha => by
    have hname := isNameChar_of_isAlphabetic halpha
    rw [isNameChar_of_isCombinator h] at hname
    cases hname
  have hne {d : Char} (hd : isCombinator d = false) : c ≠ d := by
    rintro rfl
    rw [h] at hd
    cases hd
  have hhash : c ≠ '#' := hne (by decide)
  have hdot : c ≠ '.' := hne (by decide)
  have hsquare : c ≠ '[' := hne (by decide)
  have hcolon : c ≠ ':' := hne (by decide)
  have hlow : c ≠ '_' := hne (by decide)
  simp [isSkipped, hhash, hdot, hsquare, hcolon, hlow, hletter]

theorem Combinator.isCombinator_of_mem (k : Combinator) : ∀ c ∈ k.chars, isCombinator c = true := by
  have hblank (b : Blanks) : ∀ c ∈ b.chars, isCombinator c = true := fun c hc => by
    rw [isCombinator, b.isBlank c hc]
    rfl
  cases k with
  | descendant gap _ => exact hblank gap
  | sign before c isSign after =>
    refine List.forall_mem_append.2 ⟨hblank before, List.forall_mem_cons.2 ⟨?_, hblank after⟩⟩
    rcases isSign with rfl | rfl | rfl <;> decide

theorem Combinator.chars_ne_nil (k : Combinator) : k.chars ≠ [] := by
  cases k with
  | descendant gap ne_nil => exact ne_nil
  | sign before c _ after => simp [Combinator.chars]

namespace Ident

theorem isNameChar_of_mem (n : Ident) : ∀ c ∈ n.chars, isNameChar c = true := by
  refine List.forall_mem_cons.2 ⟨isNameChar_of_plain (.inl ?_), n.isName⟩
  rw [Char.isAlphanum, n.isLetter]
  rfl

theorem isBlank_of_mem (n : Ident) : ∀ c ∈ n.chars, isBlank c = false := fun c hc =>
  isBlank_of_isNameChar (n.isNameChar_of_mem c hc)

theorem isAlphabetic_first (n : Ident) : isAlphabetic n.first = true := by
  have halnum : n.first.isAlphanum = true := by rw [Char.isAlphanum, n.isLetter]; rfl
  rw [isAlphabetic, if_pos (isAscii_of_isAlphanum halnum), n.isLetter]

end Ident

/-! ### Brackets of a written selector -/

theorem Ident.bracketed (n : Ident) : Bracketed false n.chars :=
  .of_forall fun c hc => isPlain_of_isNameChar (n.isNameChar_of_mem c hc)

theorem Plain.bracketed (p : Plain) : Bracketed true p.chars := .of_forall p.isPlain

theorem Attribute.bracketed (a : Attribute) : Bracketed true a.chars := by
  cases a with
  | bare text => exact text.bracketed
  | quoted name q hq value flags =>
    exact name.bracketed.append (.quoted hq value.isPlain flags.bracketed)

theorem Combinator.bracketed (k : Combinator) : Bracketed false k.chars :=
  .of_forall fun c hc => isPlain_of_isCombinator (k.isCombinator_of_mem c hc)

theorem bracketed_call (n : Ident) {inner : List Char} (h : Bracketed true inner) :
    Bracketed false (call n inner) :=
  .plain (by decide) (n.bracketed.append (.single (.inl ⟨rfl, rfl⟩) h))

theorem TypeName.bracketed (t : TypeName) : Bracketed false t.write := by
  cases t with
  | named n => exact n.bracketed
  | any => exact .plain (by decide) .nil

mutual

theorem Simple.bracketed : (s : Simple) → Bracketed false s.write
  | .id n => .plain (by decide) n.bracketed
  | .cls n => .plain (by decide) n.bracketed
  | .attr body => .single (.inr ⟨rfl, rfl⟩) body.bracketed
  | .pseudoClass n _ none => .plain (by decide) n.bracketed
  | .pseudoClass n _ (some argument) => bracketed_call n argument.bracketed
  | .pseudoElement n => .plain (by decide) (.plain (by decide) n.bracketed)
  | .legacyElement n _ => .plain (by decide) n.bracketed
  | .forwarding n _ arguments => bracketed_call n (bracketed_writeList arguments)
  | .weightless n _ arguments => bracketed_call n (bracketed_writeList arguments)

theorem bracketed_writeSimples : (l : List Simple) → Bracketed false (writeSimples l)
  | [] => .nil
  | s :: l => s.bracketed.append (bracketed_writeSimples l)

theorem Compound.bracketed : (c : Compound) → Bracketed false c.write
  | .mk none simples => bracketed_writeSimples simples
  | .mk (some type) simples => type.bracketed.append (bracketed_writeSimples simples)

theorem Complex.bracketed : (s : Complex) → Bracketed false s.write
  | .last c => c.bracketed
  | .join c k rest => c.bracketed.append (k.bracketed.append rest.bracketed)

theorem bracketed_writeList : (l : List Complex) → Bracketed true (writeList l)
  | [] => .nil
  | [s] => s.bracketed.commas
  | s :: t :: l => s.bracketed.commas.append (.plain (by decide) (bracketed_writeList (t :: l)))

end

/-! ### Texts that add their weight -/

/-- Neither part of a name nor an escape, and no argument begins with it. -/
def isEnd (c : Char) : Bool := !(isNameChar c || c == '\\' || c == '(')

/-- A text begins with no more of a name and with no argument. -/
def Ends (cs : List Char) : Prop := ∀ c ∈ cs.head?, isEnd c = true

theorem isEnd_of_isCombinator {c : Char} (h : isCombinator c = true) : isEnd c = true := by
  have hslash : c ≠ '\\' := by
    rintro rfl
    exact absurd h (by decide)
  have hparen : c ≠ '(' := by
    rintro rfl
    exact absurd h (by decide)
  simp [isEnd, isNameChar_of_isCombinator h, hslash, hparen]

theorem Ends.respace_due_append (cs : List Char) {rest : List Char} (h : Ends rest) :
    Ends (respace .due cs ++ rest) := by
  have hhead := head_respace_due cs
  cases hcs : respace .due cs with
  | nil => exact h
  | cons c ds =>
    rw [hcs] at hhead
    intro d hd
    obtain rfl := Option.some.inj hd
    exact isEnd_of_isCombinator (by rw [isCombinator, hhead c rfl]; rfl)

theorem Ends.respace_append {cs rest : List Char} (h : Ends cs) (hrest : Ends rest)
    (m : Spacing) : Ends (respace m cs ++ rest) := by
  cases cs with
  | nil => exact hrest
  | cons c cs =>
    cases hc : isBlank c with
    | true =>
      -- the space is due only before a character that follows the blanks
      rw [respace_cons_of_isBlank hc]
      cases m with
      | kept => exact h
      | tight => exact hrest.respace_due_append cs
      | due => exact hrest.respace_due_append cs
    | false =>
      rw [respace_cons_of_not hc]
      cases m with
      | kept => exact h
      | tight => exact h
      | due => exact fun d hd => Option.some.inj hd ▸ by decide

theorem takeName_of_head {rest : List Char}
    (h : ∀ c ∈ rest.head?, isNameChar c = false ∧ c ≠ '\\') : takeName rest = ([], rest) := by
  cases rest with
  | nil => rfl
  | cons c rest =>
    obtain ⟨hname, hslash⟩ := h c rfl
    rw [takeName]
    · exact if_neg (by simpa [isNameChar] using hname)
    · exact fun heq _ => hslash heq
    · exact fun d ds heq _ => hslash heq

/-- An identifier is read to its end. -/
theorem takeName_ident {cs rest : List Char} (hcs : ∀ c ∈ cs, isNameChar c = true)
    (h : ∀ c ∈ rest.head?, isNameChar c = false ∧ c ≠ '\\') :
    takeName (cs ++ rest) = (cs, rest) := by
  induction cs with
  | nil => exact takeName_of_head h
  | cons c cs ih =>
    obtain ⟨hc, hcs⟩ := List.forall_mem_cons.1 hcs
    rw [List.cons_append, takeName_cons hc, ih hcs]

theorem takeName_of_ends {cs rest : List Char} (hcs : ∀ c ∈ cs, isNameChar c = true)
    (h : Ends rest) : takeName (cs ++ rest) = (cs, rest) := by
  refine takeName_ident hcs fun c hc => ?_
  have hend := h c hc
  simp only [isEnd, Bool.not_eq_true', Bool.or_eq_false_iff, beq_eq_false_iff_ne] at hend
  exact hend.1

/-- However its blanks are copied, a text adds its weight to that of what follows it. -/
def Weighs (cs : List Char) (w : Weight) : Prop :=
  ∀ m rest, Ends rest → weigh (respace m cs ++ rest) = w + weigh rest

theorem weigh_lead_append (m : Spacing) (cs : List Char) : weigh (m.lead ++ cs) = weigh cs := by
  cases m with
  | due => exact weigh_skip (by decide) cs
  | kept => rfl
  | tight => rfl

namespace Weighs

theorem nil : Weighs [] 0 := fun _ _ _ => (Weight.zero_add _).symm

theorem append {cs ds : List Char} {v w : Weight} (h : Weighs cs v) (h' : Weighs ds w)
    (hds : Ends ds) : Weighs (cs ++ ds) (v + w) := by
  intro m rest hrest
  rw [respace_append, List.append_assoc, h _ _ (hds.respace_append hrest _), h' _ _ hrest,
    Weight.add_assoc]

/-- Characters that are passed over weigh nothing. -/
theorem skip_append {cs ds : List Char} {w : Weight} (h : ∀ c ∈ cs, isSkipped c = true)
    (h' : Weighs ds w) : Weighs (cs ++ ds) w := by
  intro m rest hrest
  rw [respace_append, List.append_assoc, weigh_skip_append, h' _ _ hrest]
  intro c hc
  rcases mem_respace hc with hc | rfl
  · exact h c hc
  · decide

/-- A text without blanks is copied as it is. -/
theorem of_word {c : Char} {cs : List Char} {w : Weight} (hc : isBlank c = false)
    (hcs : ∀ d ∈ cs, isBlank d = false)
    (h : ∀ rest, Ends rest → weigh (c :: (cs ++ rest)) = w + weigh rest) : Weighs (c :: cs) w := by
  intro m rest hrest
  have hrespace := respace_word_append hc hcs m []
  rw [List.append_nil] at hrespace
  rw [hrespace, respace, List.append_nil, List.append_assoc, weigh_lead_append]
  exact h rest hrest

/-- The collapsed text weighs the same. -/
theorem weigh_collapse {cs : List Char} {w : Weight} (h : Weighs cs w) :
    weigh (collapse cs) = w := by
  have hdue := h .due [] fun c hc => by cases hc
  rw [List.append_nil, weigh_nil, Weight.add_zero, respace_due] at hdue
  rw [collapse, ← hdue]
  cases words cs with
  | nil => rfl
  | cons v vs =>
    rw [flatMap_space]
    exact (weigh_skip (by decide) _).symm

end Weighs

/-! ### The arguments of a pseudo-class -/

theorem words_dropWhile (cs : List Char) : words (cs.dropWhile isBlank) = words cs := by
  have hall : ∀ c ∈ cs.takeWhile isBlank, isBlank c = true := fun c hc => List.mem_takeWhile_imp hc
  rw [← words_blank_append hall, List.takeWhile_append_dropWhile]

/-- A piece of a list is a selector unless it is blank. -/
def ofPiece? (piece : List Char) : Option (List Char) :=
  if words piece = [] then none else some (collapse piece)

theorem selectorOf?_eq (piece : List Char) :
    (selectorOf? id piece).map Prod.snd = ofPiece? piece := by
  have hwords : words (piece.dropWhile fun c => isBlank (id c)) = words piece :=
    words_dropWhile piece
  rw [selectorOf?, ofPiece?]
  cases hdrop : piece.dropWhile fun c => isBlank (id c) with
  | nil =>
    rw [hdrop] at hwords
    exact (if_pos hwords.symm).symm
  | cons c cs =>
    have hc : isBlank c = false := by
      have hhead := List.head?_dropWhile_not (fun c => isBlank (id c)) piece
      rw [hdrop] at hhead
      simpa using hhead
    rw [hdrop] at hwords
    rw [if_neg (hwords ▸ words_ne_nil hc cs)]
    simp [collapse, hwords]

theorem selectors_eq (text : List Char) :
    selectors text = (splitTop id 0 text).filterMap ofPiece? := by
  rw [selectors, entries, List.map_filterMap]
  exact congrArg (List.filterMap · _) (funext selectorOf?_eq)

/-- The greatest weight among some pieces, of which the blank ones weigh nothing. -/
theorem foldl_filterMap_ofPiece? (pieces : List (List Char)) (w : Weight) :
    (pieces.filterMap ofPiece?).foldl (fun w s => w.max (weigh s)) w =
      ((pieces.map collapse).map weigh).foldl max w := by
  induction pieces generalizing w with
  | nil => rfl
  | cons piece pieces ih =>
    rw [List.map_cons, List.map_cons, List.foldl_cons]
    by_cases hwords : words piece = []
    · have hzero : weigh (collapse piece) = 0 := by rw [collapse, hwords]; exact weigh_nil
      have hnone : ofPiece? piece = none := if_pos hwords
      rw [List.filterMap_cons_none hnone, hzero, max_eq_left (Weight.zero_le w)]
      exact ih w
    · have hsome : ofPiece? piece = some (collapse piece) := if_neg hwords
      rw [List.filterMap_cons_some hsome, List.foldl_cons, Weight.max_eq]
      exact ih _

/-- The pieces between the commas of a list of selectors are the selectors. -/
theorem map_collapse_splitTop (s : Complex) (l : List Complex) (m : Spacing) (space : List Char)
    (hspace : ∀ c ∈ space, c = ' ') :
    (splitTop id 0 (respace m (writeList (s :: l)) ++ space)).map collapse =
      (s :: l).map fun s => collapse s.write := by
  -- the space that is due behind a selector belongs to its piece
  have hcollapse (s : Complex) (m : Spacing) {space : List Char} (h : ∀ c ∈ space, c = ' ') :
      collapse (respace m s.write ++ space) = collapse s.write := by
    rw [collapse_append_blank fun c hc => h c hc ▸ by decide, collapse, words_respace, collapse]
  have hbracketed (s : Complex) (m : Spacing) {space : List Char} (h : ∀ c ∈ space, c = ' ') :
      Bracketed false (respace m s.write ++ space) :=
    (s.bracketed.respace m).append (.of_forall fun c hc => h c hc ▸ isPlain_space false)
  induction l generalizing s m with
  | nil =>
    rw [writeList, splitTop_eq_singleton (hbracketed s m hspace), List.map_singleton,
      hcollapse s m hspace, List.map_singleton]
  | cons t l ih =>
    have hlead {m : Spacing} : ∀ c ∈ m.lead, c = ' ' := fun _ => Spacing.eq_space_of_mem_lead
    rw [writeList, respace_append, respace_cons_of_not (by decide), ← List.append_assoc,
      List.append_assoc, List.cons_append, splitTop_comma (hbracketed s m hlead), List.map_cons,
      hcollapse s m hlead, ih t]
    rfl

theorem foldl_max_eq (l : List Complex) (w : Weight) :
    (l.map Complex.weight).foldl max w = max w (heaviest l) := by
  induction l generalizing w with
  | nil => exact (max_eq_left (Weight.zero_le w)).symm
  | cons s l ih => rw [List.map_cons, List.foldl_cons, ih, heaviest, max_assoc]

/-- The heaviest selector of a list is found however its blanks are copied. -/
theorem foldl_selectors_held {l : List Complex} (h : ∀ s ∈ l, Weighs s.write s.weight)
    (m : Spacing) :
    (selectors (held m (writeList l))).foldl (fun w s => w.max (weigh s)) {} = heaviest l := by
  cases l with
  | nil =>
    have hheld : held m (writeList []) = [] := by rw [held, writeList, respace]; exact m.lead_firm
    rw [hheld, heaviest]
    rfl
  | cons s l =>
    have hpieces := map_collapse_splitTop s l m.firm (m.firm.behind (writeList (s :: l))).lead
      fun _ => Spacing.eq_space_of_mem_lead
    have hweights : ((s :: l).map fun s => collapse s.write).map weigh =
        (s :: l).map Complex.weight := by
      rw [List.map_map]
      exact List.map_congr_left fun t ht => (h t ht).weigh_collapse
    rw [selectors_eq, foldl_filterMap_ofPiece?, held, hpieces, hweights, foldl_max_eq]
    exact max_eq_right (Weight.zero_le _)

/-! ### Pseudo-classes and pseudo-elements -/

namespace Pseudo

variable {name : String} {inner rest : List Char} {arguments : Option (List Char)}

theorem weight_legacy (h : name ∈ elementWords) :
    Pseudo.weight ⟨false, name, arguments, rest⟩ = ⟨0, 0, 1⟩ := by
  have hlegacy : legacyPseudoElements.contains name = true := List.contains_iff_mem.2 h
  rw [Pseudo.weight, hlegacy]
  rfl

theorem weight_ordinary (h : name ∉ "where" :: elementWords ++ forwardingWords) :
    Pseudo.weight ⟨false, name, arguments, rest⟩ = ⟨0, 1, 0⟩ := by
  simp only [List.cons_append, List.mem_cons, List.mem_append, not_or] at h
  obtain ⟨hwhere, hlegacy, hforwards⟩ := h
  have hlegacy : legacyPseudoElements.contains name = false :=
    Bool.eq_false_iff.2 fun hmem => hlegacy (List.contains_iff_mem.1 hmem)
  have hforwards : forwardingPseudoClasses.contains name = false :=
    Bool.eq_false_iff.2 fun hmem => hforwards (List.contains_iff_mem.1 hmem)
  have hwhere : (name == "where") = false := by simpa using hwhere
  cases arguments with
  | none =>
    simp only [Pseudo.weight, hlegacy, hwhere]
    rfl
  | some inner =>
    simp only [Pseudo.weight, hlegacy, hforwards, hwhere]
    rfl

theorem weight_forwarding (h : name ∈ forwardingWords) :
    Pseudo.weight ⟨false, name, some inner, rest⟩ =
      (selectors inner).foldl (fun w s => w.max (weigh s)) {} := by
  have hforwards : forwardingPseudoClasses.contains name = true := List.contains_iff_mem.2 h
  have hlegacy : legacyPseudoElements.contains name = false := by
    simp only [forwardingWords, List.mem_cons, List.not_mem_nil, or_false] at h
    rcases h with rfl | rfl | rfl | rfl <;> decide
  simp only [Pseudo.weight, hlegacy, hforwards]
  rfl

theorem weight_where : Pseudo.weight ⟨false, "where", arguments, rest⟩ = 0 := by
  have hlegacy : legacyPseudoElements.contains "where" = false := by decide
  have hforwards : forwardingPseudoClasses.contains "where" = false := by decide
  cases arguments with
  | none =>
    simp only [Pseudo.weight, hlegacy]
    rfl
  | some inner =>
    simp only [Pseudo.weight, hlegacy, hforwards]
    rfl

end Pseudo

theorem Ident.takePseudo_append (n : Ident) (rest : List Char) :
    takePseudo (n.chars ++ rest) = takeCall false (n.chars ++ rest) := by
  refine takePseudo_of_ne (fun hcolon => ?_) (n.others ++ rest)
  have hletter := n.isLetter
  rw [hcolon] at hletter
  cases hletter

theorem Ident.takeCall_append (n : Ident) (element : Bool) {rest : List Char} (h : Ends rest) :
    takeCall element (n.chars ++ rest) = ⟨element, n.word, none, rest⟩ := by
  refine takeCall_of_not (takeName_of_ends n.isNameChar_of_mem h) ?_
  rintro c hc rfl
  exact absurd (h '(' hc) (by decide)

theorem Ident.takeCall_group (n : Ident) (element : Bool) {inner : List Char}
    (h : Bracketed true inner) (rest : List Char) :
    takeCall element (n.chars ++ '(' :: (inner ++ ')' :: rest)) =
      ⟨element, n.word, some inner, rest⟩ := by
  have hname : takeName (n.chars ++ '(' :: (inner ++ ')' :: rest)) =
      (n.chars, '(' :: (inner ++ ')' :: rest)) :=
    takeName_ident n.isNameChar_of_mem fun c hc => Option.some.inj hc ▸ by decide
  rw [takeCall_of_group hname, takeGroup_group (.inl ⟨rfl, rfl⟩) h]
  rfl

/-! ### The weight of a written selector -/

namespace Weighs

theorem id (n : Ident) : Weighs ('#' :: n.chars) ⟨1, 0, 0⟩ :=
  .of_word (by decide) n.isBlank_of_mem fun rest hrest => by
    rw [weigh_hash, takeName_of_ends n.isNameChar_of_mem hrest]
    rfl

theorem cls (n : Ident) : Weighs ('.' :: n.chars) ⟨0, 1, 0⟩ :=
  .of_word (by decide) n.isBlank_of_mem fun rest hrest => by
    rw [weigh_dot, takeName_of_ends n.isNameChar_of_mem hrest]
    rfl

theorem typeName (t : TypeName) : Weighs t.write t.weight := by
  cases t with
  | named n =>
    obtain ⟨hfirst, hothers⟩ := List.forall_mem_cons.1 n.isBlank_of_mem
    refine .of_word hfirst hothers fun rest hrest => ?_
    rw [weigh_letter (.inl n.isAlphabetic_first), takeName_of_ends n.isName hrest]
    rfl
  | any =>
    refine .of_word (by decide) (fun d hd => by cases hd) fun rest _ => ?_
    exact (weigh_skip (by decide) _).trans (Weight.zero_add _).symm

theorem attr (a : Attribute) : Weighs ('[' :: (a.chars ++ [']'])) ⟨0, 1, 0⟩ := by
  intro m rest _
  have hpair : IsPair '[' ']' := .inr ⟨rfl, rfl⟩
  have hgroup := takeGroup_group hpair (a.bracketed.held m) rest
  have hcopy : respace m ('[' :: (a.chars ++ [']'])) ++ rest =
      m.lead ++ '[' :: (held m a.chars ++ ']' :: rest) := by
    rw [respace_group (by decide) (by decide), respace]
    simp
  rw [hcopy, weigh_lead_append, weigh_square, hgroup]
  rfl

theorem pseudoElement (n : Ident) : Weighs (':' :: ':' :: n.chars) ⟨0, 0, 1⟩ :=
  .of_word (by decide) (List.forall_mem_cons.2 ⟨by decide, n.isBlank_of_mem⟩) fun rest hrest => by
    rw [List.cons_append, weigh_colon, takePseudo_colon, n.takeCall_append true hrest]
    rfl

/-- A pseudo-class without arguments, or a pseudo-element with one colon. -/
theorem bare (n : Ident) {w : Weight}
    (h : ∀ rest, Pseudo.weight ⟨false, n.word, none, rest⟩ = w) : Weighs (':' :: n.chars) w :=
  .of_word (by decide) n.isBlank_of_mem fun rest hrest => by
    rw [weigh_colon, n.takePseudo_append, n.takeCall_append false hrest, h]

theorem call (n : Ident) {inner : List Char} {w : Weight} (hinner : Bracketed true inner)
    (h : ∀ m rest, Pseudo.weight ⟨false, n.word, some (held m inner), rest⟩ = w) :
    Weighs (call n inner) w := by
  intro m rest _
  have hcopy : respace m (Selector.call n inner) ++ rest =
      m.lead ++ ':' :: (n.chars ++ '(' :: (held m.firm inner ++ ')' :: rest)) := by
    have hword := respace_word_append (by decide : isBlank ':' = false) n.isBlank_of_mem m
      ('(' :: (inner ++ [')']))
    rw [Selector.call, ← List.cons_append, hword, respace_group (by decide) (by decide), respace,
      Spacing.lead_firm]
    simp
  rw [hcopy, weigh_lead_append, weigh_colon, n.takePseudo_append,
    n.takeCall_group false (hinner.held _), h]

end Weighs

theorem Simple.ends (s : Simple) (rest : List Char) : Ends (s.write ++ rest) := by
  have hhead {c : Char} (h : isEnd c = true) (cs : List Char) : Ends (c :: cs) :=
    fun d hd => Option.some.inj hd ▸ h
  match s with
  | .id _ => exact hhead (by decide) _
  | .cls _ => exact hhead (by decide) _
  | .attr _ => exact hhead (by decide) _
  | .pseudoClass _ _ none => exact hhead (by decide) _
  | .pseudoClass _ _ (some _) => exact hhead (by decide) _
  | .pseudoElement _ => exact hhead (by decide) _
  | .legacyElement _ _ => exact hhead (by decide) _
  | .forwarding _ _ _ => exact hhead (by decide) _
  | .weightless _ _ _ => exact hhead (by decide) _

theorem ends_writeSimples (l : List Simple) : Ends (writeSimples l) := by
  cases l with
  | nil => exact fun c hc => by cases hc
  | cons s l => exact s.ends _

theorem Combinator.ends (k : Combinator) (rest : List Char) : Ends (k.chars ++ rest) := by
  obtain ⟨c, cs, hk⟩ := List.exists_cons_of_ne_nil k.chars_ne_nil
  have hc : isCombinator c = true := k.isCombinator_of_mem c (hk ▸ List.mem_cons_self)
  rw [hk]
  exact fun d hd => Option.some.inj hd ▸ isEnd_of_isCombinator hc

/-! The induction is on the tree.  The arguments of a pseudo-class have been collapsed by the time
that they are weighed, so that it needs `Weighs` of them, not only the weight of their text. -/

mutual

theorem Simple.weighs : (s : Simple) → Weighs s.write s.weight
  | .id n => .id n
  | .cls n => .cls n
  | .attr body => .attr body
  | .pseudoClass n ordinary none => .bare n fun _ => Pseudo.weight_ordinary ordinary
  | .pseudoClass n ordinary (some argument) =>
    .call n argument.bracketed fun _ _ => Pseudo.weight_ordinary ordinary
  | .pseudoElement n => .pseudoElement n
  | .legacyElement n legacy => .bare n fun _ => Pseudo.weight_legacy legacy
  | .forwarding n forwards arguments =>
    .call n (bracketed_writeList arguments) fun m _ =>
      (Pseudo.weight_forwarding forwards).trans
        (foldl_selectors_held (weighs_of_mem arguments) m)
  | .weightless n isWhere arguments =>
    .call n (bracketed_writeList arguments) fun _ _ => isWhere ▸ Pseudo.weight_where

theorem weighs_writeSimples : (l : List Simple) → Weighs (writeSimples l) (weightSimples l)
  | [] => .nil
  | s :: l => s.weighs.append (weighs_writeSimples l) (ends_writeSimples l)

theorem Compound.weighs : (c : Compound) → Weighs c.write c.weight
  | .mk none simples => weighs_writeSimples simples
  | .mk (some type) simples =>
    (Weighs.typeName type).append (weighs_writeSimples simples) (ends_writeSimples simples)

/-- However its blanks are copied, a written selector adds the weight of its tree. -/
theorem Complex.weighs : (s : Complex) → Weighs s.write s.weight
  | .last c => c.weighs
  | .join c k rest =>
    c.weighs.append (.skip_append (fun d hd => isSkipped_of_isCombinator (k.isCombinator_of_mem d hd))
      rest.weighs) (k.ends rest.write)

theorem weighs_of_mem : (l : List Complex) → ∀ s ∈ l, Weighs s.write s.weight
  | [] => fun _ hs => absurd hs List.not_mem_nil
  | s :: l => List.forall_mem_cons.2 ⟨s.weighs, weighs_of_mem l⟩

end

/-- **A selector is as specific as the ids, the classes and the elements of its tree make it**, in
a number that fits into 32 bits unless the text has more than forty-two million characters. -/
theorem Complex.specificity_write (s : Complex) :
    specificity s.write = 100 * s.weight.ids + 10 * s.weight.classes + s.weight.elements ∧
      (s.write.length ≤ 42949672 → specificity s.write < 2 ^ 32) := by
  have hweigh : weigh s.write = s.weight := by
    have hkept := s.weighs .kept [] fun c hc => by cases hc
    rwa [respace_kept, List.append_nil, weigh_nil, Weight.add_zero] at hkept
  constructor
  · rw [specificity, hweigh, Weight.score]
    omega
  · intro hlength
    have htotal := total_weigh_le s.write
    have hscore := (weigh s.write).score_le
    rw [specificity]
    omega

/-- The heavier argument counts, and blanks between arguments do not matter. -/
theorem Complex.specificity_write_of_nested :
    ∃ s : Complex, s.write = "a:Not(#b ,.c>d)::e".toList ∧ s.weight = ⟨1, 0, 2⟩ ∧
      specificity s.write = 102 ∧ specificity s.write < 2 ^ 32 := by
  let ident (c : Char) (h : c.isAlpha = true) : Ident := ⟨c, [], h, fun d hd => by cases hd⟩
  let not : Ident := ⟨'N', ['o', 't'], rfl,
    List.forall_mem_cons.2 ⟨by decide, fun d hd => List.mem_singleton.1 hd ▸ by decide⟩⟩
  let empty : Blanks := ⟨[], fun d hd => by cases hd⟩
  let space : Blanks := ⟨[' '], fun d hd => List.mem_singleton.1 hd ▸ by decide⟩
  let nothing : Complex := .last (.mk none [])
  let first : Complex :=
    .join (.mk none [.id (ident 'b' rfl)]) (.descendant space (List.cons_ne_nil _ _)) nothing
  let second : Complex :=
    .join (.mk none [.cls (ident 'c' rfl)]) (.sign empty '>' (.inl rfl) empty)
      (.last (.mk (some (.named (ident 'd' rfl))) []))
  let s : Complex :=
    .last (.mk (some (.named (ident 'a' rfl)))
      [.forwarding not (by decide) [first, second], .pseudoElement (ident 'e' rfl)])
  have hweight : s.weight = ⟨1, 0, 2⟩ := by decide
  have hspecificity := (Complex.specificity_write s).1
  rw [hweight] at hspecificity
  exact ⟨s, by decide, hweight, hspecificity, (Complex.specificity_write s).2 (by decide)⟩

end Selector
end SheetAudit
