import SheetAudit.Proofs.ColorFixes
import SheetAudit.Proofs.Judgement

/-!
# What is recognised as a color

Three parts of the audit recognise colors.  A value that contrast is computed from is one color, as
is a value that makes a custom property a color; literal colors are searched for anywhere in a
value.  The first two look at the value without its flag and the blanks around it, in small letters,
and the search at the value with its references and addresses taken out.  What the first two accept
begins with digits, the name of a function or a name, which the search gets to see: no reference and
no address begins there.

## Main definitions

* `IsPassed` — the searches for references and for addresses pass over a text.
* `IsRecognised` — hex digits behind hashes, a color function whatever its arguments, or a name.
* `Finds` — one of the literal colors of a value stands in a text.

## Main results

* `colorFunction?_lowerAscii` — the names of color functions are read without regard to case.
* `isRecognised_of_parse?`, `isRecognised_of_isColor` — a value that is a color, in either sense, is
  recognised by its spelling.
* `IsRecognised.finds` — a literal color is found in a text that is recognised.
* `Theming.recognised_colors_found` — **every value that is a color, in either sense, is reported
  where it should be a reference.**
-/

namespace SheetAudit
namespace Value

open Text
open Offsets (toLower_cases blankReferences_cons_of_none)

/-! ### Letter case -/

section

variable {c : Char} {cs word : List Char}

theorem toLower_toLower (c : Char) : c.toLower.toLower = c.toLower :=
  List.singleton_inj.1 (lowerAscii_lowerAscii [c])

theorem folds_toLower (letter c : Char) : folds letter c.toLower = folds letter c := by
  rcases toLower_cases c with hsame | ⟨hcapital, hlower⟩
  · rw [hsame]
  · have hne {d : Char} (hd : 128 ≤ d.toNat) : (c == d) = false ∧ (c.toLower == d) = false := by
      constructor <;> refine beq_false_of_ne fun heq => ?_
      · rw [heq] at hcapital
        omega
      · rw [heq] at hlower
        omega
    have hs := hne (d := '\u017f') (by decide)
    have hk := hne (d := '\u212a') (by decide)
    rw [folds, folds, toLower_toLower, hs.1, hs.2, hk.1, hk.2]

theorem dropFolded?_lowerAscii (word cs : List Char) :
    dropFolded? word (lowerAscii cs) = (dropFolded? word cs).map lowerAscii := by
  fun_induction dropFolded? word cs with
  | case1 cs => cases cs <;> rfl
  | case2 w word => rfl
  | case3 w word c cs hfolds ih =>
    change dropFolded? (w :: word) (c.toLower :: lowerAscii cs) = _
    rw [dropFolded?, folds_toLower, if_pos hfolds, ih]
  | case4 w word c cs hfolds =>
    change dropFolded? (w :: word) (c.toLower :: lowerAscii cs) = _
    rw [dropFolded?, folds_toLower, if_neg hfolds]
    rfl

theorem head?_lowerAscii_eq_paren (cs : List Char) :
    (lowerAscii cs).head? = some '(' ↔ cs.head? = some '(' := by
  rw [lowerAscii, List.head?_map, Option.map_eq_some_iff]
  constructor
  · rintro ⟨c, hc, hparen⟩
    rw [hc, eq_of_toLower hparen (by decide)]
  · exact fun h => ⟨'(', h, rfl⟩

theorem afterName_lowerAscii (cs : List Char) :
    afterName (lowerAscii cs) = lowerAscii (afterName cs) := by
  rw [afterName, afterName, dropFolded?_lowerAscii]
  cases dropFolded? ['a'] cs <;> rfl

theorem called?_lowerAscii (word cs : List Char) :
    called? word (lowerAscii cs) = called? word cs := by
  refine Option.ext fun l => ?_
  have hlength (ds : List Char) : (lowerAscii ds).length = ds.length := List.length_map _
  have htake (n : Nat) : (lowerAscii cs).take n = lowerAscii (cs.take n) := List.map_take.symm
  rw [called?_eq_some_iff, called?_eq_some_iff, dropFolded?_lowerAscii]
  simp only [Option.map_eq_some_iff, exists_exists_and_eq_and, afterName_lowerAscii,
    dropWhile_isBlank_lowerAscii, head?_lowerAscii_eq_paren, hlength, htake, lowerAscii_lowerAscii]

/-- The names of color functions are read without regard to case. -/
theorem colorFunction?_lowerAscii (cs : List Char) :
    colorFunction? (lowerAscii cs) = colorFunction? cs := by
  rw [colorFunction?_eq, colorFunction?_eq, called?_lowerAscii, called?_lowerAscii]

/-- The name of a color function stands at the start, and a parenthesis behind it. -/
theorem exists_append_of_colorFunction? {l : String} (h : colorFunction? cs = some l) :
    ∃ name blank rest, cs = name ++ (blank ++ '(' :: rest) ∧ Blanks blank ∧
      l = String.ofList (lowerAscii name) := by
  have hcalled {word : List Char} (h : called? word cs = some l) :
      ∃ name blank rest, cs = name ++ (blank ++ '(' :: rest) ∧ Blanks blank ∧
        l = String.ofList (lowerAscii name) := by
    obtain ⟨front, a, blank, rest, hcs, hblank, hl, -⟩ := exists_append_of_called? h
    exact ⟨front ++ a, blank, rest, hcs, hblank, hl⟩
  rw [colorFunction?_eq] at h
  cases hrgb : called? "rgb".toList cs with
  | some l' =>
    rw [hrgb] at h
    obtain rfl : l' = l := Option.some.inj h
    exact hcalled hrgb
  | none =>
    rw [hrgb] at h
    exact hcalled (h : called? "hsl".toList cs = some l)

end

/-! ### Texts that are passed over -/

section

variable {p q rest value word : List Char}

/-- The searches for references and for addresses pass over the text, whatever follows it. -/
structure IsPassed (p : List Char) : Prop where
  references : ∀ rest, blankReferences (p ++ rest) = p ++ blankReferences rest
  addresses : ∀ rest, blankAddresses (p ++ rest) = p ++ blankAddresses rest

theorem IsPassed.append (hp : IsPassed p) (hq : IsPassed q) : IsPassed (p ++ q) where
  references rest := by
    rw [List.append_assoc, hp.references, hq.references, List.append_assoc]
  addresses rest := by
    rw [List.append_assoc, hp.addresses, hq.addresses, List.append_assoc]

/-- References begin with a `v`, and addresses with a `u`. -/
theorem isPassed_of_forall (h : ∀ c ∈ p, c.toLower ≠ 'v' ∧ c.toLower ≠ 'u') : IsPassed p := by
  induction p with
  | nil => exact ⟨fun _ => rfl, fun _ => rfl⟩
  | cons c p ih =>
    obtain ⟨⟨hv, hu⟩, hp⟩ := List.forall_mem_cons.1 h
    have hdrop {d : Char} {ds : List Char} (hd : c.toLower ≠ d) (rest : List Char) :
        dropAscii? (d :: ds) (c :: rest) = none := by
      rw [dropAscii?, if_neg (by simpa using hd)]
    constructor <;> intro rest
    · have hnone : reference? (c :: (p ++ rest)) = none := hdrop hv _
      rw [List.cons_append, blankReferences_cons_of_none hnone, (ih hp).references,
        List.cons_append]
    · have hnone : afterAddress? (c :: (p ++ rest)) = none := afterAddress?_of_none (hdrop hu _)
      rw [List.cons_append, blankAddresses_cons_of_none hnone, (ih hp).addresses,
        List.cons_append]

theorem isPassed_of_blanks (h : Blanks p) : IsPassed p :=
  isPassed_of_forall fun c hc => by
    have hnot : c.toLower ∉ ['v', 'u'] := toLower_not_mem_of_isBlank (by decide) (h c hc)
    simpa using hnot

theorem clear_of_lowerAscii (h : Clear word (lowerAscii p)) : Clear word p where
  begins := by
    intro q hq hne
    have htail : lowerAscii q ∈ (lowerAscii p).tails :=
      (List.mem_tails _ _).2 (((List.mem_tails _ _).1 hq).map Char.toLower)
    have hlower : lowerAscii q ≠ [] := by simpa [lowerAscii] using hne
    have hbegins := h.begins _ htail hlower
    rwa [lowerAscii_lowerAscii] at hbegins
  through := by
    have hthrough := h.through
    rwa [lowerAscii_lowerAscii] at hthrough

/-- Tokens are tokens in any letter case. -/
theorem isToken_of_lowerAscii (h : IsToken (lowerAscii p)) : IsToken p where
  ne_nil := by simpa [lowerAscii] using h.ne_nil
  plain := by
    intro c hc
    obtain ⟨hblank, hmark⟩ := h.plain c.toLower (List.mem_map_of_mem hc)
    rw [isBlank_toLower] at hblank
    refine ⟨hblank, fun hin => hmark ?_⟩
    simp only [List.mem_cons, List.not_mem_nil, or_false] at hin
    rcases hin with rfl | rfl | rfl <;> decide
  reference := clear_of_lowerAscii h.reference
  address := clear_of_lowerAscii h.address

theorem IsToken.isPassed (h : IsToken p) : IsPassed p :=
  ⟨h.blankReferences_append, h.blankAddresses_append⟩

/-- What is passed over at the start of a value, without its flag, is seen. -/
theorem IsPassed.visible_eq (hp : IsPassed p) (h : dropImportant value = p ++ rest) :
    visible value = p ++ blankAddresses (blankReferences rest) := by
  rw [visible, literalPart, h, hp.references, hp.addresses]

theorem IsPassed.visible_eq_self (hp : IsPassed p) (h : dropImportant value = p) :
    visible value = p := by
  have hvalue : dropImportant value = p ++ [] := by rw [h, List.append_nil]
  rw [hp.visible_eq hvalue, blankReferences, blankAddresses, List.append_nil]

end

/-! ### Colors behind other text -/

section

variable {left cs ds : List Char}

theorem hexColors_subset_append (hds : endsWord ds = true) :
    hexColors ds ⊆ colorsIn (cs ++ ds) := by
  intro l hl
  rw [colorsIn, hexColors_append hds]
  exact List.mem_append_left _ (List.mem_append_right _ hl)

theorem colorsIn_subset_blanks_append (h : Blanks left) (cs : List Char) :
    colorsIn cs ⊆ colorsIn (left ++ cs) := by
  rcases List.eq_nil_or_concat left with rfl | ⟨front, s, rfl⟩
  · exact List.Subset.refl _
  · have hs : isBlank s = true := h s (by simp)
    rw [List.concat_eq_append, List.append_assoc, List.singleton_append]
    exact colorsIn_subset_append_cons (isColorChar_of_isBlank hs) front cs

end

/-! ### Spellings that are recognised -/

/-- What the recognisers accept: hex digits behind one hash or more, a color function whatever its
arguments are, or the name of a color. -/
inductive IsRecognised : List Char → Prop where
  | hex {hashes digits : List Char} (hash : ∀ c ∈ hashes, c = '#')
      (digit : ∀ d ∈ digits, isHexDigit d = true) (least : 3 ≤ digits.length)
      (most : digits.length ≤ 8) : IsRecognised (hashes ++ '#' :: digits)
  | function {text : List Char} {l : String} (name : colorFunction? text = some l) :
      IsRecognised text
  | named {text : List Char} (name : (Color.named? text).isSome = true) : IsRecognised text

section

variable {left text right digits value : List Char} {l : String}

/-- One of the literal colors of the value stands in the text. -/
def Finds (value text : List Char) : Prop :=
  ∃ l ∈ colors value, lowerAscii l.toList <:+: lowerAscii text

/-! ### Hex digits -/

theorem toLower_of_isHexDigit {d : Char} (h : isHexDigit d = true) :
    d.toLower ≠ 'v' ∧ d.toLower ≠ 'u' := by
  have hle := toLower_le_of_isHexDigit h
  constructor <;> intro heq <;> rw [heq] at hle <;> exact absurd hle (by decide)

/-- Hex digits are found behind the last of their hashes. -/
theorem finds_hex {hashes : List Char} (hleft : Blanks left) (hright : Blanks right)
    (h : dropImportant value = left ++ (hashes ++ '#' :: digits ++ right))
    (hhash : ∀ c ∈ hashes, c = '#') (hdigits : ∀ d ∈ digits, isHexDigit d = true)
    (hleast : 3 ≤ digits.length) (hmost : digits.length ≤ 8) :
    Finds value (hashes ++ '#' :: digits) := by
  have hends : endsWord right = true := by
    cases right with
    | nil => rfl
    | cons c right =>
      have hc := isColorChar_of_isBlank (hright c List.mem_cons_self)
      exact (interrupts_cons hc right).endsWord
  have hpassed : IsPassed (left ++ (hashes ++ '#' :: digits ++ right)) := by
    refine (isPassed_of_blanks hleft).append (.append ?_ (isPassed_of_blanks hright))
    refine isPassed_of_forall fun c hc => ?_
    rcases List.mem_append.1 hc with hc | hc
    · rw [hhash c hc]
      decide
    · rcases List.mem_cons.1 hc with rfl | hc
      · decide
      · exact toLower_of_isHexDigit (hdigits c hc)
  have hfound : String.ofList ('#' :: digits) ∈ hexColors ('#' :: digits ++ right) := by
    have htake : takeHex? ('#' :: (digits ++ right)) = some ('#' :: digits, right) :=
      takeHex?_eq_some_iff.2 ⟨digits, rfl, rfl, hdigits, hleast, hmost, hends⟩
    rw [List.cons_append, hexColors, cutHex_cons_of_some htake]
    exact List.mem_cons_self
  refine ⟨String.ofList ('#' :: digits), ?_, ?_⟩
  · rw [colors_eq, hpassed.visible_eq_self h, List.append_assoc]
    refine colorsIn_subset_blanks_append hleft _ (hexColors_subset_append ?_ hfound)
    rfl
  · rw [String.toList_ofList, lowerAscii, lowerAscii, List.map_append]
    exact (List.suffix_append _ _).isInfix

/-! ### Color functions -/

theorem interrupts_blanks_append {blank : List Char} (h : Blanks blank) (rest : List Char) :
    Interrupts (blank ++ '(' :: rest) := by
  cases blank with
  | nil => exact interrupts_cons (by decide) rest
  | cons c blank => exact interrupts_cons (isColorChar_of_isBlank (h c List.mem_cons_self)) _

/-- What follows the parenthesis behind the name of a color function does not matter. -/
theorem mem_colorsIn_of_colorFunction? {name blank rest : List Char} (hblank : Blanks blank)
    (hne : name ≠ []) (h : colorFunction? (name ++ (blank ++ '(' :: rest)) = some l)
    (rest' : List Char) : l ∈ colorsIn (name ++ (blank ++ '(' :: rest')) := by
  have hopens (tail : List Char) :
      ((blank ++ '(' :: tail).dropWhile isBlank).head? = some '(' := by
    have hparen : ∀ d ∈ ('(' :: tail).head?, isBlank d = false := by
      intro d hd
      obtain rfl : '(' = d := Option.some.inj hd
      decide
    rw [dropWhile_append_eq hblank hparen]
    rfl
  have halike : OpensAlike (blank ++ '(' :: rest) (blank ++ '(' :: rest') :=
    iff_of_true (hopens rest) (hopens rest')
  rw [colorFunction?_congr (interrupts_blanks_append hblank rest)
    (interrupts_blanks_append hblank rest') halike] at h
  obtain ⟨c, name, rfl⟩ := List.exists_cons_of_ne_nil hne
  rw [List.cons_append] at h
  have hfound : l ∈ colorFunctionsFrom false (c :: (name ++ (blank ++ '(' :: rest'))) := by
    rw [colorFunctionsFrom, if_neg Bool.false_ne_true, h]
    exact List.mem_append_left _ (Option.mem_toList.2 rfl)
  exact List.mem_append_right _ (List.mem_append_left _ hfound)

/-- The name of a color function is found whatever its arguments are. -/
theorem finds_function (hleft : Blanks left) (h : dropImportant value = left ++ (text ++ right))
    (hname : colorFunction? text = some l) : Finds value text := by
  obtain ⟨name, blank, rest, rfl, hblank, rfl⟩ := exists_append_of_colorFunction? hname
  have htoken : IsToken (lowerAscii name) := by
    have hmem := mem_functionNames_of_colorFunction? hname
    have htoken := isToken_of_functionNames hmem
    rwa [String.toList_ofList] at htoken
  have hparen : IsPassed ['('] := isPassed_of_forall (List.forall_mem_singleton.2 (by decide))
  have hpassed := (isPassed_of_blanks hleft).append
    ((isToken_of_lowerAscii htoken).isPassed.append ((isPassed_of_blanks hblank).append hparen))
  have hvalue : dropImportant value = left ++ (name ++ (blank ++ ['('])) ++ (rest ++ right) := by
    rw [h]
    simp only [List.append_assoc, List.cons_append, List.nil_append]
  have hvisible := hpassed.visible_eq hvalue
  refine ⟨String.ofList (lowerAscii name), ?_, ?_⟩
  · have hne : name ≠ [] := by simpa [lowerAscii] using htoken.ne_nil
    rw [colors_eq, hvisible]
    simp only [List.append_assoc, List.singleton_append]
    exact colorsIn_subset_blanks_append hleft _ (mem_colorsIn_of_colorFunction? hblank hne hname _)
  · rw [String.toList_ofList, lowerAscii_lowerAscii]
    exact ((List.prefix_append name _).map _).isInfix

/-! ### Names -/

/-- The names of colors are words of letters, and no keyword that is allowed in place of a color. -/
theorem letters_of_mem_names {word : List Char}
    (h : word ∈ Color.names.map fun e => e.1.toList) :
    word ≠ [] ∧ (∀ c ∈ word, isIdentifierStart c = true) ∧
      Property.allowedColorKeywords.contains (String.ofList word) = false := by
  have hall : (Color.names.map fun e => e.1.toList).all (fun w =>
      !w.isEmpty && w.all isIdentifierStart &&
        !Property.allowedColorKeywords.contains (String.ofList w)) = true := by
    decide +kernel
  have hword := List.all_eq_true.1 hall word h
  simp only [Bool.and_eq_true, Bool.not_eq_true', List.isEmpty_eq_false_iff,
    List.all_eq_true] at hword
  exact ⟨hword.1.1, hword.1.2, hword.2⟩

theorem isIdentifierStart_of_toLower {c : Char} (h : isIdentifierStart c.toLower = true) :
    isIdentifierStart c = true := by
  rw [isIdentifierStart, Bool.or_eq_true, beq_iff_eq] at h ⊢
  exact h.imp isAlpha_of_toLower fun heq => eq_of_toLower heq (by decide)

theorem isIdentifierChar_of_isIdentifierStart {c : Char} (h : isIdentifierStart c = true) :
    isIdentifierChar c = true := by
  rw [isIdentifierStart, Bool.or_eq_true] at h
  rw [isIdentifierChar, Char.isAlphanum]
  rcases h with h | h <;> rw [h] <;> simp

/-- A word of letters is an identifier if no parenthesis follows. -/
theorem mem_identifiers_append {word : List Char} (hne : word ≠ [])
    (hword : ∀ c ∈ word, isIdentifierStart c = true) (hright : Blanks right) :
    ⟨String.ofList (lowerAscii word), false⟩ ∈ identifiers (word ++ right) := by
  obtain ⟨c, word, rfl⟩ := List.exists_cons_of_ne_nil hne
  obtain ⟨hc, hword⟩ := List.forall_mem_cons.1 hword
  have hchars : ∀ d ∈ word, isIdentifierChar d = true := fun d hd =>
    isIdentifierChar_of_isIdentifierStart (hword d hd)
  have hbehind : ∀ d ∈ right.head?, isIdentifierChar d = false := fun d hd =>
    isIdentifierChar_eq_false (isColorChar_of_isBlank (hright d (List.mem_of_mem_head? hd)))
  have hparen : (right.head? == some '(') = false := by
    refine beq_false_of_ne fun heq => ?_
    have hblank := hright '(' (List.mem_of_mem_head? heq)
    exact absurd hblank (by decide)
  rw [List.cons_append, identifiers.eq_def]
  dsimp only
  rw [if_pos hc, finishIdentifier_eq, takeWhile_append_eq hchars hbehind,
    dropWhile_append_eq hchars hbehind, hparen]
  exact List.mem_cons_self

/-- The name of a color is found. -/
theorem finds_named (hleft : Blanks left) (hright : Blanks right)
    (h : dropImportant value = left ++ (text ++ right))
    (hname : (Color.named? text).isSome = true) : Finds value text := by
  have hmem := Color.named?_isSome_iff.1 hname
  have htoken : IsToken (lowerAscii text) := by
    have htoken := isToken_of_names (l := String.ofList (lowerAscii text))
      (by rwa [String.toList_ofList])
    rwa [String.toList_ofList] at htoken
  obtain ⟨hne, hletters, hallowed⟩ := letters_of_mem_names hmem
  have hpassed := (isPassed_of_blanks hleft).append
    ((isToken_of_lowerAscii htoken).isPassed.append (isPassed_of_blanks hright))
  have hstart : ∀ c ∈ text, isIdentifierStart c = true := fun c hc =>
    isIdentifierStart_of_toLower (hletters _ (List.mem_map_of_mem hc))
  have hhash : ∀ c ∈ text, c ≠ '#' := by
    rintro c hc rfl
    exact absurd (hstart _ hc) (by decide)
  have hidentifier := mem_identifiers_append (by simpa [lowerAscii] using hne) hstart hright
  have hfound : String.ofList (lowerAscii text) ∈ namedColors (blankHex (text ++ right)) := by
    rw [blankHex_append hhash, blankHex_of_isBlank hright]
    refine List.mem_map.2 ⟨_, List.mem_filter.2 ⟨hidentifier, ?_⟩, rfl⟩
    rw [Bool.and_eq_true, Bool.and_eq_true, hallowed, Color.named?_isSome_iff,
      String.toList_ofList, lowerAscii_lowerAscii]
    exact ⟨⟨rfl, rfl⟩, hmem⟩
  refine ⟨String.ofList (lowerAscii text), ?_, ?_⟩
  · rw [colors_eq, hpassed.visible_eq_self h]
    exact colorsIn_subset_blanks_append hleft _ (List.mem_append_right _
      (List.mem_append_right _ hfound))
  · rw [String.toList_ofList, lowerAscii_lowerAscii]

/-- A literal color is found in a text that is recognised. -/
theorem IsRecognised.finds (h : IsRecognised text) (hleft : Blanks left) (hright : Blanks right)
    (hvalue : dropImportant value = left ++ (text ++ right)) : Finds value text := by
  cases h with
  | hex hash digit least most => exact finds_hex hleft hright hvalue hash digit least most
  | function name => exact finds_function hleft hvalue name
  | named name => exact finds_named hleft hright hvalue name

/-! ### Recognisers -/

/-- Digits are hex digits in any letter case, and a hash is a hash. -/
theorem isRecognised_of_hex {hashes digits : List Char}
    (htext : lowerAscii text = hashes ++ '#' :: digits) (hhash : ∀ c ∈ hashes, c = '#')
    (hdigits : ∀ d ∈ digits, isHexDigit d = true) (hleast : 3 ≤ digits.length)
    (hmost : digits.length ≤ 8) : IsRecognised text := by
  obtain ⟨front, behind, rfl, hfront, hbehind⟩ := List.map_eq_append_iff.1 htext
  obtain ⟨hash, written, rfl, heq, rfl⟩ := List.map_eq_cons_iff.1 hbehind
  obtain rfl : hash = '#' := eq_of_toLower heq (by decide)
  rw [List.length_map] at hleast hmost
  refine .hex (fun c hc => ?_) (fun d hd => ?_) hleast hmost
  · exact eq_of_toLower (hhash _ (hfront ▸ List.mem_map_of_mem hc)) (by decide)
  · rw [← isHexDigit_toLower]
    exact hdigits _ (List.mem_map_of_mem hd)

theorem isRecognised_of_colorFunction? (h : (colorFunction? (lowerAscii text)).isSome = true) :
    IsRecognised text := by
  rw [colorFunction?_lowerAscii] at h
  obtain ⟨l, hl⟩ := Option.isSome_iff_exists.1 h
  exact .function hl

theorem isRecognised_of_named? (h : (Color.named? (lowerAscii text)).isSome = true) :
    IsRecognised text := by
  rw [Color.named?_isSome_iff, lowerAscii_lowerAscii, ← Color.named?_isSome_iff] at h
  exact .named h

/-- A value that makes a custom property a color is recognised by its spelling. -/
theorem isRecognised_of_isColor (h : isColor value = true) :
    IsRecognised (trim (dropImportant value)) := by
  rw [isColor] at h
  generalize trim (dropImportant value) = text at h
  split at h
  · cases h
  · rw [Bool.or_eq_true, Bool.or_eq_true, Bool.and_eq_true] at h
    rcases h with (hhex | ⟨hfunction, -⟩) | hnamed
    · rw [Option.any_eq_true] at hhex
      obtain ⟨⟨hex, rest⟩, htake, hrest⟩ := hhex
      obtain ⟨digits, htext, -, hdigits, hleast, hmost, -⟩ := takeHex?_eq_some_iff.1 htake
      obtain rfl : rest = [] := List.isEmpty_iff.1 hrest
      have htext : lowerAscii text = [] ++ '#' :: digits := by rw [htext, List.append_nil]; rfl
      exact isRecognised_of_hex htext nofun hdigits hleast hmost
    · exact isRecognised_of_colorFunction? hfunction
    · exact isRecognised_of_named? hnamed

theorem hash_cons_append {hashes : List Char} (h : ∀ c ∈ hashes, c = '#') (cs : List Char) :
    '#' :: (hashes ++ cs) = hashes ++ '#' :: cs := by
  rw [List.eq_replicate_of_mem h, ← List.cons_append, ← List.replicate_succ, List.replicate_succ',
    List.append_assoc]
  rfl

/-- Contrast is computed from hex digits behind any number of hashes. -/
theorem isRecognised_of_hex? (hhead : (lowerAscii text).head? = some '#')
    (htrim : trim text = text) (h : (Color.hex? (lowerAscii text)).isSome = true) :
    IsRecognised text := by
  obtain ⟨rest, hrest⟩ := List.head?_eq_some_iff.1 hhead
  have hsplit := List.takeWhile_append_dropWhile (p := (· == '#')) (l := rest)
  have hhashes : ∀ c ∈ rest.takeWhile (· == '#'), c = '#' := fun c hc => by
    simpa using List.mem_takeWhile_imp hc
  rw [Color.hex?, trim_lowerAscii, htrim, hrest, List.dropWhile_cons_of_pos (by decide)] at h
  generalize rest.dropWhile (· == '#') = digits at h hsplit
  generalize rest.takeWhile (· == '#') = hashes at hsplit hhashes
  have htext : lowerAscii text = hashes ++ '#' :: digits := by
    rw [hrest, ← hsplit, hash_cons_append hhashes]
  split at h
  · cases h
  · next hall =>
    rw [Bool.not_eq_true, Bool.not_eq_false', List.all_eq_true] at hall
    have hlength : digits.length ∈ [3, 4, 6, 8] := by
      split at h <;> simp_all
    simp only [List.mem_cons, List.not_mem_nil, or_false] at hlength
    exact isRecognised_of_hex htext hhashes hall (by omega) (by omega)

/-- Contrast is computed from a function with its parenthesis right behind its name. -/
theorem isRecognised_of_function? (htrim : trim text = text)
    (h : (Color.function? (lowerAscii text)).isSome = true) : IsRecognised text := by
  obtain ⟨c, h⟩ := Option.isSome_iff_exists.1 h
  rw [Color.function?, trim_lowerAscii, htrim] at h
  obtain ⟨⟨rgb, rest⟩, hname, h⟩ := Option.bind_eq_some_iff.1 h
  obtain ⟨inner, hinner, -⟩ := Option.bind_eq_some_iff.1 h
  obtain ⟨rfl, -⟩ := Color.inParens?_eq_some hinner
  have hcalled {word behind : List Char} (hdrop : dropFolded? word (lowerAscii text) = some behind)
      (hafter : afterName behind = '(' :: (inner ++ [')'])) :
      (called? word (lowerAscii text)).isSome = true := by
    refine Option.isSome_iff_exists.2 ⟨_, called?_eq_some_iff.2 ⟨behind, hdrop, ?_, rfl⟩⟩
    rw [hafter]
    rfl
  refine isRecognised_of_colorFunction? ?_
  rw [colorFunction?_eq, Option.orElse_eq_or, Option.isSome_or, Bool.or_eq_true]
  rw [Color.functionName?] at hname
  cases hrgb : dropFolded? "rgb".toList (lowerAscii text) with
  | some behind =>
    rw [hrgb] at hname
    exact .inl (hcalled hrgb (Prod.mk.inj (Option.some.inj hname)).2)
  | none =>
    rw [hrgb] at hname
    obtain ⟨behind, hhsl, heq⟩ := Option.map_eq_some_iff.1 hname
    exact .inr (hcalled hhsl (Prod.mk.inj heq).2)

/-- A value that contrast is computed from is recognised by its spelling. -/
theorem isRecognised_of_parse? (h : (Color.parse? value).isSome = true) :
    IsRecognised (trim (dropImportant value)) := by
  have htrim := trim_trim (dropImportant value)
  rw [Color.parse?] at h
  generalize trim (dropImportant value) = text at h htrim
  split at h
  · next hhead => exact isRecognised_of_hex? (eq_of_beq hhead) htrim h
  split at h
  · exact isRecognised_of_function? htrim h
  · exact isRecognised_of_named? h

end

end Value

namespace Theming

open Text Value

/-- **Every value that is a color, in either sense, is reported where it should be a reference.**
If contrast is computed from a value, or the value makes a custom property a color, then a literal
color is found in what it is recognised by, and a declaration with that value is reported if its
property takes colors. -/
theorem recognised_colors_found {value : List Char}
    (h : (Color.parse? value).isSome = true ∨ isColor value = true) :
    colors value ≠ [] ∧ Finds value (trim (dropImportant value)) ∧
      ∀ (s : Sheet) (r : Rule) (d : Declaration), d.value.toList = value →
        Property.listed Property.colored d.name = true → (hardcodedColor s r d).isSome = true := by
  have hrecognised : IsRecognised (trim (dropImportant value)) :=
    h.elim isRecognised_of_parse? isRecognised_of_isColor
  obtain ⟨left, right, hvalue, hleft, hright⟩ := exists_append_trim (dropImportant value)
  have hfinds := hrecognised.finds hleft hright hvalue
  have hne : colors value ≠ [] := by
    obtain ⟨l, hl, -⟩ := hfinds
    exact List.ne_nil_of_mem hl
  refine ⟨hne, hfinds, fun s r d hd hlisted => ?_⟩
  have hjudged := DeclarationRule.color.isSome_judge s r d
  rw [DeclarationRule.objects, hlisted, hd, List.isEmpty_eq_false_iff.2 hne] at hjudged
  exact hjudged

/-- Hex digits behind two hashes are no color for a custom property, and contrast is not computed
from a color function with a long s, white space behind its name and a reference in it. -/
theorem recognised_colors_found_of_each :
    (Color.parse? " ##FFF !Important 0".toList).isSome = true ∧
      colors " ##FFF !Important 0".toList ≠ [] ∧
      isColor "h\u017fL (var(--x))".toList = true ∧ colors "h\u017fL (var(--x))".toList ≠ [] := by
  have hparse : (Color.parse? " ##FFF !Important 0".toList).isSome = true := by decide +kernel
  have hcolor : isColor "h\u017fL (var(--x))".toList = true := by decide +kernel
  exact ⟨hparse, (recognised_colors_found (.inl hparse)).1, hcolor,
    (recognised_colors_found (.inr hcolor)).1⟩

end Theming
end SheetAudit
