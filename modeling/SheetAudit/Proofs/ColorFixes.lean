import SheetAudit.Proofs.ColorWords
import SheetAudit.Proofs.Findings
import SheetAudit.Proofs.SingleColors
import SheetAudit.Proofs.Visibility

/-!
# Fixes for colors

Where a color is written literally, a reference is proposed in place of the first occurrence of the
first literal that was found.  The literals are found by kind, in small letters, and of a color
function only the name is kept; what is replaced is the first place where these letters stand.

## Main definitions

* `Theming.Fixes` — a finding shows the value of a declaration before and after the fix.
* `Theming.TakesColor` — the words around a place have fewer colors with a space in it.

## Main results

* `isToken_of_mem_colors` — a literal color is a token.
* `Theming.fix_removes_iff` — **the fix removes a color exactly if the first occurrence of the
  literal is seen and the words around it have fewer colors without it.**
-/

namespace SheetAudit
namespace Value

open Text
open Offsets (toLower_cases)

/-! ### Literal colors are tokens -/

section

variable {cs rest word : List Char} {l : String}

/-- Hex digits are not behind `f` in the alphabet. -/
theorem toLower_le_of_isHexDigit {d : Char} (h : isHexDigit d = true) : d.toLower.toNat ≤ 102 := by
  rw [isHexDigit_iff] at h
  rcases toLower_cases d with hsame | ⟨hcapital, hlower⟩
  · rw [hsame]
    omega
  · rw [hlower]
    omega

theorem clear_of_hex {c : Char} (hc : 102 < c.toNat) (hhash : '#' ∉ c :: rest) {digits : List Char}
    (hdigits : ∀ d ∈ digits, isHexDigit d = true) : Clear (c :: rest) ('#' :: digits) where
  begins := by
    intro q hq hne hprefix
    obtain ⟨d, ds, rfl⟩ := List.exists_cons_of_ne_nil hne
    obtain ⟨after, hafter⟩ := hprefix
    have hd : d.toLower = c := (List.cons.inj hafter).1
    have hmem : d ∈ '#' :: digits := ((List.mem_tails _ _).1 hq).mem List.mem_cons_self
    rw [← hd] at hc
    rcases List.mem_cons.1 hmem with rfl | hmem
    · exact absurd hc (by decide)
    · have hle := toLower_le_of_isHexDigit (hdigits d hmem)
      omega
  through := by
    intro hthrough
    exact hhash (hthrough.mem (List.mem_map.2 ⟨'#', List.mem_cons_self, rfl⟩))

theorem isToken_of_hex {digits : List Char} (hdigits : ∀ d ∈ digits, isHexDigit d = true) :
    IsToken ('#' :: digits) where
  ne_nil := List.cons_ne_nil _ _
  plain := by
    intro c hc
    rcases List.mem_cons.1 hc with rfl | hc
    · decide
    · have hdigit := hdigits c hc
      constructor
      · refine Bool.eq_false_iff.2 fun hblank => ?_
        exact Bool.false_ne_true ((isHexDigit_of_isBlank hblank).symm.trans hdigit)
      · intro hmem
        simp only [List.mem_cons, List.not_mem_nil, or_false] at hmem
        rcases hmem with rfl | rfl | rfl <;> exact absurd hdigit (by decide)
  reference := clear_of_hex (c := 'v') (by decide) (by decide) hdigits
  address := clear_of_hex (c := 'u') (by decide) (by decide) hdigits

theorem isToken_iff {p : List Char} :
    IsToken p ↔ p ≠ [] ∧ p.all (fun c => !isBlank c && !(['(', ')', '!'].contains c)) = true ∧
      Clear "var(".toList p ∧ Clear "url(".toList p := by
  simp only [List.all_eq_true, Bool.and_eq_true, Bool.not_eq_true', ← Bool.not_eq_true,
    List.contains_iff_mem]
  constructor
  · intro h
    exact ⟨h.ne_nil, fun c hc => by simpa using h.plain c hc, h.reference, h.address⟩
  · rintro ⟨hne, hplain, hreference, haddress⟩
    exact ⟨hne, fun c hc => by simpa using hplain c hc, hreference, haddress⟩

instance (p : List Char) : Decidable (IsToken p) := decidable_of_iff _ isToken_iff.symm

/-- The names of color functions; the long s counts as an s. -/
def functionNames : List String := ["rgb", "rgba", "hsl", "hsla", "h\u017fl", "h\u017fla"]

theorem isToken_of_functionNames (h : l ∈ functionNames) : IsToken l.toList := by
  have hall : ∀ l ∈ functionNames, IsToken l.toList := by decide +kernel
  exact hall l h

theorem isToken_of_names (h : l.toList ∈ Color.names.map fun e => e.1.toList) :
    IsToken l.toList := by
  have hall : ∀ p ∈ Color.names.map fun e => e.1.toList, IsToken p := by decide +kernel
  exact hall _ h

theorem exists_hex_of_mem_hexColors (h : l ∈ hexColors cs) :
    ∃ digits, l.toList = '#' :: digits ∧ ∀ d ∈ digits, isHexDigit d = true := by
  obtain ⟨part, hpart, hl⟩ := List.mem_filterMap.1 h
  fun_induction cutHex cs with
  | case1 => cases hpart
  | case2 c cs hex rest hhex ih =>
    rcases List.mem_cons.1 hpart with rfl | hpart
    · obtain ⟨digits, -, rfl, hdigits, -⟩ := takeHex?_eq_some_iff.1 hhex
      exact ⟨digits, by rw [← Option.some.inj hl, String.toList_ofList], hdigits⟩
    · exact ih (List.mem_filterMap.2 ⟨part, hpart, hl⟩) hpart
  | case3 c cs hhex ih =>
    rcases List.mem_cons.1 hpart with rfl | hpart
    · cases hl
    · exact ih (List.mem_filterMap.2 ⟨part, hpart, hl⟩) hpart

/-- What a color function is called by is its name, as it is written, and an `a` if one follows; behind
it there is a parenthesis. -/
theorem exists_append_of_called? {word : List Char} (h : called? word cs = some l) :
    ∃ front a blank rest, cs = front ++ a ++ (blank ++ '(' :: rest) ∧ Blanks blank ∧
      l = String.ofList (lowerAscii (front ++ a)) ∧ (a = [] ∨ lowerAscii a = ['a']) ∧
      List.Forall₂ (fun letter c => folds letter c = true) word front := by
  obtain ⟨behind, hdrop, hparen, rfl⟩ := called?_eq_some_iff.1 h
  obtain ⟨front, rfl, hfront⟩ := exists_folded_of_dropFolded? hdrop
  obtain ⟨a, hbehind, ha⟩ := Color.exists_transparency behind
  change behind = a ++ afterName behind at hbehind
  obtain ⟨rest, hrest⟩ := List.head?_eq_some_iff.1 hparen
  have hafter := List.takeWhile_append_dropWhile (p := isBlank) (l := afterName behind)
  rw [hrest] at hafter
  have hcs : front ++ behind = front ++ a ++ afterName behind := by
    rw [List.append_assoc, ← hbehind]
  refine ⟨front, a, (afterName behind).takeWhile isBlank, rest, ?_,
    fun c hc => List.mem_takeWhile_imp hc, ?_, ha, hfront⟩
  · rw [hafter, hcs]
  · rw [hcs, List.length_append, Nat.add_sub_cancel, List.take_left' rfl]

theorem called?_eq_some {word : List Char} (h : called? word cs = some l) :
    ∃ front a, l = String.ofList (lowerAscii front ++ a) ∧ a ∈ [[], ['a']] ∧
      List.Forall₂ (fun letter c => folds letter c = true) word front := by
  obtain ⟨front, a, -, -, -, -, rfl, ha, hfront⟩ := exists_append_of_called? h
  refine ⟨front, lowerAscii a, by rw [lowerAscii, List.map_append]; rfl, ?_, hfront⟩
  rcases ha with rfl | ha
  · decide
  · rw [ha]
    decide

/-- The name of a color function has three letters. -/
theorem exists_letters {a b c : Char} {front : List Char}
    (h : List.Forall₂ (fun letter c => folds letter c = true) [a, b, c] front) :
    ∃ x y z, front = [x, y, z] ∧ folds a x = true ∧ folds b y = true ∧ folds c z = true := by
  obtain ⟨x, front, hx, hfront, rfl⟩ := List.forall₂_cons_left_iff.1 h
  obtain ⟨y, rest, hy, hrest, rfl⟩ := List.forall₂_cons_left_iff.1 hfront
  obtain ⟨z, last, hz, hlast, rfl⟩ := List.forall₂_cons_left_iff.1 hrest
  obtain rfl := List.forall₂_nil_left_iff.1 hlast
  exact ⟨x, y, z, rfl, hx, hy, hz⟩

theorem mem_functionNames_of_colorFunction? (h : colorFunction? cs = some l) :
    l ∈ functionNames := by
  have hletter {letter c : Char} (hs : letter ≠ 's') (hk : letter ≠ 'k')
      (hfolds : folds letter c = true) : c.toLower = letter := by
    simpa [folds, hs, hk] using hfolds
  rw [colorFunction?_eq] at h
  cases hrgb : called? "rgb".toList cs with
  | some name =>
    rw [hrgb] at h
    obtain rfl : name = l := Option.some.inj h
    obtain ⟨front, a, rfl, ha, hfront⟩ := called?_eq_some hrgb
    obtain ⟨x, y, z, rfl, hx, hy, hz⟩ := exists_letters hfront
    rw [lowerAscii, List.map_cons, List.map_cons, List.map_singleton,
      hletter (by decide) (by decide) hx, hletter (by decide) (by decide) hy,
      hletter (by decide) (by decide) hz]
    simp only [List.mem_cons, List.not_mem_nil, or_false] at ha
    rcases ha with rfl | rfl <;> decide
  | none =>
    rw [hrgb] at h
    obtain ⟨front, a, rfl, ha, hfront⟩ := called?_eq_some (show called? "hsl".toList cs = some l from h)
    obtain ⟨x, y, z, rfl, hx, hy, hz⟩ := exists_letters hfront
    -- the long s has no small letter of its own
    have hs : y.toLower = 's' ∨ y = '\u017f' := by
      have hfolds : folds 's' y = true := hy
      simpa [folds] using hfolds
    rw [lowerAscii, List.map_cons, List.map_cons, List.map_singleton,
      hletter (by decide) (by decide) hx, hletter (by decide) (by decide) hz]
    simp only [List.mem_cons, List.not_mem_nil, or_false] at ha
    rcases hs with hs | rfl
    · rw [hs]
      rcases ha with rfl | rfl <;> decide
    · rcases ha with rfl | rfl <;> decide

theorem mem_functionNames {inWord : Bool} (h : l ∈ colorFunctionsFrom inWord cs) :
    l ∈ functionNames := by
  induction cs generalizing inWord with
  | nil => cases h
  | cons c cs ih =>
    rw [colorFunctionsFrom, List.mem_append, Option.mem_toList] at h
    rcases h with hfound | hrest
    · cases inWord with
      | true => cases hfound
      | false => exact mem_functionNames_of_colorFunction? hfound
    · exact ih hrest

/-- Identifiers are kept in small letters. -/
theorem lowerAscii_of_mem_identifiers {i : Identifier} (h : i ∈ identifiers cs) :
    lowerAscii i.name.toList = i.name.toList := by
  have hfinish (start rest : List Char) :
      lowerAscii (finishIdentifier start rest).1.name.toList =
        (finishIdentifier start rest).1.name.toList := by
    rw [finishIdentifier_eq, String.toList_ofList, lowerAscii_lowerAscii]
  fun_induction identifiers cs with
  | case1 => cases h
  | case2 c rest hc ih =>
    rcases List.mem_cons.1 h with rfl | h
    · exact hfinish _ _
    · exact ih h
  | case3 c d ds hc hd ih =>
    rcases List.mem_cons.1 h with rfl | h
    · exact hfinish _ _
    · exact ih h
  | case4 c d ds hc hd ih => exact ih h
  | case5 => cases h

theorem mem_names_of_mem_namedColors (h : l ∈ namedColors cs) :
    l.toList ∈ Color.names.map fun e => e.1.toList := by
  obtain ⟨i, hi, rfl⟩ := List.mem_map.1 h
  obtain ⟨hi, hnamed⟩ := List.mem_filter.1 hi
  rw [Bool.and_eq_true, Color.named?_isSome_iff, lowerAscii_of_mem_identifiers hi] at hnamed
  exact hnamed.2

/-- A literal color is a token. -/
theorem isToken_of_mem_colors {value : List Char} (h : l ∈ colors value) : IsToken l.toList := by
  rw [colors, List.mem_append, List.mem_append] at h
  rcases h with (hhex | hfunction) | hnamed
  · obtain ⟨digits, hl, hdigits⟩ := exists_hex_of_mem_hexColors hhex
    rw [hl]
    exact isToken_of_hex hdigits
  · exact isToken_of_functionNames (mem_functionNames hfunction)
  · exact isToken_of_names (mem_names_of_mem_namedColors hnamed)

end

theorem colors_eq (value : List Char) : colors value = colorsIn (visible value) :=
  List.append_assoc _ _ _

/-! ### References in place of literals -/

/-- Of the words around a place, fewer colors are read with a space in it than with a word. -/
def TakesColor (front word back : List Char) : Prop :=
  (colorsIn (lastWords front ++ ([' '] ++ firstWord back))).length <
    (colorsIn (lastWords front ++ (word ++ firstWord back))).length

instance (front word back : List Char) : Decidable (TakesColor front word back) :=
  inferInstanceAs (Decidable (_ < _))

/-- A name of which another one is part is gone with that, unless hex digits and a hash before it
are left. -/
example : TakesColor "dark".toList "red".toList " 0".toList ∧
    ¬ TakesColor "#123".toList "red".toList " 0".toList := by
  decide +kernel

section

variable {before word name after front back value : List Char}

theorem Shown.length_colors_lt_iff (h : Shown before word name after front back) :
    (colors (referring before "var(".toList name after)).length <
        (colors (before ++ (word ++ after))).length ↔ TakesColor front word back := by
  obtain ⟨n, hcount⟩ := exists_length_colorsIn_eq front back
  rw [colors_eq, colors_eq, h.word, h.reference, ← List.singleton_append, hcount, hcount,
    Nat.add_lt_add_iff_left, TakesColor]

/-- **A reference in place of the first occurrence of a token takes a color out exactly if the
search sees that occurrence and the words around it have fewer colors without it.** -/
theorem IsToken.length_colors_lt_iff (hword : IsToken word) (hbalanced : Balanced name)
    (hname : ¬ SaysImportant name)
    (hspares : ∀ before after, IsFirst word value before after → SparesFlag before (word ++ after)) :
    (colors (replaceFirst word ("var(".toList ++ (name ++ [')'])) value)).length <
        (colors value).length ↔
      ∃ before after front back, IsFirst word value before after ∧
        Shown before word name after front back ∧ TakesColor front word back := by
  unfold replaceFirst
  cases hsplit : splitAt? word value with
  | none =>
    refine iff_of_false (Nat.lt_irrefl _) ?_
    rintro ⟨before, after, front, back, hfirst, -⟩
    rw [splitAt?_eq_some_iff.2 hfirst] at hsplit
    cases hsplit
  | some r =>
    obtain ⟨before, after⟩ := r
    have hfirst := splitAt?_eq_some_iff.1 hsplit
    have hform : before ++ ("var(".toList ++ (name ++ [')'])) ++ after =
        referring before "var(".toList name after := by
      simp only [referring, List.append_assoc, List.singleton_append]
    dsimp only
    rw [hform]
    constructor
    · intro hfewer
      rw [hfirst.1] at hfewer
      rcases hword.visible_eq_or_shown (hspares before after hfirst) hbalanced hname with
        heq | ⟨front, back, hshown⟩
      · rw [colors_eq, colors_eq, heq] at hfewer
        exact absurd hfewer (Nat.lt_irrefl _)
      · exact ⟨before, after, front, back, hfirst, hshown, hshown.length_colors_lt_iff.1 hfewer⟩
    · rintro ⟨before', after', front, back, hfirst', hshown, htakes⟩
      rw [splitAt?_eq_some_iff.2 hfirst'] at hsplit
      obtain ⟨rfl, rfl⟩ := Prod.mk.inj (Option.some.inj hsplit)
      rw [hfirst.1]
      exact hshown.length_colors_lt_iff.2 htakes

end

end Value

namespace Theming

open Text Value

/-! ### The finding about a declaration -/

/-- A finding shows the value of a declaration, and what it is with a reference in place of the
first literal color. -/
structure Fixes (s : Sheet) (i : Issue) (d : Declaration) (literal fixed : String) : Prop where
  literal : (literalColors d).head? = some literal
  location : i.location = s.locate d.pos
  sample : i.sample = some ⟨s!"{d.name}: {d.value};", s!"{d.name}: {fixed};"⟩

section

variable {settings : ColorSettings} {s : Sheet} {i : Issue} {r : Rule} {d : Declaration}

/-- The other rules have names of their own. -/
theorem exists_hardcodedColor (hi : i ∈ check settings s) (hrule : i.rule = "color/hardcoded-color") :
    ∃ p ∈ s.declarations, hardcodedColor s p.1 p.2 = some i := by
  have hother : "color/hardcoded-color" ∉ ruleNames := by decide
  rw [check, List.mem_append, List.mem_append] at hi
  rcases hi with (hcolor | hcontrast) | hdark
  · exact List.mem_filterMap.1 hcolor
  · have hreports : i.Reports ruleNames s none := reports_of_contrast hcontrast
    exact absurd (hrule ▸ hreports.rule_mem) hother
  · have hreports : i.Reports ruleNames s none := reports_of_dark hdark
    exact absurd (hrule ▸ hreports.rule_mem) hother

theorem fixes_of_hardcodedColor (h : hardcodedColor s r d = some i) :
    ∃ literal, literal ∈ colors d.value.toList ∧
      Fixes s i d literal (referring d.value literal "var(--text-primary)") := by
  unfold hardcodedColor at h
  split at h
  · cases h
  · next first rest hcolors =>
    refine ⟨first, ?_, ?_, ?_, ?_⟩
    · have hmem : first ∈ literalColors d := hcolors ▸ List.mem_cons_self
      rw [literalColors, List.mem_ite_nil_right] at hmem
      exact hmem.2
    · rw [hcolors]
      rfl
    · exact congrArg Issue.location (Option.some.inj h).symm
    · exact congrArg Issue.sample (Option.some.inj h).symm

/-- **The fix for a literal color removes a color exactly if the first occurrence of the literal is
seen and the words around it have fewer colors without it.** -/
theorem fix_removes_iff (hi : i ∈ check settings s) (hrule : i.rule = "color/hardcoded-color") :
    ∃ p ∈ s.declarations, ∃ literal fixed, Fixes s i p.2 literal fixed ∧
      ((∀ before after, IsFirst literal.toList p.2.value.toList before after →
          SparesFlag before (literal.toList ++ after)) →
        ((colors fixed.toList).length < (colors p.2.value.toList).length ↔
          ∃ before after front back, IsFirst literal.toList p.2.value.toList before after ∧
            Shown before literal.toList "--text-primary".toList after front back ∧
            TakesColor front literal.toList back)) := by
  obtain ⟨p, hp, hissue⟩ := exists_hardcodedColor hi hrule
  obtain ⟨literal, hmem, hfixes⟩ := fixes_of_hardcodedColor hissue
  refine ⟨p, hp, literal, _, hfixes, fun hspares => ?_⟩
  have hreference : "var(--text-primary)".toList =
      "var(".toList ++ ("--text-primary".toList ++ [')']) := by decide
  rw [referring, String.toList_ofList, hreference]
  exact (isToken_of_mem_colors hmem).length_colors_lt_iff (by decide) (by decide) hspares

end

/-- A sheet with one color. -/
def colorSheet (value : String) : Sheet where
  path := "main.css"
  rules := [⟨".a", [⟨"color", value, .start⟩], none, .start⟩]

/-- The second of two colors gives way to a reference. -/
theorem fix_removes_second : ∃ i ∈ check {} (colorSheet "RED red"),
    i.rule = "color/hardcoded-color" ∧ ∃ p ∈ (colorSheet "RED red").declarations,
      ∃ literal fixed, Fixes (colorSheet "RED red") i p.2 literal fixed ∧
        (colors fixed.toList).length < (colors p.2.value.toList).length := by
  obtain ⟨i, hi, hrule⟩ : ∃ i ∈ check {} (colorSheet "RED red"),
      i.rule = "color/hardcoded-color" := by
    decide +kernel
  obtain ⟨p, hp, literal, fixed, hfixes, hiff⟩ := fix_removes_iff hi hrule
  have hcolor : p.2 = ⟨"color", "RED red", .start⟩ := by
    have hall : ∀ p ∈ (colorSheet "RED red").declarations,
        p.2 = ⟨"color", "RED red", .start⟩ := by
      decide +kernel
    exact hall p hp
  have hliteral : (literalColors p.2).head? = some "red" := by
    rw [hcolor]
    decide +kernel
  obtain rfl : "red" = literal := Option.some.inj (hliteral.symm.trans hfixes.literal)
  refine ⟨i, hi, hrule, p, hp, _, fixed, hfixes, (hiff fun before after hfirst => ?_).2 ?_⟩
  · refine sparesFlag_of_not_mem (fun hmem => ?_) _
    have hvalue : '!' ∈ "RED red".toList := by
      rw [hcolor] at hfirst
      rw [show "RED red".toList = before ++ ("red".toList ++ after) from hfirst.1]
      exact List.mem_append_left _ hmem
    exact absurd hvalue (by decide)
  · rw [hcolor]
    exact ⟨"RED ".toList, [], "RED ".toList, [], splitAt?_eq_some_iff.1 (by decide +kernel),
      ⟨by decide +kernel, by decide +kernel⟩, by decide +kernel⟩

/-- A color in capitals is found in small letters, and stays as it is. -/
theorem fix_keeps_capitals : ∃ i ∈ check {} (colorSheet "RED"),
    i.rule = "color/hardcoded-color" ∧ i.sample = some ⟨"color: RED;", "color: RED;"⟩ ∧
      ∃ p ∈ (colorSheet "RED").declarations, Fixes (colorSheet "RED") i p.2 "red" "RED" ∧
        ¬ (colors "RED".toList).length < (colors p.2.value.toList).length := by
  obtain ⟨i, hi, hrule, hlocation, hsample⟩ : ∃ i ∈ check {} (colorSheet "RED"),
      i.rule = "color/hardcoded-color" ∧ i.location = (colorSheet "RED").locate .start ∧
        i.sample = some ⟨"color: RED;", "color: RED;"⟩ := by
    decide +kernel
  obtain ⟨p, hp, hcolor⟩ : ∃ p ∈ (colorSheet "RED").declarations,
      p.2 = ⟨"color", "RED", .start⟩ := by
    decide +kernel
  refine ⟨i, hi, hrule, hsample, p, hp, ?_, ?_⟩
  · rw [hcolor]
    exact ⟨by decide +kernel, hlocation, hsample⟩
  · rw [hcolor]
    exact Nat.lt_irrefl _

end Theming
end SheetAudit
