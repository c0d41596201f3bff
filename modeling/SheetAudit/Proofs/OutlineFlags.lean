import SheetAudit.Proofs.Flags
import SheetAudit.Proofs.FocusFindings

/-!
# The flag in focus styles

A rule that takes the outline of the focus away is reported unless a focus style of the same base
shows the focus in another way.  The flag `!important` is dropped from a value where an outline is
looked for, but not where something visible is: there a value that shows nothing counts as visible
as soon as it carries the flag.

## Main definitions

* `Sheet.flag` — the sheet with the flag behind some of its declarations.
* `Focus.isMuted` — a declaration could show the focus, but not with the value it has.
* `Focus.IsUnmuted` — a muted declaration in a focus style of a base gets the flag.

## Main results

* `Focus.removesOutline_flagged`, `Focus.showsFocus_flagged` — what the flag does to a declaration.
* `Focus.removed_flag_iff` — **the flag leaves the findings about removed outlines as they are
  exactly if it conceals none of them.**
-/

namespace SheetAudit

open Text Value

/-! ### Putting the flag behind declarations -/

/-- The declaration with the flag behind its value. -/
def Declaration.flagged (d : Declaration) : Declaration :=
  { d with value := d.value ++ " !important" }

/-- The rule with the flag behind the declarations that are chosen by their place in it; those that
carry the flag stay as they are. -/
def Rule.flag (chosen : Nat → Bool) (r : Rule) : Rule :=
  { r with
    declarations := r.declarations.mapIdx fun j d =>
      if chosen j && !d.isImportant then d.flagged else d }

/-- The sheet with the flag behind the declarations that are chosen by the place of their rule and
their place in it.  Classes are those of the rules. -/
def Sheet.flag (chosen : Nat → Nat → Bool) (s : Sheet) : Sheet :=
  let rules := s.rules.mapIdx fun i r => r.flag (chosen i)
  { s with rules, classes := rules.filterMap Rule.class? }

/-! ### Values with the flag -/

theorem saysImportant_lowerAscii {cs : List Char} :
    SaysImportant (lowerAscii cs) ↔ SaysImportant cs := by
  have hsame := Offsets.splitAt?_lowerAscii "!important".toList (lowerAscii cs)
  rw [lowerAscii_lowerAscii, Offsets.splitAt?_lowerAscii] at hsame
  rw [saysImportant_iff, saysImportant_iff, ← Option.isSome_map, ← hsame, Option.isSome_map]

theorem Declaration.isImportant_iff {d : Declaration} :
    d.isImportant = true ↔ SaysImportant d.value.toList := by
  rw [isImportant, contains, Offsets.splitAt?_lowerAscii, Option.isSome_map, saysImportant_iff]

theorem trim_trimLeft (cs : List Char) : trim (trimLeft cs) = trim cs := by
  rw [trim, trim, trimLeft, trimLeft, List.dropWhile_idempotent]

theorem trim_append_space (cs : List Char) : trim (cs ++ [' ']) = trim cs := by
  obtain ⟨left, right, hcs, hleft, hright⟩ := exists_append_trim cs
  have hspace : ∀ c ∈ right ++ [' '], isBlank c = true := by
    intro c hc
    rcases List.mem_append.1 hc with hc | hc
    · exact hright c hc
    · rw [List.mem_singleton.1 hc]
      decide
  conv_lhs => rw [hcs, List.append_assoc, List.append_assoc]
  exact trim_append hleft hspace (trim_trim cs)

/-- The flag is no blank at either end. -/
theorem trim_append_flag (cs : List Char) :
    trim (cs ++ "!important".toList) = trimLeft cs ++ "!important".toList := by
  have hleft : trimLeft (cs ++ "!important".toList) = trimLeft cs ++ "!important".toList := by
    rw [trimLeft, trimLeft, List.dropWhile_append]
    split
    · next h =>
      rw [List.isEmpty_iff.1 h]
      rfl
    · rfl
  have hright : trimRight ((trimLeft cs ++ "!importan".toList) ++ 't' :: []) =
      (trimLeft cs ++ "!importan".toList) ++ 't' :: [] := trimRight_append_cons (by decide) _ []
  rw [List.append_assoc] at hright
  rw [trim, hleft]
  exact hright

namespace Focus

theorem dropFlags_append (cs : List Char) :
    dropFlags ("tnatropmi!".toList ++ cs) = dropFlags cs := by
  have hdrop : dropAscii? "tnatropmi!".toList ("tnatropmi!".toList ++ cs) = some cs :=
    dropAscii?_lowerAscii "tnatropmi!".toList cs
  rw [dropFlags]
  split
  · next rest hrest =>
    rw [hdrop] at hrest
    rw [Option.some.inj hrest]
  · next hnone =>
    rw [hdrop] at hnone
    cases hnone

/-- The search for flags stops at a blank. -/
theorem dropFlags_of_isBlank {cs : List Char} (h : ∀ c ∈ cs.head?, isBlank c = true) :
    dropFlags cs = cs := by
  rw [dropFlags]
  split
  · next rest hrest =>
    cases cs with
    | nil => cases hrest
    | cons c cs =>
      obtain ⟨word, heq, hword⟩ := Offsets.dropAscii?_eq_some hrest
      cases word with
      | nil => cases hword
      | cons w word =>
        obtain rfl : c = w := (List.cons.inj heq).1
        have hblank : isBlank c.toLower = true := (isBlank_toLower c).trans (h c rfl)
        rw [(List.cons.inj hword).1] at hblank
        exact absurd hblank (by decide)
  · rfl

/-- Where no flag is, none is dropped. -/
theorem dropFlags_reverse {cs : List Char} (h : ¬ SaysImportant cs) :
    dropFlags cs.reverse = cs.reverse := by
  rw [dropFlags]
  split
  · next rest hrest =>
    obtain ⟨word, heq, hword⟩ := Offsets.dropAscii?_eq_some hrest
    refine absurd ⟨word.reverse, ⟨rest.reverse, [], ?_⟩, ?_⟩ h
    · rw [List.append_nil, ← List.reverse_append, ← heq, List.reverse_reverse]
    · rw [lowerAscii, List.map_reverse, ← lowerAscii, hword]
      rfl
  · rfl

theorem trim_dropFlags {cs : List Char} (h : ¬ SaysImportant cs) :
    trim (dropFlags (lowerAscii (trim cs)).reverse).reverse = lowerAscii (trim cs) := by
  have htrim : ¬ SaysImportant (lowerAscii (trim cs)) := by
    obtain ⟨left, right, hcs, -, -⟩ := exists_append_trim cs
    rw [saysImportant_lowerAscii]
    intro hflag
    exact h (hflag.mono ⟨left, right, by rw [List.append_assoc]; exact hcs.symm⟩)
  rw [dropFlags_reverse htrim, List.reverse_reverse, trim_lowerAscii, trim_trim]

/-- One flag is dropped with the blank before it. -/
theorem trim_dropFlags_flag (cs : List Char) :
    trim (dropFlags (lowerAscii (trim (cs ++ " !important".toList))).reverse).reverse =
      lowerAscii (trim cs) := by
  have hflag : lowerAscii (trim (cs ++ " !important".toList)) =
      lowerAscii (trimLeft (cs ++ [' '])) ++ "!important".toList := by
    have hform : cs ++ " !important".toList = cs ++ [' '] ++ "!important".toList := by
      rw [List.append_assoc]
      rfl
    rw [hform, trim_append_flag, lowerAscii, List.map_append]
    rfl
  -- behind the flag stands the blank, if anything is left at all
  have hblank : ∀ c ∈ (lowerAscii (trimLeft (cs ++ [' ']))).reverse.head?, isBlank c = true := by
    intro c hc
    rw [List.head?_reverse, trimLeft, List.dropWhile_append] at hc
    split at hc
    · cases hc
    · rw [lowerAscii, List.map_append, List.map_singleton, List.getLast?_concat] at hc
      rw [← Option.some.inj hc]
      decide
  have hreverse : (lowerAscii (trimLeft (cs ++ [' '])) ++ "!important".toList).reverse =
      "tnatropmi!".toList ++ (lowerAscii (trimLeft (cs ++ [' ']))).reverse := by
    rw [List.reverse_append]
    rfl
  rw [hflag, hreverse, dropFlags_append, dropFlags_of_isBlank hblank, List.reverse_reverse,
    trim_lowerAscii, trim_trimLeft, trim_append_space]

/-! ### Declarations with the flag -/

/-- A declaration could show the focus, but not with the value it has. -/
def isMuted (d : Declaration) : Bool :=
  Property.listed Property.visibleFocus d.name && !removesOutline d &&
    invisible.contains (String.ofList (lowerAscii (trim d.value.toList)))

section

variable {d : Declaration} (h : d.isImportant = false)
include h

theorem removesOutline_eq :
    removesOutline d =
      ((d.name == "outline" || d.name == "outline-style" || d.name == "outline-width") &&
        ["none", "0", "0px"].contains (String.ofList (lowerAscii (trim d.value.toList)))) := by
  have hnot : ¬ SaysImportant d.value.toList := by
    rw [← Declaration.isImportant_iff, h]
    exact Bool.false_ne_true
  rw [removesOutline, trim_dropFlags hnot]
  simp only [List.contains_cons, List.contains_nil, Bool.or_false, Bool.or_assoc]

/-- The flag is dropped where an outline is looked for. -/
theorem removesOutline_flagged : removesOutline d.flagged = removesOutline d := by
  have hvalue : d.flagged.value.toList = d.value.toList ++ " !important".toList :=
    String.toList_append
  rw [removesOutline_eq h, removesOutline, hvalue, trim_dropFlags_flag]
  simp only [List.contains_cons, List.contains_nil, Bool.or_false, Bool.or_assoc]
  rfl

/-- It is not dropped where something visible is looked for. -/
theorem showsFocus_flagged : showsFocus d.flagged = (showsFocus d || isMuted d) := by
  have hvisible :
      invisible.contains (String.ofList (lowerAscii (trim d.flagged.value.toList))) = false := by
    have hmark : '!' ∈ (String.ofList (lowerAscii (trim d.flagged.value.toList))).toList := by
      have hform : d.flagged.value.toList = d.value.toList ++ [' '] ++ "!important".toList := by
        rw [List.append_assoc]
        exact String.toList_append
      rw [String.toList_ofList, hform, trim_append_flag, lowerAscii, List.map_append,
        List.mem_append]
      exact .inr (by decide)
    have hnone : ∀ value ∈ invisible, '!' ∉ value.toList := by decide
    refine Bool.eq_false_iff.2 fun hcontains => hnone _ ?_ hmark
    exact List.contains_iff_mem.1 hcontains
  have hname : d.flagged.name = d.name := rfl
  rw [showsFocus, showsFocus, isMuted, hvisible, removesOutline_flagged h, hname, Bool.not_false,
    Bool.and_true, ← Bool.and_or_distrib_left, Bool.not_or_self, Bool.and_true]

end

/-! ### Rules with the flag -/

section

variable {α β : Type}

theorem filterMap_mapIdx {f : Nat → α → α} {g k : α → Option β} (h : ∀ i x, g (f i x) = k x)
    (xs : List α) : (xs.mapIdx f).filterMap g = xs.filterMap k := by
  induction xs generalizing f with
  | nil => rfl
  | cons x xs ih =>
    rw [List.mapIdx_cons, List.filterMap_cons, List.filterMap_cons, h, ih fun i => h (i + 1)]

theorem map_find?_mapIdx {f : Nat → α → α} {p : α → Bool} {g : α → β}
    (hp : ∀ i x, p (f i x) = p x) (hg : ∀ i x, g (f i x) = g x) (xs : List α) :
    ((xs.mapIdx f).find? p).map g = (xs.find? p).map g := by
  induction xs generalizing f with
  | nil => rfl
  | cons x xs ih =>
    rw [List.mapIdx_cons, List.find?_cons, List.find?_cons, hp]
    cases p x with
    | true => exact congrArg some (hg 0 x)
    | false => exact ih (fun i => hp (i + 1)) fun i => hg (i + 1)

/-- Something holds of a member of a list whose members are changed by their places. -/
theorem any_mapIdx_eq_true {f : Nat → α → α} {p : α → Bool} {xs : List α} :
    (xs.mapIdx f).any p = true ↔ ∃ i x, xs[i]? = some x ∧ p (f i x) = true := by
  rw [List.any_eq_true]
  constructor
  · rintro ⟨y, hy, hp⟩
    obtain ⟨i, hi, rfl⟩ := List.mem_mapIdx.1 hy
    exact ⟨i, xs[i], List.getElem?_eq_getElem hi, hp⟩
  · rintro ⟨i, x, hx, hp⟩
    obtain ⟨hi, rfl⟩ := List.getElem?_eq_some_iff.1 hx
    exact ⟨_, List.mem_mapIdx.2 ⟨i, hi, rfl⟩, hp⟩

end

/-- A muted declaration of a rule gets the flag. -/
def UnmutesOne (chosen : Nat → Bool) (r : Rule) : Prop :=
  ∃ j d, r.declarations[j]? = some d ∧ chosen j = true ∧ d.isImportant = false ∧ isMuted d = true

/-- A muted declaration in a focus style of the base gets the flag. -/
def IsUnmuted (chosen : Nat → Nat → Bool) (s : Sheet) (b : List Char) : Prop :=
  ∃ (i : Nat) (r : Rule), s.rules[i]? = some r ∧ hasFocusPseudo r.selector = true ∧
    base r.selector = b ∧ UnmutesOne (chosen i) r

theorem removesOutline_flag_declaration (chosen : Bool) (d : Declaration) :
    removesOutline (if chosen && !d.isImportant then d.flagged else d) = removesOutline d := by
  split
  · next h =>
    rw [Bool.and_eq_true, Bool.not_eq_true'] at h
    exact removesOutline_flagged h.2
  · rfl

theorem showsFocus_flag_declaration (chosen : Bool) (d : Declaration) :
    showsFocus (if chosen && !d.isImportant then d.flagged else d) = true ↔
      showsFocus d = true ∨ (chosen = true ∧ d.isImportant = false ∧ isMuted d = true) := by
  cases chosen with
  | false => simp
  | true =>
    cases h : d.isImportant with
    | true => simp
    | false => simp [showsFocus_flagged h]

theorem any_showsFocus_flag {chosen : Nat → Bool} {r : Rule} :
    (r.flag chosen).declarations.any showsFocus = true ↔
      r.declarations.any showsFocus = true ∨ UnmutesOne chosen r := by
  rw [Rule.flag, any_mapIdx_eq_true, UnmutesOne]
  simp only [showsFocus_flag_declaration, and_or_left, exists_or]
  refine or_congr ⟨?_, ?_⟩ Iff.rfl
  · rintro ⟨j, d, hd, hshows⟩
    exact List.any_eq_true.2 ⟨d, List.mem_of_getElem? hd, hshows⟩
  · intro h
    obtain ⟨d, hd, hshows⟩ := List.any_eq_true.1 h
    obtain ⟨j, hj⟩ := List.getElem?_of_mem hd
    exact ⟨j, d, hj, hshows⟩

theorem removal?_flag (chosen : Nat → Nat → Bool) (s : Sheet) (one : Nat → Bool) (r : Rule) :
    removal? (s.flag chosen) (r.flag one) = removal? s r :=
  map_find?_mapIdx (fun _ _ => removesOutline_flag_declaration _ _)
    (fun _ _ => by split <;> rfl) r.declarations

theorem mem_shownBases {s : Sheet} {b : List Char} :
    b ∈ shownBases s ↔ ∃ (i : Nat) (r : Rule), s.rules[i]? = some r ∧
      hasFocusPseudo r.selector = true ∧ base r.selector = b ∧
      r.declarations.any showsFocus = true := by
  simp only [shownBases, focusRules, List.mem_map, List.mem_filter,
    List.mem_iff_getElem? (l := s.rules)]
  constructor
  · rintro ⟨r, ⟨⟨⟨i, hr⟩, hfocus⟩, hshows⟩, hb⟩
    exact ⟨i, r, hr, hfocus, hb, hshows⟩
  · rintro ⟨i, r, hr, hfocus, hb, hshows⟩
    exact ⟨r, ⟨⟨⟨i, hr⟩, hfocus⟩, hshows⟩, hb⟩

theorem mem_shownBases_flag {chosen : Nat → Nat → Bool} {s : Sheet} {b : List Char} :
    b ∈ shownBases (s.flag chosen) ↔ b ∈ shownBases s ∨ IsUnmuted chosen s b := by
  rw [mem_shownBases, mem_shownBases, IsUnmuted, ← exists_or]
  refine exists_congr fun i => ?_
  have hrule : (s.flag chosen).rules[i]? = s.rules[i]?.map fun r => r.flag (chosen i) :=
    List.getElem?_mapIdx
  rw [hrule]
  cases s.rules[i]? with
  | none => simp
  | some r =>
    simp only [Option.map_some, Option.some.injEq, exists_eq_left', any_showsFocus_flag,
      ← and_or_left]
    rfl

/-- **The flag leaves the findings about removed outlines as they are exactly if it goes to no muted
declaration in a focus style of a base for which one is reported.** -/
theorem removed_flag_iff (chosen : Nat → Nat → Bool) (s : Sheet) :
    removed (s.flag chosen) = removed s ↔
      ∀ r ∈ exposed s, ¬ IsUnmuted chosen s (base r.selector) := by
  have hflag : removed (s.flag chosen) = s.rules.filterMap fun r =>
      if isUnshown (s.flag chosen) r then removal? s r else none := by
    rw [removed_eq]
    refine filterMap_mapIdx (fun i r => ?_) s.rules
    rw [removal?_flag]
    rfl
  have hweaker (r : Rule) (h : isUnshown (s.flag chosen) r = true) : isUnshown s r = true := by
    rw [isUnshown_iff] at h ⊢
    exact ⟨h.1, fun hmem => h.2 (mem_shownBases_flag.2 (.inl hmem))⟩
  rw [hflag, removed_eq, filterMap_ite_eq_iff hweaker]
  simp only [exposed, List.mem_filter, Bool.and_eq_true, and_imp, isSome_removal?]
  refine forall_congr' fun r => forall_congr' fun _ => forall_congr' fun hunshown =>
    forall_congr' fun _ => ?_
  -- the base has no focus style that shows the focus unless the flag makes one
  rw [isUnshown_iff] at hunshown
  rw [isUnshown_iff, mem_shownBases_flag, not_or]
  exact ⟨fun h => h.2.2, fun h => ⟨hunshown.1, hunshown.2, h⟩⟩

/-- A border that is not there conceals that the outline is not there either. -/
theorem removed_flag_border :
    ∃ (s : Sheet) (chosen : Nat → Nat → Bool),
      s.rules.map (fun r => (r.selector, r.declarations.map fun d => (d.name, d.value))) =
        [("a:focus", [("outline", "none"), ("border", "none")])] ∧
      (removed s).length = 1 ∧ removed (s.flag chosen) = [] := by
  let outline : Declaration := ⟨"outline", "none", ⟨1, 9⟩⟩
  let border : Declaration := ⟨"border", "none", ⟨1, 22⟩⟩
  let s : Sheet := { path := "a.css", rules := [⟨"a:focus", [outline, border], none, ⟨1, 1⟩⟩] }
  have hfocus : hasFocusPseudo "a:focus" = true := by decide
  have hborder : border.isImportant = false := by decide
  have houtlineRemoves : removesOutline outline = true := by
    rw [removesOutline_eq (by decide)]
    decide
  have hborderRemoves : removesOutline border = false := by
    rw [removesOutline_eq hborder]
    decide
  have houtlineShows : showsFocus outline = false := by
    rw [showsFocus, houtlineRemoves]
    decide
  have hborderShows : showsFocus border = false := by
    rw [showsFocus, hborderRemoves]
    decide
  have hflaggedRemoves : removesOutline border.flagged = false := by
    rw [removesOutline_flagged hborder, hborderRemoves]
  have hflaggedShows : showsFocus border.flagged = true := by
    rw [showsFocus_flagged hborder, isMuted, hborderRemoves]
    decide
  refine ⟨s, fun _ j => j == 1, rfl, ?_, ?_⟩
  · simp [s, removed, focusRules, *]
  · simp [s, removed, focusRules, Sheet.flag, Rule.flag, *]

end Focus
end SheetAudit
