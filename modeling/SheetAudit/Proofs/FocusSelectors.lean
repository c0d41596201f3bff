import SheetAudit.Proofs.FocusFindings
import SheetAudit.Proofs.Values

/-!
# Selectors for the focus

A rule styles the focus if its selector carries `:focus`, `:focus-visible` or `:focus-within` as a
pseudo-class: outside parentheses and brackets, and with nothing that makes the name longer.  The
rules about the focus only look for the text of such a pseudo-class.

## Main definitions

* `Reader` — what a reader of a selector knows about the place where it is.
* `CarriesFocus` — the selector carries a pseudo-class for the focus.
* `Focus.ByPseudoClass` — the findings are those that the pseudo-classes of the selectors call for.

## Main results

* `hasFocusPseudo_iff` — what is looked for is the shortest of the pseudo-classes, anywhere.
* `missing_eq_iff`, `removed_carries_iff` — when the findings of either kind are right.
* `byPseudoClass_iff` — **the findings are those of the pseudo-classes exactly if the text of one
  does not stand for a style that is missing, and every reported rule carries one.**
-/

namespace SheetAudit

open Text Selector

/-! ### Reading a selector -/

/-- What a reader of a selector knows about the place where it is. -/
structure Reader where
  /-- The number of parentheses and brackets that are open. -/
  depth : Nat := 0
  /-- The quotation mark of the string that is open. -/
  quote : Option Char := none
  /-- A backslash stands before. -/
  escaped : Bool := false
  /-- A colon stands before, which makes what follows a pseudo-element. -/
  colon : Bool := false

namespace Reader

def next (m : Reader) (c : Char) : Reader :=
  if m.escaped then { m with escaped := false, colon := false }
  else if c == '\\' then { m with escaped := true, colon := false }
  else
    match m.quote with
    | some q => { m with quote := if c == q then none else some q }
    | none =>
      if c == '"' || c == '\'' then { m with quote := some c, colon := false }
      else { m with depth := deepen m.depth c, colon := c == ':' }

/-- A pseudo-class may begin. -/
def isTop (m : Reader) : Bool := m.depth == 0 && m.quote.isNone && !m.escaped && !m.colon

end Reader

/-- Makes a name longer, or is the parenthesis of its arguments. -/
def continuesName (c : Char) : Bool := isNameChar c || !isAscii c || c == '\\' || c == '('

/-- The text begins with a pseudo-class for the focus that is complete. -/
def StartsFocus (cs : List Char) : Prop :=
  ∃ word ∈ Property.focusPseudoClasses, ∃ after, word.toList ++ after = cs ∧
    ∀ c ∈ after.head?, continuesName c = false

/-- The selector carries `:focus`, `:focus-visible` or `:focus-within` as a complete pseudo-class
outside parentheses and brackets. -/
def CarriesFocus (selector : String) : Prop :=
  ∃ before rest, selector.toList = before ++ rest ∧ (before.foldl Reader.next {}).isTop = true ∧
    StartsFocus rest

def startsFocus (cs : List Char) : Bool :=
  Property.focusPseudoClasses.any fun word =>
    (word.toList.isPrefixOf? cs).any fun after => after.head?.all fun c => !continuesName c

def carriesFocusFrom (m : Reader) : List Char → Bool
  | [] => false
  | c :: cs => (m.isTop && startsFocus (c :: cs)) || carriesFocusFrom (m.next c) cs

theorem startsFocus_iff {cs : List Char} : startsFocus cs = true ↔ StartsFocus cs := by
  simp only [startsFocus, StartsFocus, List.any_eq_true, Option.any_eq_true, Option.all_eq_true,
    Bool.not_eq_true', List.isPrefixOf?_eq_some_iff_append_eq, Option.mem_def]

theorem carriesFocusFrom_iff {m : Reader} {cs : List Char} :
    carriesFocusFrom m cs = true ↔
      ∃ before rest, cs = before ++ rest ∧ (before.foldl Reader.next m).isTop = true ∧
        StartsFocus rest := by
  induction cs generalizing m with
  | nil =>
    refine iff_of_false Bool.false_ne_true ?_
    rintro ⟨before, rest, heq, -, hstarts⟩
    rw [(List.append_eq_nil_iff.1 heq.symm).2] at hstarts
    exact absurd (startsFocus_iff.2 hstarts) (by decide)
  | cons c cs ih =>
    rw [carriesFocusFrom, Bool.or_eq_true, Bool.and_eq_true, startsFocus_iff, ih]
    constructor
    · rintro (⟨htop, hstarts⟩ | ⟨before, rest, rfl, htop, hstarts⟩)
      · exact ⟨[], c :: cs, rfl, htop, hstarts⟩
      · exact ⟨c :: before, rest, rfl, htop, hstarts⟩
    · rintro ⟨before, rest, heq, htop, hstarts⟩
      cases before with
      | nil =>
        obtain rfl : c :: cs = rest := heq
        exact .inl ⟨htop, hstarts⟩
      | cons d before =>
        obtain ⟨rfl, rfl⟩ := List.cons.inj heq
        exact .inr ⟨before, rest, rfl, htop, hstarts⟩

instance (selector : String) : Decidable (CarriesFocus selector) :=
  decidable_of_iff (carriesFocusFrom {} selector.toList = true) carriesFocusFrom_iff

/-- A pseudo-class that is negated, quoted or has a longer name does not count. -/
example : CarriesFocus "a > b:hover:focus-visible" ∧ ¬ CarriesFocus "a:not(:focus)" ∧
    ¬ CarriesFocus "a[title=\":focus\"]" ∧ ¬ CarriesFocus "a:focus-ring" := by
  decide

namespace Focus

/-! ### What is looked for -/

/-- Every one of the pseudo-classes has the text of the shortest. -/
theorem hasFocusPseudo_iff {selector : String} :
    hasFocusPseudo selector = true ↔ ":focus".toList <:+: selector.toList := by
  have hshortest : ∀ word ∈ Property.focusPseudoClasses, ":focus".toList <+: word.toList := by decide
  simp only [hasFocusPseudo, List.any_eq_true, includes, contains_iff]
  constructor
  · rintro ⟨word, hword, hinfix⟩
    exact (hshortest word hword).isInfix.trans hinfix
  · exact fun hinfix => ⟨":focus", by decide, hinfix⟩

theorem hasFocusPseudo_of_carriesFocus {selector : String} (h : CarriesFocus selector) :
    hasFocusPseudo selector = true := by
  obtain ⟨before, rest, heq, -, word, hword, after, rfl, -⟩ := h
  refine List.any_eq_true.2 ⟨word, hword, ?_⟩
  rw [includes, contains_iff, heq, ← List.append_assoc]
  exact List.infix_append before word.toList after

/-! ### The findings that are called for -/

/-- The bases with a selector that carries a pseudo-class for the focus. -/
def carryingBases (s : Sheet) : List (List Char) :=
  (s.rules.filter fun r => CarriesFocus r.selector).map fun r => base r.selector

/-- The first rule of every interactive base none of whose selectors carries a pseudo-class for the
focus. -/
def bareRules (s : Sheet) : List Rule :=
  (Repeats.firsts (fun r => base r.selector) s.rules).filter fun r =>
    isInteractive (base r.selector) && !(carryingBases s).contains (base r.selector)

/-- The findings are those that the pseudo-classes of the selectors call for. -/
structure ByPseudoClass (s : Sheet) : Prop where
  missing : missing s = (bareRules s).map (missingStyle s)
  removed : ∀ i ∈ removed s, ∃ r ∈ s.rules, CarriesFocus r.selector ∧
    ∃ d ∈ r.declarations, i = removedOutline s r d

theorem mem_carryingBases {s : Sheet} {b : List Char} :
    b ∈ carryingBases s ↔ ∃ r ∈ s.rules, CarriesFocus r.selector ∧ base r.selector = b := by
  simp only [carryingBases, List.mem_map, List.mem_filter, decide_eq_true_eq, and_assoc]

theorem mem_styledBases {s : Sheet} {b : List Char} :
    b ∈ styledBases s ↔ ∃ r ∈ s.rules, hasFocusPseudo r.selector = true ∧ base r.selector = b := by
  simp only [styledBases, focusRules, List.mem_map, List.mem_filter, and_assoc]

theorem mem_styledBases_of_mem_carryingBases {s : Sheet} {b : List Char}
    (h : b ∈ carryingBases s) : b ∈ styledBases s := by
  obtain ⟨r, hr, hcarries, hb⟩ := mem_carryingBases.1 h
  exact mem_styledBases.2 ⟨r, hr, hasFocusPseudo_of_carriesFocus hcarries, hb⟩

theorem missing_eq_iff (s : Sheet) :
    missing s = (bareRules s).map (missingStyle s) ↔
      ∀ r ∈ s.rules, isInteractive (base r.selector) = true → base r.selector ∈ styledBases s →
        base r.selector ∈ carryingBases s := by
  have hbare : (bareRules s).map (missingStyle s) =
      (Repeats.firsts (fun r => base r.selector) s.rules).filterMap fun r =>
        if isInteractive (base r.selector) && !(carryingBases s).contains (base r.selector) then
          some (missingStyle s r)
        else none := by
    rw [bareRules, ← List.filterMap_eq_map, List.filterMap_filter]
    rfl
  have hfewer (r : Rule)
      (h : (isInteractive (base r.selector) && !(styledBases s).contains (base r.selector)) = true) :
      (isInteractive (base r.selector) && !(carryingBases s).contains (base r.selector)) = true := by
    rw [and_not_contains_iff] at h ⊢
    exact ⟨h.1, fun hmem => h.2 (mem_styledBases_of_mem_carryingBases hmem)⟩
  rw [missing_eq, hbare, filterMap_ite_eq_iff hfewer]
  -- whether a rule is right depends on its base only, and every base has a first rule
  constructor
  · intro h r hr hinteractive hstyled
    obtain ⟨first, hfirst, hbase⟩ := Repeats.exists_mem_firsts (fun r : Rule => base r.selector) hr
    simp only [and_not_contains_iff] at h
    have hchosen := h first hfirst
    rw [hbase] at hchosen
    by_contra hnot
    exact (hchosen ⟨hinteractive, hnot⟩ rfl).2 hstyled
  · intro h first hfirst hbare _
    rw [and_not_contains_iff] at hbare ⊢
    refine ⟨hbare.1, fun hstyled => hbare.2 (h first ?_ hbare.1 hstyled)⟩
    exact (Repeats.firsts_sublist _ _).mem hfirst

/-- What is reported of an outline names the selector. -/
theorem selector_eq_of_removedOutline_eq {s : Sheet} {r r' : Rule} {d d' : Declaration}
    (h : removedOutline s r d = removedOutline s r' d') : r.selector = r'.selector := by
  have hsample := Option.some.inj (congrArg Issue.sample h)
  injection hsample with hbefore
  exact String.append_left_inj _ |>.1 hbefore

theorem mem_removed {s : Sheet} {i : Issue} :
    i ∈ removed s ↔ ∃ r ∈ exposed s, ∃ d,
      r.declarations.find? removesOutline = some d ∧ removedOutline s r d = i := by
  have hite (r : Rule) : (if isUnshown s r then removal? s r else none) = some i ↔
      isUnshown s r = true ∧ removal? s r = some i := by
    split <;> simp [*]
  rw [removed_eq, List.mem_filterMap]
  simp only [hite, exposed, List.mem_filter, Bool.and_eq_true, ← isSome_removal? s]
  simp only [removal?, Option.isSome_map, Option.map_eq_some_iff, Option.isSome_iff_exists]
  constructor
  · rintro ⟨r, hr, hunshown, d, hd, hi⟩
    exact ⟨r, ⟨hr, hunshown, d, hd⟩, d, hd, hi⟩
  · rintro ⟨r, ⟨hr, hunshown, -⟩, d, hd, hi⟩
    exact ⟨r, hr, hunshown, d, hd, hi⟩

theorem removed_carries_iff (s : Sheet) :
    (∀ i ∈ removed s, ∃ r ∈ s.rules, CarriesFocus r.selector ∧
        ∃ d ∈ r.declarations, i = removedOutline s r d) ↔
      ∀ r ∈ exposed s, CarriesFocus r.selector := by
  constructor
  · intro h r hr
    obtain ⟨d, hd, hremoves⟩ := List.any_eq_true.1 (Bool.and_eq_true _ _ ▸ (List.mem_filter.1 hr).2).2
    obtain ⟨outline, houtline⟩ := Option.isSome_iff_exists.1
      (List.find?_isSome.2 ⟨d, hd, hremoves⟩)
    obtain ⟨r', -, hcarries, d', -, heq⟩ :=
      h _ (mem_removed.2 ⟨r, hr, outline, houtline, rfl⟩)
    rw [selector_eq_of_removedOutline_eq heq]
    exact hcarries
  · intro h i hi
    obtain ⟨r, hr, d, hd, rfl⟩ := mem_removed.1 hi
    exact ⟨r, (List.mem_filter.1 hr).1, h r hr, d, List.mem_of_find?_eq_some hd, rfl⟩

/-- **The findings are those of the pseudo-classes exactly if no interactive base has the text of a
pseudo-class for the focus in its selectors without carrying one, and every rule that is reported
carries one.** -/
theorem byPseudoClass_iff (s : Sheet) :
    ByPseudoClass s ↔
      (∀ r ∈ s.rules, isInteractive (base r.selector) = true → base r.selector ∈ styledBases s →
        base r.selector ∈ carryingBases s) ∧
      ∀ r ∈ exposed s, CarriesFocus r.selector := by
  rw [← missing_eq_iff, ← removed_carries_iff]
  exact ⟨fun h => ⟨h.missing, h.removed⟩, fun h => ⟨h.1, h.2⟩⟩

/-- A button without a style for the focus is passed over if some style is not for the focus. -/
theorem negated_focus_counts :
    ∃ s : Sheet, s.rules.map (·.selector) = ["button:not(:focus)"] ∧ missing s = [] ∧
      ¬ ByPseudoClass s := by
  let r : Rule := ⟨"button:not(:focus)", [⟨"color", "red", ⟨1, 20⟩⟩], none, ⟨1, 1⟩⟩
  let s : Sheet := { path := "a.css", rules := [r] }
  have hbase : base r.selector = "button".toList := by decide +kernel
  have hfocus : hasFocusPseudo r.selector = true := by decide
  have hcarries : ¬ CarriesFocus r.selector := by decide
  have hinteractive : isInteractive "button".toList = true := by decide
  have hstyled : base r.selector ∈ styledBases s :=
    mem_styledBases.2 ⟨r, List.mem_singleton_self r, hfocus, rfl⟩
  refine ⟨s, rfl, ?_, fun h => ?_⟩
  · rw [missing_eq]
    refine List.filterMap_eq_nil_iff.2 fun r' hr' => if_neg fun hmissing => ?_
    rw [List.mem_singleton.1 ((Repeats.firsts_sublist _ _).mem hr')] at hmissing
    exact (and_not_contains_iff.1 hmissing).2 hstyled
  · have hcarrying := (missing_eq_iff s).1 h.missing r (List.mem_singleton_self r)
      (hbase ▸ hinteractive) hstyled
    obtain ⟨r', hr', hcarries', -⟩ := mem_carryingBases.1 hcarrying
    rw [List.mem_singleton.1 hr'] at hcarries'
    exact hcarries hcarries'

end Focus
end SheetAudit
