import SheetAudit.Proofs.Faultless
import SheetAudit.Proofs.Flags
import SheetAudit.Proofs.Judgement
import SheetAudit.Proofs.Situation

/-!
# Style sheets are well formed

The parts of a style sheet are listed kind by kind, and the rules twice: once with their selectors
and once as the classes they define.  Both lists are gathered from the inside of the blocks and
then sorted on their own, so they agree only because neither sorting moves parts of one place.

## Main definitions

* `IsPropertyName`, `IsTrimmed` — how names and values are kept.
* `Sheet.Declares` — a declaration stands in a rule or in a class of the sheet.
* `Sheet.WellFormed` — what holds of every style sheet that was read.

## Main results

* `readDeclaration?_eq_some` — the name and the value of a statement.
* `Node.queries_sublist_places`, `Node.keyframes_sublist_places` — at-rules stand in places of their
  own nodes, so that no two share one.
* `parse_wellFormed` — **every style sheet that is gathered from a source text is well formed.**
-/

namespace SheetAudit

open Source Text

/-! ### Names and values -/

/-- A property name is one word in small letters, without a colon and not that of a custom
property. -/
structure IsPropertyName (name : List Char) : Prop where
  ne_nil : name ≠ []
  word : ∀ c ∈ name, isBlank c = false
  colon : ':' ∉ name
  lower : lowerAscii name = name
  own : ¬ "--".toList <+: name

/-- A text that is not empty and has no blanks at its ends. -/
def IsTrimmed (cs : List Char) : Prop := cs ≠ [] ∧ trim cs = cs

/-- A statement is parted at its first colon into a word and a value. -/
theorem readDeclaration?_eq_some {text : List Cell} {name value : List Char} {pos : Pos}
    (h : readDeclaration? text = some (name, value, pos)) :
    name ≠ [] ∧ (∀ c ∈ name, isBlank c = false) ∧ ':' ∉ name ∧ IsTrimmed value := by
  unfold readDeclaration? at h
  dsimp only at h
  split at h
  · next before after _ hsplit =>
    split at h
    · cases h
    · next hok =>
      obtain ⟨rfl, hvalue, -⟩ : trimRight before = name ∧ trim after = value ∧ _ := by
        simpa only [Option.some.injEq, Prod.mk.injEq] using h
      simp only [Bool.or_eq_true, not_or, List.isEmpty_iff, Bool.not_eq_true,
        List.any_eq_false] at hok
      obtain ⟨⟨hne, hword⟩, hvalueNe⟩ := hok
      refine ⟨hne, hword, fun hcolon => ?_, hvalue ▸ hvalueNe, hvalue ▸ trim_trim after⟩
      -- what stands before the first colon holds none
      rw [Offsets.splitAt?_singleton] at hsplit
      split at hsplit
      · cases hsplit
      · obtain ⟨rfl, -⟩ := Prod.mk.inj (Option.some.inj hsplit)
        have hin := (List.rdropWhile_prefix isBlank _).subset hcolon
        simpa using List.mem_takeWhile_imp hin
  · cases h

theorem isPropertyName_lowerAscii {name : List Char} (hne : name ≠ [])
    (hword : ∀ c ∈ name, isBlank c = false) (hcolon : ':' ∉ name)
    (hown : isVariableName name = false) : IsPropertyName (lowerAscii name) where
  ne_nil := by simpa [lowerAscii] using hne
  word := by
    intro c hc
    obtain ⟨d, hd, rfl⟩ := List.mem_map.1 hc
    rw [Value.isBlank_toLower, hword d hd]
  colon := by
    intro hc
    obtain ⟨d, hd, hlower⟩ := List.mem_map.1 hc
    exact hcolon (Value.eq_of_toLower hlower (by decide) ▸ hd)
  lower := Value.lowerAscii_lowerAscii name
  own := by
    rintro ⟨rest, hrest⟩
    -- no capital has a hyphen for its small form
    have hrest : name.map Char.toLower = '-' :: '-' :: rest := hrest.symm
    obtain ⟨c, cs, rfl, hc, hcs⟩ := List.map_eq_cons_iff.1 hrest
    obtain ⟨d, ds, rfl, hd, -⟩ := List.map_eq_cons_iff.1 hcs
    rw [Value.eq_of_toLower hc (by decide), Value.eq_of_toLower hd (by decide)] at hown
    cases hown

theorem isPropertyName_of_ownDeclaration? {text : List Cell} {d : Declaration}
    (h : ownDeclaration? text = some d) : IsPropertyName d.name.toList ∧ IsTrimmed d.value.toList := by
  obtain ⟨⟨name, value, pos⟩, hread, hd⟩ := Option.bind_eq_some_iff.1 h
  obtain ⟨hne, hword, hcolon, hvalue⟩ := readDeclaration?_eq_some hread
  dsimp only at hd
  split at hd
  · cases hd
  · next hown =>
    obtain rfl := Option.some.inj hd
    simp only [String.toList_ofList]
    exact ⟨isPropertyName_lowerAscii hne hword hcolon (by simpa using hown), hvalue⟩

theorem isVariableName_of_readVariable? {scope : Scope} {text : List Cell} {v : Variable}
    (h : readVariable? scope text = some v) :
    "--".toList <+: v.name.toList ∧ IsTrimmed v.value.toList := by
  obtain ⟨⟨name, value, pos⟩, hread, hv⟩ := Option.bind_eq_some_iff.1 h
  obtain ⟨-, -, -, hvalue⟩ := readDeclaration?_eq_some hread
  dsimp only at hv
  split at hv
  · next hown =>
    obtain rfl := Option.some.inj hv
    simp only [String.toList_ofList]
    exact ⟨List.isPrefixOf_iff_prefix.1 (Bool.and_eq_true_iff.1 hown).1, hvalue⟩
  · cases hv

/-! ### Places of at-rules -/

namespace Node

theorem queries_sublist_places (p : Scope × Node) :
    ((ownQueries p).map (·.pos)).Sublist (places p) := by
  obtain ⟨scope, n⟩ := p
  cases n with
  | statement text => exact List.nil_sublist _
  | block prelude content body =>
    rw [ownQueries.eq_def]
    dsimp only
    split
    · next hrule =>
      obtain ⟨hin, -, hblank⟩ := atRule_infix hrule
      exact List.singleton_sublist.2 (mem_places hin (hblank _ (List.mem_singleton_self _)))
    · exact List.nil_sublist _

theorem keyframes_sublist_places (p : Scope × Node) :
    ((ownKeyframes p).map (·.pos)).Sublist (places p) := by
  obtain ⟨scope, n⟩ := p
  cases n with
  | statement text => exact List.nil_sublist _
  | block prelude content body =>
    rw [ownKeyframes.eq_def]
    dsimp only
    split
    · next hrule =>
      obtain ⟨hin, -, hblank⟩ := atRule_infix hrule
      exact List.singleton_sublist.2 (mem_places hin (hblank _ (List.mem_singleton_self _)))
    · exact List.nil_sublist _

end Node

/-! ### Whole sheets -/

namespace Sheet

/-- A declaration stands in a rule or in a class of the sheet. -/
def Declares (s : Sheet) (d : Declaration) : Prop :=
  (∃ r ∈ s.rules, d ∈ r.declarations) ∨ ∃ c ∈ s.classes, d ∈ c.declarations

/-- What holds of the parts of a style sheet that was read. -/
structure WellFormed (s : Sheet) : Prop where
  /-- A rule defines the class that its subject names, and no class comes from elsewhere. -/
  classes : s.classes = s.rules.filterMap Rule.class?
  declarations_ne_nil : ∀ r ∈ s.rules, r.declarations ≠ []
  declarations : ∀ d, s.Declares d → IsPropertyName d.name.toList ∧ IsTrimmed d.value.toList
  customProperties : ∀ v ∈ s.customProperties,
    "--".toList <+: v.name.toList ∧ IsTrimmed v.value.toList
  customProperties_sorted : s.customProperties.Pairwise fun v w => v.pos.le w.pos = true
  rules_sorted : s.rules.Pairwise fun r r' => r.pos.le r'.pos = true
  classes_sorted : s.classes.Pairwise fun c c' => c.pos.le c'.pos = true
  mediaQueries_ordered : s.mediaQueries.Pairwise fun m m' => m.pos.Before m'.pos
  keyframes_ordered : s.keyframes.Pairwise fun k k' => k.pos.Before k'.pos
  /-- A place belongs to one declaration, however many rules it is copied into. -/
  declarations_eq : ∀ d d', s.Declares d → s.Declares d' → d.pos = d'.pos →
    d.name = d'.name ∧ d.value = d'.value

/-- The declarations of a class are those of the rule that defines it. -/
theorem declares_iff {s : Sheet} (h : s.classes = s.rules.filterMap Rule.class?)
    (d : Declaration) : s.Declares d ↔ ∃ r ∈ s.rules, d ∈ r.declarations := by
  refine or_iff_left_of_imp ?_
  rintro ⟨c, hc, hd⟩
  rw [h] at hc
  obtain ⟨r, hr, hc⟩ := List.mem_filterMap.1 hc
  obtain ⟨name, -, rfl⟩ := Option.map_eq_some_iff.1 hc
  exact ⟨r, hr, hd⟩

end Sheet

theorem parse_eq_ok_of_offsets {path source : String} {s : Sheet}
    (h : Offsets.parse path source = .ok s) : Sheet.parse path source = .ok s := by
  rw [Offsets.parse_eq] at h
  cases hread : Sheet.parse path source with
  | error e =>
    rw [hread] at h
    cases h
  | ok s' =>
    rw [hread] at h
    exact congrArg Except.ok (Except.ok.inj h)

theorem declaration_of_mem_rulesIn {nodes : List Node} {r : Rule} {d : Declaration}
    (hr : r ∈ Node.rulesIn {} nodes) (hd : d ∈ r.declarations) :
    IsPropertyName d.name.toList ∧ IsTrimmed d.value.toList := by
  obtain ⟨scope, text, -, hdt⟩ := mem_walkIn_of_declaration hr hd
  exact isPropertyName_of_ownDeclaration? hdt

theorem declarations_ne_nil_of_mem_rulesIn {nodes : List Node} {r : Rule}
    (hr : r ∈ Node.rulesIn {} nodes) : r.declarations ≠ [] := by
  rw [Node.rulesIn_eq] at hr
  obtain ⟨⟨scope, n⟩, -, hr⟩ := List.mem_flatMap.1 hr
  cases n with
  | statement text => exact absurd hr List.not_mem_nil
  | block prelude content body =>
    rw [Node.directRules, ownRules] at hr
    split at hr
    · exact absurd hr List.not_mem_nil
    · next hne =>
      obtain ⟨head, -, rfl⟩ := List.mem_map.1 hr
      simpa using hne

theorem variable_of_mem_customPropertiesIn {nodes : List Node} {v : Variable}
    (hv : v ∈ Node.customPropertiesIn {} nodes) :
    "--".toList <+: v.name.toList ∧ IsTrimmed v.value.toList := by
  rw [Node.customPropertiesIn_eq] at hv
  obtain ⟨⟨scope, n⟩, -, hv⟩ := List.mem_flatMap.1 hv
  cases n with
  | statement text => exact isVariableName_of_readVariable? (Option.mem_toList.1 hv)
  | block prelude content body => exact absurd hv List.not_mem_nil

/-- **Every style sheet that is gathered from a source text is well formed.** -/
theorem parse_wellFormed {path source : String} {s : Sheet}
    (h : Offsets.parse path source = .ok s) : s.WellFormed := by
  have hparse := parse_eq_ok_of_offsets h
  obtain ⟨nodes, hnodes, hs⟩ := parse_eq_ok hparse
  obtain ⟨xs, hxs, hreads⟩ := readTree_eq_ok hnodes
  have hsorted := hs.trans (sortParts_gather hxs hreads path).symm
  have hclasses : s.classes = s.rules.filterMap Rule.class? := by rw [hs, Sheet.ofNodes]
  have hdeclares := Sheet.declares_iff hclasses
  have hrules : s.rules = Node.rulesIn {} nodes := by rw [hs, Sheet.ofNodes]
  -- the lists are in order because they were sorted
  have hsort {α : Type} (key : α → Pos) (parts : List α) :
      (parts.mergeSort fun a b => (key a).le (key b)).Pairwise
        fun a b => (key a).le (key b) = true :=
    List.pairwise_mergeSort (fun a b c => Pos.le_trans (key a) (key b) (key c))
      (fun a b => Pos.le_total (key a) (key b)) parts
  exact
    { classes := hclasses
      declarations_ne_nil := by
        rw [hrules]
        exact fun r => declarations_ne_nil_of_mem_rulesIn
      declarations := by
        intro d hd
        obtain ⟨r, hr, hd⟩ := (hdeclares d).1 hd
        exact declaration_of_mem_rulesIn (hrules ▸ hr) hd
      customProperties := by
        rw [hs]
        exact fun v => variable_of_mem_customPropertiesIn
      customProperties_sorted := by
        rw [hsorted]
        exact hsort Variable.pos _
      rules_sorted := by
        rw [hsorted]
        exact hsort Rule.pos _
      classes_sorted := by
        rw [hsorted]
        exact hsort StyledClass.pos _
      mediaQueries_ordered := by
        rw [hs, Sheet.ofNodes, Node.mediaQueriesIn_eq {}]
        exact hreads.pairwise_parts hxs Node.queries_sublist_places
      keyframes_ordered := by
        rw [hs, Sheet.ofNodes, Node.keyframesIn_eq {}]
        exact hreads.pairwise_parts hxs Node.keyframes_sublist_places
      declarations_eq := by
        intro d d' hd hd' hpos
        obtain ⟨r, hr, hd⟩ := (hdeclares d).1 hd
        obtain ⟨r', hr', hd'⟩ := (hdeclares d').1 hd'
        obtain rfl := declaration_eq_of_pos_eq hparse hr hr' hd hd' hpos
        exact ⟨rfl, rfl⟩ }

/-- Two selectors with a nested rule, whose rules are gathered from the inside and sorted. -/
theorem wellFormed_nested : ∃ s, Offsets.parse "a.css" ".b,c\x7bd\x7be:f\x7dG:h\x7d" = .ok s ∧
    s.rules.map (·.pos) = [⟨1, 1⟩, ⟨1, 4⟩, ⟨1, 6⟩, ⟨1, 6⟩] ∧ s.classes.map (·.pos) = [⟨1, 1⟩] ∧
      s.WellFormed := by
  have hplaces : (Sheet.parse "a.css" ".b,c\x7bd\x7be:f\x7dG:h\x7d").toOption.map
      (fun s => (s.rules.map (·.pos), s.classes.map (·.pos))) =
        some ([⟨1, 1⟩, ⟨1, 4⟩, ⟨1, 6⟩, ⟨1, 6⟩], [⟨1, 1⟩]) := by
    cbv
  cases hparse : Sheet.parse "a.css" ".b,c\x7bd\x7be:f\x7dG:h\x7d" with
  | error e =>
    rw [hparse] at hplaces
    cases hplaces
  | ok s =>
    rw [hparse] at hplaces
    obtain ⟨hrules, hclasses⟩ := Prod.mk.inj (Option.some.inj hplaces)
    have hoffsets : Offsets.parse "a.css" ".b,c\x7bd\x7be:f\x7dG:h\x7d" = .ok s := by
      rw [Offsets.parse_eq, hparse]
      rfl
    exact ⟨s, hoffsets, hrules, hclasses, parse_wellFormed hoffsets⟩

end SheetAudit
