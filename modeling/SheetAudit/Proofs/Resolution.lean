import SheetAudit.Color.Resolver
import SheetAudit.Proofs.Closing

/-!
# What references to colors denote

A value is a literal text or a single reference, to a custom property and possibly with a fallback
that is a value again.  What a value denotes is given here by derivations, without a search through
its text: a literal denotes its color, and a reference what it leads to.

## Main definitions

* `IsLiteral`, `RefersTo`, `IsValue` — the texts of values.
* `Chosen` — the declaration of a property that counts.
* `Leads` — from a reference to the value that it stands for.
* `Denotes` — a value denotes a color after a number of references.

## Main results

* `RefersTo.reads` — the readers of a reference find its name and its fallback.
* `chosen?_eq_some_iff` — the search for a declaration finds the one that counts.
* `Leads.unique` — a reference leads to one value.
* `resolve_denotes` — **a value resolves to what it denotes within eight references, and to nothing
  if its references run in a circle.**
-/

namespace SheetAudit
namespace Color

open Text Value

/-! ### The texts of values -/

/-- The name of a property holds no white space, no commas and no parentheses. -/
structure IsName (name : List Char) : Prop where
  ne_nil : name ≠ []
  plain : ∀ c ∈ name, isBlank c = false ∧ c ≠ ',' ∧ c ≠ '(' ∧ c ≠ ')'

instance (name : List Char) : Decidable (IsName name) :=
  decidable_of_iff
    (name ≠ [] ∧ name.all (fun c => !isBlank c && c != ',' && c != '(' && c != ')') = true)
    ⟨fun h => ⟨h.1, by simpa [and_assoc] using h.2⟩, fun h => ⟨h.1, by simpa [and_assoc] using h.2⟩⟩

/-- A trimmed text with balanced parentheses that does not begin with a reference. -/
structure IsLiteral (text : List Char) : Prop where
  trimmed : trim text = text
  balanced : Balanced text
  noReference : reference? text = none

instance (text : List Char) : Decidable (IsLiteral text) :=
  decidable_of_iff (trim text = text ∧ Balanced text ∧ reference? text = none)
    ⟨fun h => ⟨h.1, h.2.1, h.2.2⟩, fun h => ⟨h.1, h.2, h.3⟩⟩

/-- The arguments of a reference: the name of a property, and possibly a fallback. -/
inductive Arguments : (held name : List Char) → (fallback : Option (List Char)) → Prop where
  | bare {left name right : List Char} (blank : Blanks left) (named : IsName name)
      (blank' : Blanks right) : Arguments (left ++ (name ++ right)) name none
  | withFallback {front name left fallback right : List Char} (before : Arguments front name none)
      (blank : Blanks left) (trimmed : trim fallback = fallback) (balanced : Balanced fallback)
      (blank' : Blanks right) :
      Arguments (front ++ ',' :: (left ++ (fallback ++ right))) name (some fallback)

/-- A reference in small letters, with its name and its fallback. -/
def RefersTo (value name : List Char) (fallback : Option (List Char)) : Prop :=
  ∃ held, value = "var(".toList ++ (held ++ [')']) ∧ Arguments held name fallback

/-- A literal, or a reference whose fallback is a value. -/
inductive IsValue : List Char → Prop where
  | literal {text : List Char} (h : IsLiteral text) : IsValue text
  | reference {value name : List Char} {fallback : Option (List Char)}
      (refers : RefersTo value name fallback) (inner : ∀ f ∈ fallback, IsValue f) : IsValue value

/-! ### What a value denotes -/

/-- The last of a list that satisfies `p`. -/
def IsLast {α : Type} (p : α → Prop) (xs : List α) (x : α) : Prop :=
  ∃ before after, xs = before ++ x :: after ∧ p x ∧ ∀ y ∈ after, ¬ p y

/-- The declaration of a property that counts: the last one outside dark themes and, only if there
is none, the last one for dark themes. -/
inductive Chosen (declared : List Variable) (name : List Char) (v : Variable) : Prop where
  | light (last : IsLast (fun u => u.isDark = false ∧ u.name.toList = name) declared v)
  | dark (noLight : ∀ u ∈ declared, u.name.toList = name → u.isDark = true)
      (last : IsLast (fun u => u.name.toList = name) declared v)

/-- A reference leads to the declaration of its property that counts, or to its fallback if the
property is not declared. -/
inductive Leads (declared : List Variable) : (value image : List Char) → Prop where
  | declared {value name : List Char} {fallback : Option (List Char)} {v : Variable}
      (refers : RefersTo value name fallback) (chosen : Chosen declared name v) :
      Leads declared value v.value.toList
  | fallback {value name fallback : List Char} (refers : RefersTo value name (some fallback))
      (undeclared : ∀ u ∈ declared, u.name.toList ≠ name) : Leads declared value fallback

/-- A value denotes a color by a derivation with a number of references. -/
inductive Denotes (declared : List Variable) :
    (references : Nat) → (value : List Char) → Rgb → Prop where
  | literal {text : List Char} {c : Rgb} (h : IsLiteral text) (color : parse? text = some c) :
      Denotes declared 0 text c
  | reference {n : Nat} {value image : List Char} {c : Rgb} (leads : Leads declared value image)
      (rest : Denotes declared n image c) : Denotes declared (n + 1) value c

/-! ### Reading a reference -/

section

variable {held name value : List Char} {fallback : Option (List Char)}

theorem IsName.trimmed (h : IsName name) : trim name = name :=
  trim_eq_self (fun c hc => (h.plain c (List.mem_of_mem_head? hc)).1)
    fun c hc => (h.plain c (List.mem_of_getLast? hc)).1

theorem Arguments.named (h : Arguments held name fallback) : IsName name := by
  cases h with
  | bare _ named _ => exact named
  | withFallback before =>
    cases before with
    | bare _ named _ => exact named

/-- The arguments before the comma hold no comma and no parentheses. -/
theorem Arguments.plain (h : Arguments held name none) :
    trim held = name ∧ ∀ c ∈ held, c ≠ ',' ∧ c ≠ '(' ∧ c ≠ ')' := by
  cases h with
  | @bare left _ right blank named blank' =>
    refine ⟨trim_append blank blank' named.trimmed, fun c hc => ?_⟩
    rcases List.mem_append.1 hc with hc | hc
    · exact ⟨blank.ne (by decide) c hc, blank.ne (by decide) c hc, blank.ne (by decide) c hc⟩
    rcases List.mem_append.1 hc with hc | hc
    · exact (named.plain c hc).2
    · exact ⟨blank'.ne (by decide) c hc, blank'.ne (by decide) c hc, blank'.ne (by decide) c hc⟩

theorem Arguments.balanced (h : Arguments held name fallback) : Balanced held := by
  have hplain {front : List Char} (h : Arguments front name none) : Balanced front :=
    balanced_of_forall fun c hc => (h.plain.2 c hc).2
  cases h with
  | bare blank named blank' => exact hplain (.bare blank named blank')
  | withFallback before blank trimmed balanced blank' =>
    have hcomma : Balanced [','] := by decide
    exact (hplain before).append (hcomma.append (blank.balanced.append
      (balanced.append blank'.balanced)))

theorem afterComma?_append {front : List Char} (h : ∀ c ∈ front, c ≠ ',' ∧ c ≠ '(' ∧ c ≠ ')')
    (depth : Nat) (cs : List Char) : afterComma? depth (front ++ cs) = afterComma? depth cs := by
  induction front with
  | nil => rfl
  | cons c front ih =>
    obtain ⟨⟨hcomma, hopen, hclose⟩, hfront⟩ := List.forall_mem_cons.1 h
    rw [List.cons_append, afterComma?, if_neg (by simp [hcomma]), if_neg (by simpa using hopen),
      if_neg (by simpa using hclose), ih hfront]

/-- The readers of arguments find the name and the fallback. -/
theorem Arguments.reads (h : Arguments held name fallback) :
    referredName held = name ∧ (afterComma? 0 held).map trim = fallback := by
  have hname {front : List Char} (h : Arguments front name none) (rest : List Char) :
      (front ++ rest).takeWhile (· != ',') = front ++ rest.takeWhile (· != ',') :=
    List.takeWhile_append_of_pos fun c hc => by simpa using (h.plain.2 c hc).1
  cases h with
  | @bare left _ right blank named blank' =>
    have hbare := Arguments.bare blank named blank'
    have hcomma := afterComma?_append hbare.plain.2 0 []
    have htake := hname hbare []
    rw [List.append_nil] at hcomma htake
    rw [List.takeWhile_nil, List.append_nil] at htake
    exact ⟨by rw [referredName, htake, hbare.plain.1], by rw [hcomma]; rfl⟩
  | @withFallback front _ left fallback right before blank trimmed balanced blank' =>
    constructor
    · rw [referredName, hname before, List.takeWhile_cons_of_neg (by simp), List.append_nil,
        before.plain.1]
    · rw [afterComma?_append before.plain.2, afterComma?, if_pos (by decide), Option.map_some,
        trim_append blank blank' trimmed]

theorem RefersTo.trimmed (h : RefersTo value name fallback) : trim value = value := by
  obtain ⟨held, rfl, -⟩ := h
  refine trim_eq_self (fun c hc => ?_) fun c hc => ?_
  · obtain rfl : 'v' = c := Option.some.inj hc
    decide
  · rw [← List.append_assoc, List.getLast?_concat] at hc
    obtain rfl := Option.some.inj hc
    decide

theorem RefersTo.balanced (h : RefersTo value name fallback) : Balanced value := by
  obtain ⟨held, rfl, hheld⟩ := h
  have hword : Balanced ['v', 'a', 'r'] := by decide
  exact hword.append hheld.balanced.enclose

/-- The readers of a reference find its name and its fallback. -/
theorem RefersTo.reads (h : RefersTo value name fallback) :
    (reference? value).isSome = true ∧ (references value).head? = some name ∧
      fallback? value = fallback := by
  have htrimmed := h.trimmed
  obtain ⟨held, rfl, hheld⟩ := h
  obtain ⟨hname, hfallback⟩ := hheld.reads
  have href : reference? ("var(".toList ++ (held ++ [')'])) = some (held ++ [')']) :=
    reference?_eq_some_iff.2 ⟨_, rfl, rfl⟩
  have htake : takeArguments 0 (held ++ [')']) = (held, []) := hheld.balanced.takeArguments_eq []
  refine ⟨by rw [href]; rfl, ?_, ?_⟩
  · have hne : referredName held ≠ [] := hname ▸ hheld.named.ne_nil
    have hhead := head?_references href (by rw [htake]; exact hne)
    rwa [htake, hname] at hhead
  · have hbegins : "var(".toList.isPrefixOf? ("var(".toList ++ (held ++ [')'])) =
        some (held ++ [')']) := rfl
    rw [fallback?, htrimmed, hbegins, Option.bind_eq_bind, Option.bind_some, List.reverse_concat]
    change (afterComma? 0 held.reverse.reverse).map trim = fallback
    rwa [List.reverse_reverse]

end

/-! ### The texts of values -/

theorem IsValue.trimmed {value : List Char} (h : IsValue value) : trim value = value := by
  cases h with
  | literal h => exact h.trimmed
  | reference refers => exact refers.trimmed

/-- A value that is a reference is no literal, and its fallback is a value. -/
theorem IsValue.of_refersTo {value name : List Char} {fallback : Option (List Char)}
    (h : IsValue value) (hrefers : RefersTo value name fallback) : ∀ f ∈ fallback, IsValue f := by
  obtain ⟨href, -, hfallback⟩ := hrefers.reads
  cases h with
  | literal h =>
    rw [h.noReference] at href
    cases href
  | reference refers inner => rwa [← hfallback, refers.reads.2.2]

/-! ### Declarations that count -/

section

variable {declared : List Variable} {name : List Char}

theorem find?_reverse_eq_some_iff {α : Type} {p : α → Bool} {xs : List α} {x : α} :
    xs.reverse.find? p = some x ↔ IsLast (fun y => p y = true) xs x := by
  rw [List.find?_eq_some_iff_append]
  constructor
  · rintro ⟨hx, back, front, heq, hback⟩
    refine ⟨front.reverse, back.reverse, ?_, hx,
      fun y hy => by simpa using hback y (by simpa using hy)⟩
    rw [← List.reverse_reverse xs, heq]
    simp
  · rintro ⟨front, back, rfl, hx, hback⟩
    exact ⟨hx, back.reverse, front.reverse, by simp,
      fun y hy => by simpa using hback y (by simpa using hy)⟩

theorem IsLast.unique {α : Type} {p : α → Prop} {xs : List α} {x y : α} (hx : IsLast p xs x)
    (hy : IsLast p xs y) : x = y := by
  classical
  have hfind {z : α} (hz : IsLast p xs z) : xs.reverse.find? (fun z => decide (p z)) = some z :=
    find?_reverse_eq_some_iff.2 (by simpa using hz)
  exact Option.some.inj ((hfind hx).symm.trans (hfind hy))

theorem chosen?_eq : chosen? declared name =
    ((declared.reverse.find? fun v => !v.isDark && v.name.toList == name).or
      (declared.reverse.find? fun v => v.isDark && v.name.toList == name)).map (·.value) := by
  rw [chosen?, Option.map_or, Option.orElse_eq_or]

/-- Where no declaration is light, the last one is the last dark one. -/
theorem isLast_dark_iff (h : ∀ u ∈ declared, u.name.toList = name → u.isDark = true)
    {v : Variable} :
    IsLast (fun u => (u.isDark && u.name.toList == name) = true) declared v ↔
      IsLast (fun u => u.name.toList = name) declared v := by
  have hiff {u : Variable} (hu : u ∈ declared) :
      (u.isDark && u.name.toList == name) = true ↔ u.name.toList = name := by
    simp only [Bool.and_eq_true, beq_iff_eq]
    exact ⟨And.right, fun hname => ⟨h u hu hname, hname⟩⟩
  constructor
  · rintro ⟨before, after, rfl, hv, hafter⟩
    exact ⟨before, after, rfl, (hiff (by simp)).1 hv,
      fun u hu hname => hafter u hu ((hiff (by simp [hu])).2 hname)⟩
  · rintro ⟨before, after, rfl, hv, hafter⟩
    exact ⟨before, after, rfl, (hiff (by simp)).2 hv,
      fun u hu hname => hafter u hu ((hiff (by simp [hu])).1 hname)⟩

/-- The search for a declaration finds the one that counts. -/
theorem chosen?_eq_some_iff {value : String} :
    chosen? declared name = some value ↔ ∃ v, Chosen declared name v ∧ v.value = value := by
  have hlight {v : Variable} :
      IsLast (fun u => (!u.isDark && u.name.toList == name) = true) declared v ↔
        IsLast (fun u => u.isDark = false ∧ u.name.toList = name) declared v := by
    simp only [Bool.and_eq_true, Bool.not_eq_true', beq_iff_eq]
  rw [chosen?_eq, Option.map_eq_some_iff]
  refine exists_congr fun v => and_congr_left fun _ => ?_
  cases hfind : declared.reverse.find? fun v => !v.isDark && v.name.toList == name with
  | some u =>
    rw [Option.some_or, Option.some_inj]
    have hu := hlight.1 (find?_reverse_eq_some_iff.1 hfind)
    constructor
    · rintro rfl
      exact .light hu
    · rintro (hv | ⟨hdark, -⟩)
      · exact Option.some.inj (hfind.symm.trans (find?_reverse_eq_some_iff.2 (hlight.2 hv)))
      · obtain ⟨before, after, rfl, ⟨hnot, hname⟩, -⟩ := hu
        exact absurd (hdark u (by simp) hname) (by simp [hnot])
  | none =>
    have hdark : ∀ u ∈ declared, u.name.toList = name → u.isDark = true := by
      intro u hu hname
      have hnot := List.find?_eq_none.1 hfind u (List.mem_reverse.2 hu)
      simpa [hname] using hnot
    rw [Option.none_or, find?_reverse_eq_some_iff, isLast_dark_iff hdark]
    constructor
    · exact .dark hdark
    · rintro (⟨before, after, rfl, ⟨hnot, hname⟩, -⟩ | ⟨-, hlast⟩)
      · exact absurd (hdark v (by simp) hname) (by simp [hnot])
      · exact hlast

/-- It finds none exactly if the property is not declared. -/
theorem chosen?_eq_none_iff :
    chosen? declared name = none ↔ ∀ u ∈ declared, u.name.toList ≠ name := by
  rw [chosen?_eq, Option.map_eq_none_iff, Option.or_eq_none_iff, List.find?_eq_none,
    List.find?_eq_none, ← forall₂_and]
  simp only [List.mem_reverse]
  refine forall₂_congr fun u _ => ?_
  cases u.isDark <;> simp

/-- How declarations for dark themes and others are mixed does not matter. -/
theorem chosen?_congr {declared' : List Variable}
    (hlight : declared.filter (fun v => !v.isDark) = declared'.filter fun v => !v.isDark)
    (hdark : declared.filter (·.isDark) = declared'.filter (·.isDark)) :
    chosen? declared name = chosen? declared' name := by
  have hfind (p : Variable → Bool) (h : declared.filter p = declared'.filter p) :
      (declared.reverse.find? fun v => p v && v.name.toList == name) =
        declared'.reverse.find? fun v => p v && v.name.toList == name := by
    have hfilter (ds : List Variable) : (ds.reverse.find? fun v => p v && v.name.toList == name) =
        (ds.filter p).reverse.find? fun v => v.name.toList == name := by
      simp only [← List.filter_reverse, List.find?_filter, Bool.decide_and, Bool.decide_eq_true]
    rw [hfilter, hfilter, h]
  rw [chosen?_eq, chosen?_eq, hfind _ hlight, hfind _ hdark]

end

/-! ### Resolving -/

/-- The value that the resolution looks at after a reference. -/
def next? (declared : List Variable) (value : List Char) : Option (List Char) :=
  (references value).head?.bind fun name =>
    match chosen? declared name with
    | some found => some (trim found.toList)
    | none => fallback? value

section

variable {declared : List Variable} {value image : List Char} {c : Rgb}

theorem resolveIn_of_none (h : reference? value = none) (n : Nat) :
    resolveIn declared n value = parse? value := by
  cases n <;> rw [resolveIn, if_pos (by rw [h]; rfl)]

theorem resolveIn_zero (h : (reference? value).isSome = true) :
    resolveIn declared 0 value = none := by
  rw [resolveIn, if_neg (by simpa [Option.isSome_iff_ne_none] using h)]

theorem resolveIn_succ (h : (reference? value).isSome = true) (n : Nat) :
    resolveIn declared (n + 1) value = (next? declared value).bind (resolveIn declared n) := by
  rw [resolveIn, if_neg (by simpa [Option.isSome_iff_ne_none] using h), next?]
  cases (references value).head? with
  | none => rfl
  | some name =>
    dsimp only [Option.bind_eq_bind, Option.bind_some]
    cases chosen? declared name <;> rfl

theorem Chosen.mem {name : List Char} {v : Variable} (h : Chosen declared name v) :
    v ∈ declared := by
  rcases h with ⟨_, _, rfl, -⟩ | ⟨-, _, _, rfl, -⟩ <;> simp

/-- How declarations for dark themes are mixed with others does not matter. -/
theorem resolveIn_congr {declared' : List Variable}
    (hlight : declared.filter (fun v => !v.isDark) = declared'.filter fun v => !v.isDark)
    (hdark : declared.filter (·.isDark) = declared'.filter (·.isDark)) (n : Nat) :
    resolveIn declared n value = resolveIn declared' n value := by
  have hnext (value : List Char) : next? declared value = next? declared' value := by
    simp only [next?, chosen?_congr hlight hdark]
  induction n generalizing value with
  | zero =>
    cases href : reference? value with
    | none => rw [resolveIn_of_none href, resolveIn_of_none href]
    | some rest => rw [resolveIn_zero (by rw [href]; rfl), resolveIn_zero (by rw [href]; rfl)]
  | succ n ih =>
    cases href : reference? value with
    | none => rw [resolveIn_of_none href, resolveIn_of_none href]
    | some rest =>
      rw [resolveIn_succ (by rw [href]; rfl), resolveIn_succ (by rw [href]; rfl), hnext]
      exact Option.bind_congr fun image _ => ih

/-- What a reference leads to is what the resolution looks at next. -/
theorem leads_iff (hdeclared : ∀ u ∈ declared, IsValue u.value.toList) {name : List Char}
    {fallback : Option (List Char)} (hrefers : RefersTo value name fallback) :
    Leads declared value image ↔ next? declared value = some image := by
  obtain ⟨-, hname, hfallback⟩ := hrefers.reads
  rw [next?, hname, Option.bind_some]
  constructor
  · rintro (⟨hrefers', hchosen⟩ | ⟨hrefers', hundeclared⟩)
    · obtain ⟨-, hname', -⟩ := hrefers'.reads
      obtain rfl := Option.some.inj (hname.symm.trans hname')
      rw [chosen?_eq_some_iff.2 ⟨_, hchosen, rfl⟩]
      exact congrArg some (hdeclared _ hchosen.mem).trimmed
    · obtain ⟨-, hname', hfallback'⟩ := hrefers'.reads
      obtain rfl := Option.some.inj (hname.symm.trans hname')
      rw [chosen?_eq_none_iff.2 hundeclared]
      exact hfallback'
  · intro h
    cases hchosen : chosen? declared name with
    | some found =>
      obtain ⟨v, hv, rfl⟩ := chosen?_eq_some_iff.1 hchosen
      rw [hchosen] at h
      obtain rfl : v.value.toList = image :=
        (hdeclared v hv.mem).trimmed.symm.trans (Option.some.inj h)
      exact .declared hrefers hv
    | none =>
      rw [hchosen] at h
      obtain rfl := hfallback.symm.trans h
      exact .fallback hrefers (chosen?_eq_none_iff.1 hchosen)

theorem Leads.isSome (h : Leads declared value image) : (reference? value).isSome = true := by
  cases h with
  | declared refers _ => exact refers.reads.1
  | fallback refers _ => exact refers.reads.1

theorem Leads.isValue (hdeclared : ∀ u ∈ declared, IsValue u.value.toList) (hvalue : IsValue value)
    (h : Leads declared value image) : IsValue image := by
  cases h with
  | declared refers chosen => exact hdeclared _ chosen.mem
  | fallback refers _ => exact hvalue.of_refersTo refers _ rfl

theorem denotes_of_literal_iff (h : IsLiteral value) {k : Nat} :
    Denotes declared k value c ↔ k = 0 ∧ parse? value = some c := by
  constructor
  · rintro (⟨-, hcolor⟩ | ⟨hleads, -⟩)
    · exact ⟨rfl, hcolor⟩
    · have href := hleads.isSome
      rw [h.noReference] at href
      cases href
  · rintro ⟨rfl, hcolor⟩
    exact .literal h hcolor

theorem denotes_of_reference_iff (h : (reference? value).isSome = true) {k : Nat} :
    Denotes declared k value c ↔
      ∃ m image, k = m + 1 ∧ Leads declared value image ∧ Denotes declared m image c := by
  constructor
  · rintro (⟨hliteral, -⟩ | ⟨hleads, hrest⟩)
    · rw [hliteral.noReference] at h
      cases h
    · exact ⟨_, _, rfl, hleads, hrest⟩
  · rintro ⟨m, image, rfl, hleads, hrest⟩
    exact .reference hleads hrest

/-- A value resolves within a number of references to what it denotes after at most so many. -/
theorem resolveIn_eq_some_iff (hdeclared : ∀ u ∈ declared, IsValue u.value.toList)
    (hvalue : IsValue value) (n : Nat) :
    resolveIn declared n value = some c ↔ ∃ k ≤ n, Denotes declared k value c := by
  induction n generalizing value with
  | zero =>
    cases hvalue with
    | literal h =>
      simp [resolveIn_of_none h.noReference, denotes_of_literal_iff h]
    | reference refers inner =>
      simp [resolveIn_zero refers.reads.1, denotes_of_reference_iff refers.reads.1]
  | succ n ih =>
    cases hvalue with
    | literal h =>
      simp [resolveIn_of_none h.noReference, denotes_of_literal_iff h]
    | reference refers inner =>
      rw [resolveIn_succ refers.reads.1, Option.bind_eq_some_iff]
      constructor
      · rintro ⟨image, hnext, hrest⟩
        have hleads := (leads_iff hdeclared refers).2 hnext
        have himage := hleads.isValue hdeclared (.reference refers inner)
        obtain ⟨k, hk, hdenotes⟩ := (ih himage).1 hrest
        exact ⟨k + 1, Nat.succ_le_succ hk, .reference hleads hdenotes⟩
      · rintro ⟨k, hk, hdenotes⟩
        obtain ⟨m, image, rfl, hleads, hrest⟩ :=
          (denotes_of_reference_iff refers.reads.1).1 hdenotes
        have himage := hleads.isValue hdeclared (.reference refers inner)
        exact ⟨image, (leads_iff hdeclared refers).1 hleads,
          (ih himage).2 ⟨m, Nat.le_of_succ_le_succ hk, hrest⟩⟩

/-- A reference leads to one value. -/
theorem Leads.unique (hdeclared : ∀ u ∈ declared, IsValue u.value.toList) {image' : List Char}
    (h : Leads declared value image) (h' : Leads declared value image') : image = image' := by
  obtain ⟨name, fallback, hrefers⟩ : ∃ name fallback, RefersTo value name fallback := by
    cases h with
    | declared refers _ => exact ⟨_, _, refers⟩
    | fallback refers _ => exact ⟨_, _, refers⟩
  have hnext := (leads_iff hdeclared hrefers).1 h
  exact Option.some.inj (hnext.symm.trans ((leads_iff hdeclared hrefers).1 h'))

end

/-! ### Circles -/

section

variable {declared : List Variable} {value image : List Char} {c : Rgb}

/-- Each reference takes one step of a derivation. -/
theorem Denotes.of_leads (hdeclared : ∀ u ∈ declared, IsValue u.value.toList)
    (hleads : Leads declared value image) {n : Nat} (h : Denotes declared n value c) :
    ∃ m < n, Denotes declared m image c := by
  obtain ⟨m, image', rfl, hleads', hrest⟩ := (denotes_of_reference_iff hleads.isSome).1 h
  obtain rfl := hleads.unique hdeclared hleads'
  exact ⟨m, Nat.lt_succ_self m, hrest⟩

theorem Denotes.of_transGen (hdeclared : ∀ u ∈ declared, IsValue u.value.toList)
    (hleads : Relation.TransGen (Leads declared) value image) {n : Nat}
    (h : Denotes declared n value c) : ∃ m < n, Denotes declared m image c := by
  induction hleads with
  | single hleads => exact h.of_leads hdeclared hleads
  | tail _ hleads ih =>
    obtain ⟨m, hm, hmid⟩ := ih
    obtain ⟨k, hk, hlast⟩ := hmid.of_leads hdeclared hleads
    exact ⟨k, Nat.lt_trans hk hm, hlast⟩

/-- A value that leads back to itself denotes nothing. -/
theorem not_denotes_of_circle (hdeclared : ∀ u ∈ declared, IsValue u.value.toList)
    (hcircle : Relation.TransGen (Leads declared) value value) (n : Nat) :
    ¬ Denotes declared n value c := by
  induction n using Nat.strongRecOn with
  | _ n ih =>
    intro h
    obtain ⟨m, hm, hmid⟩ := h.of_transGen hdeclared hcircle
    exact ih m hm hmid

end

/-! ### Values of a style sheet -/

/-- **A value resolves to what it denotes within eight references.**  It resolves to nothing if its
references run in a circle, and how declarations for dark themes are mixed with others does not
matter.  The flag is found in every letter case, so a value has none if no spelling of it occurs. -/
theorem resolve_denotes {s : Sheet} (hs : ∀ u ∈ s.customProperties, IsValue u.value.toList)
    {value : List Char} (hvalue : IsValue value) (hflag : ¬ SaysImportant value) :
    (∀ c, resolve s.customProperties value = some c ↔
      ∃ n ≤ 8, Denotes s.customProperties n value c) ∧
    (∀ image, Relation.ReflTransGen (Leads s.customProperties) value image →
      Relation.TransGen (Leads s.customProperties) image image →
      resolve s.customProperties value = none) ∧
    ∀ s' : Sheet, s'.customProperties.filter (·.isDark) = s.customProperties.filter (·.isDark) →
      s'.customProperties.filter (fun v => !v.isDark) =
        s.customProperties.filter (fun v => !v.isDark) →
      resolve s'.customProperties value = resolve s.customProperties value := by
  have hstrip : trim (dropImportant value) = value := by
    rw [dropImportant, Option.not_isSome_iff_eq_none.1 (saysImportant_iff.not.1 hflag)]
    exact hvalue.trimmed
  have hresolve : ∀ c, resolve s.customProperties value = some c ↔
      ∃ n ≤ 8, Denotes s.customProperties n value c := by
    intro c
    rw [resolve, hstrip]
    exact resolveIn_eq_some_iff hs hvalue maxSteps
  refine ⟨hresolve, fun image hpath hcircle => ?_, fun s' hdark hlight => ?_⟩
  · refine Option.eq_none_iff_forall_ne_some.2 fun c hc => ?_
    obtain ⟨n, -, hdenotes⟩ := (hresolve c).1 hc
    -- the derivation would go on along the path, into the circle
    obtain ⟨m, hm⟩ : ∃ m, Denotes s.customProperties m image c := by
      clear hcircle
      induction hpath with
      | refl => exact ⟨n, hdenotes⟩
      | tail _ hleads ih =>
        obtain ⟨m, hmid⟩ := ih
        obtain ⟨k, -, hlast⟩ := hmid.of_leads hs hleads
        exact ⟨k, hlast⟩
    exact not_denotes_of_circle hs hcircle m hm
  · exact resolveIn_congr hlight hdark maxSteps

/-- A property with a value for dark themes behind the one that counts, two properties that are not
declared, and one that refers to itself. -/
theorem resolve_denotes_of_fallbacks :
    ∃ s : Sheet, s.customProperties.map (fun v => (v.name, v.value)) =
        [("--a", "var(--b,var( --c , #fff))"), ("--a", "red"), ("--d", "var(--d)")] ∧
      (∀ u ∈ s.customProperties, IsValue u.value.toList) ∧
      resolve s.customProperties "var(--a)".toList = some ⟨255, 255, 255⟩ ∧
      resolve s.customProperties "var(--d)".toList = none := by
  let a : Variable := ⟨"--a", "var(--b,var( --c , #fff))", .color, ":root", .start⟩
  let dark : Variable := ⟨"--a", "red", .color, ".dark-mode", .start⟩
  let d : Variable := ⟨"--d", "var(--d)", .color, ":root", .start⟩
  let s : Sheet := ⟨"a.css", [a, dark, d], [], [], [], []⟩
  have hbare (name : List Char) (h : IsName name) : Arguments ([] ++ (name ++ [])) name none :=
    .bare (by decide) h (by decide)
  have hwhite : IsLiteral "#fff".toList := by decide
  have ha : RefersTo "var(--a)".toList "--a".toList none := ⟨_, rfl, hbare _ (by decide)⟩
  have hd : RefersTo "var(--d)".toList "--d".toList none := ⟨_, rfl, hbare _ (by decide)⟩
  have hc : RefersTo "var( --c , #fff)".toList "--c".toList (some "#fff".toList) :=
    ⟨([' '] ++ ("--c".toList ++ [' '])) ++ ',' :: ([' '] ++ ("#fff".toList ++ [])), by decide,
      .withFallback (.bare (by decide) (by decide) (by decide)) (by decide) (by decide)
        (by decide) (by decide)⟩
  have hb : RefersTo "var(--b,var( --c , #fff))".toList "--b".toList
      (some "var( --c , #fff)".toList) :=
    ⟨([] ++ ("--b".toList ++ [])) ++ ',' :: ([] ++ ("var( --c , #fff)".toList ++ [])), by decide,
      .withFallback (hbare _ (by decide)) (by decide) (by decide) (by decide) (by decide)⟩
  have hs : ∀ u ∈ s.customProperties, IsValue u.value.toList := by
    have hinner : IsValue "var( --c , #fff)".toList :=
      .reference hc fun f hf => by obtain rfl := Option.some.inj hf; exact .literal hwhite
    have hvalue : IsValue a.value.toList :=
      .reference hb fun f hf => by obtain rfl := Option.some.inj hf; exact hinner
    have hred : IsValue dark.value.toList := .literal (by decide)
    have hself : IsValue d.value.toList := .reference hd nofun
    simpa [s] using ⟨hvalue, hred, hself⟩
  refine ⟨s, rfl, hs, ?_, ?_⟩
  · have hvalue : IsValue "var(--a)".toList := .reference ha nofun
    refine ((resolve_denotes hs hvalue (by decide)).1 _).2 ⟨3, by decide, ?_⟩
    have hlast : Chosen s.customProperties "--a".toList a :=
      .light ⟨[], [dark, d], rfl, by decide, by decide⟩
    exact .reference (.declared ha hlast) (.reference (.fallback hb (by decide))
      (.reference (.fallback hc (by decide)) (.literal hwhite (by decide))))
  · have hlast : Chosen s.customProperties "--d".toList d :=
      .light ⟨[a, dark], [], rfl, by decide, by decide⟩
    exact (resolve_denotes hs (.reference hd nofun) (by decide)).2.1 _ .refl
      (.single (.declared hd hlast))

end Color
end SheetAudit
