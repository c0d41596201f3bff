import SheetAudit.Proofs.Judgement

/-!
# Findings lie in the text

Every finding on a style sheet lies at a position that exists in its source text.  The rules make
up no positions: a finding lies at a part of the sheet, which stands in the text, on a line where a
comment opens, or at the start.

## Main definitions

* `Pos.Within` — a position that exists in a text.
* `Sheet.places` — where the parts of a style sheet stand.

## Main results

* `within_after` — the position after a part of a text exists in it.
* `within_of_mem_places` — so does the place of every part of a style sheet that was read.
* `run_within` — **every finding on a style sheet lies in its source text**, at the start, at a
  comment or at a part of the sheet.
-/

namespace SheetAudit

open Source Text

/-! ### Positions in a text -/

/-- A position that exists in a text: on one of its lines, at a character of that line or right
after the last. -/
structure Pos.Within (source : List Char) (p : Pos) : Prop where
  line_pos : 1 ≤ p.line
  line_le : p.line ≤ source.count '\n' + 1
  column_pos : 1 ≤ p.column
  column_le : ∃ line, (splitOn (· == '\n') source)[p.line - 1]? = some line ∧
    p.column ≤ line.length + 1

/-- The length of the line that a text ends with. -/
def lastLength (cs : List Char) : Nat := (cs.reverse.takeWhile fun c => c != '\n').length

theorem lastLength_cons_of_mem (c : Char) {cs : List Char} (h : '\n' ∈ cs) :
    lastLength (c :: cs) = lastLength cs := by
  rw [lastLength, lastLength, List.reverse_cons, List.takeWhile_append, if_neg]
  intro hlength
  have hall := List.takeWhile_eq_self_iff.1 ((List.takeWhile_prefix _).eq_of_length hlength)
  simpa using hall '\n' (List.mem_reverse.2 h)

theorem lastLength_cons_newline (cs : List Char) : lastLength ('\n' :: cs) = lastLength cs := by
  rw [lastLength, lastLength, List.reverse_cons, List.takeWhile_append]
  split
  · next hlength => simpa using hlength.symm
  · rfl

theorem lastLength_cons_of_not_mem (c : Char) {cs : List Char} (h : '\n' ∉ cs) :
    lastLength (c :: cs) ≤ cs.length + 1 ∧ lastLength cs = cs.length := by
  have hself : cs.reverse.takeWhile (fun c => c != '\n') = cs.reverse := by
    refine List.takeWhile_eq_self_iff.2 fun d hd => ?_
    rw [bne_iff_ne]
    rintro rfl
    exact h (List.mem_reverse.1 hd)
  constructor
  · have hlength := (List.takeWhile_sublist (fun c => c != '\n') (l := (c :: cs).reverse)).length_le
    rwa [List.length_reverse, List.length_cons] at hlength
  · rw [lastLength, hself, List.length_reverse]

/-- The line on which a part of a text ends is no shorter than the end of the part. -/
theorem exists_line (before after : List Char) :
    ∃ line, (splitOn (· == '\n') (before ++ after))[before.count '\n']? = some line ∧
      lastLength before ≤ line.length := by
  induction before with
  | nil =>
    rw [List.nil_append]
    cases after with
    | nil => exact ⟨[], rfl, Nat.le_refl 0⟩
    | cons c cs =>
      rw [splitOn]
      split
      · exact ⟨_, rfl, Nat.zero_le _⟩
      · split <;> exact ⟨_, rfl, Nat.zero_le _⟩
  | cons c cs ih =>
    obtain ⟨line, hline, hlength⟩ := ih
    rw [List.cons_append, splitOn]
    by_cases hc : c = '\n'
    · -- a line end begins a new line
      subst hc
      refine ⟨line, by simpa using hline, ?_⟩
      rwa [lastLength_cons_newline]
    · have hcount : (c :: cs).count '\n' = cs.count '\n' := by simp [hc]
      rw [if_neg (by simpa using hc), hcount]
      cases hs : splitOn (· == '\n') (cs ++ after) with
      | nil => simp [hs] at hline
      | cons first rest =>
        rw [hs] at hline
        by_cases hmem : '\n' ∈ cs
        · -- the line is a later one
          have hpos : cs.count '\n' ≠ 0 := fun h => List.count_eq_zero.1 h hmem
          obtain ⟨n, hn⟩ := Nat.exists_eq_succ_of_ne_zero hpos
          rw [hn] at hline ⊢
          exact ⟨line, hline, by rwa [lastLength_cons_of_mem _ hmem]⟩
        · obtain ⟨hle, heq⟩ := lastLength_cons_of_not_mem c hmem
          rw [List.count_eq_zero.2 hmem] at hline ⊢
          obtain rfl : first = line := by simpa using hline
          refine ⟨c :: first, rfl, ?_⟩
          rw [List.length_cons]
          omega

/-- The position after a part of a text exists in the text, and so does the start of its line. -/
theorem within_after (before after : List Char) :
    (Pos.after before).Within (before ++ after) ∧
      Pos.Within (before ++ after) ⟨(Pos.after before).line, 1⟩ := by
  obtain ⟨line, hline, hlength⟩ := exists_line before after
  have hle : (Pos.after before).line ≤ (before ++ after).count '\n' + 1 := by
    rw [Pos.after, List.count_append]
    dsimp only
    omega
  exact ⟨⟨Nat.le_add_left 1 _, hle, Nat.le_add_left 1 _, line, hline, Nat.succ_le_succ hlength⟩,
    ⟨Nat.le_add_left 1 _, hle, Nat.le_refl 1, line, hline, Nat.le_add_left 1 _⟩⟩

theorem within_start (source : List Char) : Pos.start.Within source :=
  (within_after [] source).1

theorem Stands.within {source : String} {p : Pos} {rest : List Char} (h : Stands source p rest) :
    p.Within source.toList := by
  obtain ⟨before, x, after, -, hsource, rfl⟩ := h
  rw [hsource]
  exact (within_after _ _).1

/-- A comment opens on a line of the text. -/
theorem within_of_mem_comments {source : List Char} {c : Comment} (h : c ∈ comments source) :
    Pos.Within source ⟨c.line, 1⟩ := by
  simp only [comments] at h
  split at h
  · exact absurd h List.not_mem_nil
  obtain ⟨p, hp, hc⟩ := List.mem_filterMap.1 h
  rw [Piece.comment?.eq_def] at hc
  split at hc
  · next block x y inner =>
    obtain rfl := Option.some.inj hc
    -- the comment begins with a character of the text
    have hx : x ∈ cells source := by
      have hflat : (pieces (cells source)).flatMap Piece.cells = cells source :=
        flatMap_cells_piecesFrom none false _
      rw [← hflat]
      exact List.mem_flatMap.2 ⟨_, hp, List.mem_cons_self⟩
    obtain ⟨before, after, hcells⟩ := List.append_of_mem hx
    have hpos := pos_of_cellsFrom hcells
    rw [Pos.foldl_next] at hpos
    have hsource : source = chars before ++ chars (x :: after) := by
      rw [← chars_cells source, hcells]
      simp [chars]
    dsimp only
    rw [hpos, hsource]
    exact (within_after _ _).2
  · simp at hc

/-! ### The parts of a style sheet -/

/-- Where the parts of a style sheet stand. -/
def Sheet.places (s : Sheet) : List Pos :=
  s.customProperties.map (·.pos) ++ (s.rules.flatMap fun r => r.declarations.map (·.pos)) ++
    s.rules.map (·.pos) ++ s.mediaQueries.map (·.pos) ++ s.keyframes.map (·.pos)

theorem WellPlaced.within {source : String} {nodes : List Node} {s : Sheet}
    (h : WellPlaced source nodes s) {p : Pos} (hp : p ∈ s.places) : p.Within source.toList := by
  simp only [Sheet.places, List.mem_append, List.mem_map, List.mem_flatMap] at hp
  rcases hp with
    (((⟨v, hv, rfl⟩ | ⟨r, hr, d, hd, rfl⟩) | ⟨r, hr, rfl⟩) | ⟨m, hm, rfl⟩) | ⟨k, hk, rfl⟩
  · obtain ⟨rest, hstands, -⟩ := h.customProperties v hv
    exact hstands.within
  · obtain ⟨written, rest, hstands, -⟩ := h.declarations r hr d hd
    exact hstands.within
  · obtain ⟨_, _, _, _, rest, -, -, hstands, -⟩ := h.rules r hr
    exact hstands.within
  · obtain ⟨rest, hstands, -⟩ := h.mediaQueries m hm
    exact hstands.within
  · obtain ⟨rest, hstands, -⟩ := h.keyframes k hk
    exact hstands.within

/-- A class stands where its rule stands, so a finding at a class is one at a part of the sheet. -/
theorem WellPlaced.finding_cases {source : String} {nodes : List Node} {s : Sheet}
    (h : WellPlaced source nodes s) {text : String} {p : Pos}
    (hp : FindingPlace s (some text) p) :
    p = .start ∨ (∃ c ∈ comments text.toList, p = ⟨c.line, 1⟩) ∨ p ∈ s.places := by
  have hrule {r : Rule} (hr : r ∈ s.rules) : r.pos ∈ s.places := by
    simpa [Sheet.places] using .inr (.inr (.inl ⟨r, hr, rfl⟩))
  have hdeclaration {r : Rule} {d : Declaration} (hr : r ∈ s.rules) (hd : d ∈ r.declarations) :
      d.pos ∈ s.places := by
    simpa [Sheet.places] using .inr (.inl ⟨r, hr, d, hd, rfl⟩)
  cases hp with
  | start => exact .inl rfl
  | comment given mem =>
    obtain rfl := Option.some.inj given
    exact .inr (.inl ⟨_, mem, rfl⟩)
  | customProperty mem => exact .inr (.inr (by simpa [Sheet.places] using .inl ⟨_, mem, rfl⟩))
  | rule mem => exact .inr (.inr (hrule mem))
  | declaration mem mem' => exact .inr (.inr (hdeclaration mem mem'))
  | «class» mem =>
    obtain ⟨r, hr, hpos, -, -⟩ := h.classes _ mem
    exact .inr (.inr (hpos ▸ hrule hr))
  | ofClass mem mem' =>
    obtain ⟨r, hr, -, -, hdeclarations⟩ := h.classes _ mem
    exact .inr (.inr (hdeclaration hr (hdeclarations ▸ mem')))
  | mediaQuery mem =>
    exact .inr (.inr (by simpa [Sheet.places] using .inr (.inr (.inr (.inl ⟨_, mem, rfl⟩)))))
  | keyframes mem =>
    exact .inr (.inr (by simpa [Sheet.places] using .inr (.inr (.inr (.inr ⟨_, mem, rfl⟩)))))

/-! ### All findings -/

/-- A finding of a whole audit is one of some family of rules. -/
theorem exists_reports {settings : Settings} {s : Sheet} {source : Option String} {i : Issue}
    (h : i ∈ Checker.run (Checker.standard settings) s source) :
    ∃ rules, i.Reports rules s source := by
  rw [Checker.run_standard] at h
  simp only [Theming.check, Motion.check, Quality.check, DeclarationRule.hardcoded_eq,
    DeclarationRule.spacing_eq, DeclarationRule.literals_eq, DeclarationRule.flags_eq,
    List.mem_append, List.not_mem_nil, or_false] at h
  rcases h with h | ((h | h) | h) | h | (((h | h) | h) | h) | (h | h) | (((h | h) | h) | h) | h
  · exact ⟨_, Naming.reports h⟩
  · exact ⟨_, DeclarationRule.reports_of_judgements h source⟩
  · exact ⟨_, Theming.reports_of_contrast h⟩
  · exact ⟨_, Theming.reports_of_dark h⟩
  · exact ⟨_, DeclarationRule.reports_of_judgements h source⟩
  · exact ⟨_, DeclarationRule.reports_of_judgements h source⟩
  · exact ⟨_, Motion.reports_of_keyframes h⟩
  · exact ⟨_, Motion.reports_of_reduced h⟩
  · exact ⟨_, Focus.reports h⟩
  · exact ⟨_, Responsive.reports h⟩
  · exact ⟨_, Layout.reports h⟩
  · exact ⟨_, Quality.reports_of_heavyUtilities h⟩
  · exact ⟨_, Quality.reports_of_selectors h⟩
  · exact ⟨_, DeclarationRule.reports_of_judgements h source⟩
  · exact ⟨_, Quality.reports_of_duplicates h⟩
  · cases source with
    | none => exact absurd h List.not_mem_nil
    | some text => exact ⟨_, Documentation.reports h⟩

/-- **Every finding on a style sheet lies in its source text.**  It is in the file of the sheet, at
the start, at the start of a line on which a comment opens, or where a part of the sheet stands. -/
theorem run_within {path source : String} {s : Sheet} (h : Sheet.parse path source = .ok s)
    (settings : Settings) {i : Issue}
    (hi : i ∈ Checker.run (Checker.standard settings) s (some source)) :
    i.location.file = path ∧ i.location.pos.Within source.toList ∧
      (i.location.pos = .start ∨
        (∃ c ∈ comments source.toList, i.location.pos = ⟨c.line, 1⟩) ∨
        i.location.pos ∈ s.places) := by
  obtain ⟨nodes, -, hplaced⟩ := parse_wellPlaced h
  have hpath : s.path = path := by
    obtain ⟨nodes, -, rfl⟩ := parse_eq_ok h
    rfl
  obtain ⟨rules, -, p, hp, hlocation⟩ := exists_reports hi
  have hcases := hplaced.finding_cases hp
  rw [hlocation]
  refine ⟨hpath, ?_, hcases⟩
  rcases hcases with rfl | ⟨c, hc, rfl⟩ | hmem
  · exact within_start _
  · exact within_of_mem_comments hc
  · exact hplaced.within hmem

/-- A reference that is not in the proper form lies on the second of two lines, where its comment
opens. -/
theorem run_within_reference : ∃ s, Sheet.parse "a.css" "\n/*req-1*/" = .ok s ∧
    ∃ i ∈ Checker.run (Checker.standard {}) s (some "\n/*req-1*/"),
      i.location = ⟨"a.css", ⟨2, 1⟩⟩ ∧ i.location.pos.Within "\n/*req-1*/".toList := by
  let s : Sheet := { path := "a.css" }
  have hs : Sheet.parse "a.css" "\n/*req-1*/" = .ok s := by cbv
  have hreferences : Documentation.references s (comments "\n/*req-1*/".toList) =
      [Documentation.malformedReference s 2 "req-1".toList] := by
    have hcomments : comments "\n/*req-1*/".toList = [⟨"req-1".toList, 2, true⟩] := by cbv
    have hreference : Requirement.references "req-1".toList = ["req-1".toList] := by
      decide +kernel
    have hproper : Requirement.isProper "req-1".toList = false := by cbv
    rw [hcomments, Documentation.references, List.flatMap_singleton, hreference,
      List.filter_singleton, hproper]
    rfl
  have hmem : Documentation.malformedReference s 2 "req-1".toList ∈
      Checker.run (Checker.standard {}) s (some "\n/*req-1*/") := by
    rw [Checker.run_standard, Option.elim_some, Documentation.check, hreferences]
    simp only [List.mem_append, List.mem_singleton, true_or, or_true]
  exact ⟨s, hs, _, hmem, rfl, (run_within hs {} hmem).2.1⟩
end SheetAudit
