import SheetAudit.Proofs.Arrangement
import SheetAudit.Proofs.Backslashes
import SheetAudit.Render.Markdown
import SheetAudit.Rules.Theming
import SheetAudit.Sheet.Reading

/-!
# What issues say in a Markdown report

Messages and suggestions quote selectors and values, which may hold anything.  In a Markdown report
a backslash is put before their special characters.  Backslashes of their own are left as they are,
and one that stands before a special character is read with the new one: the character, which was
literal, has its meaning again.

## Main definitions

* `turned` — what becomes of a sign when the text is escaped.
* `remarks` — what a report tells of an issue in words.

## Main results

* `slashes_escapeChars` — the backslashes that a text ends in stay as many as they are.
* `signs_escapeChars` — escaping turns special characters into literal ones, and literal ones back.
* `exists_report_eq` — a report tells the remarks of all issues, each between two line ends.
* `remark_guarded_iff` — **the special characters of what an issue says become literal exactly if
  they stand behind even numbers of backslashes.**
-/

namespace SheetAudit
namespace Markdown

/-! ### Escaped text -/

theorem escapeChars_special {c : Char} (h : c ∈ special) (cs : List Char) :
    escapeChars (c :: cs) = '\\' :: c :: escapeChars cs := by
  rw [escapeChars, if_pos (by simpa [special, or_assoc] using h)]

theorem escapeChars_other {c : Char} (h : c ∉ special) (cs : List Char) :
    escapeChars (c :: cs) = c :: escapeChars cs := by
  rw [escapeChars, if_neg (by simpa [special, or_assoc] using h)]

/-- Escaping is replacing the three characters one after the other: what the earlier replacements
put in holds none of the characters that the later ones look for. -/
theorem escapeChars_eq_replacements (cs : List Char) :
    escapeChars cs =
      Text.replaceChar '_' "\\_".toList
        (Text.replaceChar '*' "\\*".toList (Text.replaceChar '|' "\\|".toList cs)) := by
  have happend (d : Char) (image xs ys : List Char) :
      Text.replaceChar d image (xs ++ ys) =
        Text.replaceChar d image xs ++ Text.replaceChar d image ys :=
    List.flatMap_append
  have hother {c d : Char} (h : c ≠ d) (image : List Char) :
      Text.replaceChar d image [c] = [c] := by
    simp [Text.replaceChar, h]
  induction cs with
  | nil => rfl
  | cons c cs ih =>
    rw [← List.singleton_append]
    simp only [happend, ← ih]
    by_cases h : c ∈ special
    · rw [List.singleton_append, escapeChars_special h]
      obtain rfl | rfl | rfl : c = '|' ∨ c = '*' ∨ c = '_' := by simpa [special] using h
      all_goals rfl
    · have hne {d : Char} (hd : d ∈ special) : c ≠ d := fun heq => h (heq ▸ hd)
      rw [List.singleton_append, escapeChars_other h, hother (hne (by decide)),
        hother (hne (by decide)), hother (hne (by decide)), List.singleton_append]

theorem escapeChars_append (front back : List Char) :
    escapeChars (front ++ back) = escapeChars front ++ escapeChars back := by
  induction front with
  | nil => rfl
  | cons c front ih =>
    rw [List.cons_append]
    by_cases h : c ∈ special
    · rw [escapeChars_special h, escapeChars_special h, ih, List.cons_append, List.cons_append]
    · rw [escapeChars_other h, escapeChars_other h, ih, List.cons_append]

/-- The backslashes that a text ends in are not escaped. -/
theorem slashes_escapeChars (front : List Char) :
    slashes (escapeChars front) = slashes front := by
  induction front using List.reverseRecOn with
  | nil => rfl
  | append_singleton front c ih =>
    rw [escapeChars_append, slashes_concat]
    by_cases h : c ∈ special
    · have hpair : escapeChars front ++ ['\\', c] = escapeChars front ++ ['\\'] ++ [c] := by simp
      rw [escapeChars_special h, escapeChars, hpair, slashes_concat,
        if_neg (ne_backslash_of_mem h), if_neg (ne_backslash_of_mem h)]
    · rw [escapeChars_other h, escapeChars, slashes_concat, ih]

/-- What becomes of a sign when the text is escaped: the new backslash makes a special character
literal, unless there is one before it already, which it is read with itself. -/
def turned : Sign → List Sign
  | .plain c => if c ∈ special then [.literal c] else [.plain c]
  | .literal c => if c ∈ special then [.literal '\\', .plain c] else [.literal c]

/-- Escaping turns special characters into literal ones, and literal ones back. -/
theorem signs_escapeChars (text : List Char) :
    signs (escapeChars text) = (signs text).flatMap turned := by
  have hslash : '\\' ∉ special := by decide
  fun_induction signs text with
  | case1 => rfl
  | case2 c =>
    by_cases hc : c ∈ special
    · rw [escapeChars_special hc, signs_literal (isPunctuation_of_mem hc)]
      simp [turned, hc, escapeChars, signs]
    · rw [escapeChars_other hc]
      simp [turned, hc, escapeChars, signs]
  | case3 c d cs h ih =>
    obtain ⟨rfl, hd⟩ := h
    rw [escapeChars_other hslash, List.flatMap_cons, ← ih]
    by_cases hspecial : d ∈ special
    · -- two backslashes are read together, and leave `d` alone
      rw [escapeChars_special hspecial, signs_literal (by rfl),
        signs_plain (ne_backslash_of_mem hspecial)]
      simp [turned, hspecial]
    · rw [escapeChars_other hspecial, signs_literal hd]
      simp [turned, hspecial]
  | case4 c d cs h ih =>
    rw [List.flatMap_cons, ← ih]
    by_cases hspecial : c ∈ special
    · rw [escapeChars_special hspecial, signs_literal (isPunctuation_of_mem hspecial)]
      simp [turned, hspecial]
    · rw [escapeChars_other hspecial, turned, if_neg hspecial, List.singleton_append]
      by_cases hc : c = '\\'
      · have hd : isPunctuation d = false := Bool.eq_false_iff.2 fun hd => h ⟨hc, hd⟩
        have hother : d ∉ special := fun hmem =>
          Bool.false_ne_true (hd.symm.trans (isPunctuation_of_mem hmem))
        rw [hc, escapeChars_other hother, signs_backslash hd]
      · exact signs_plain hc _

/-- The first asterisk was literal, the second one was not. -/
example : signs (escapeChars "\\**".toList) = [.literal '\\', .plain '*', .literal '*'] := by rfl

theorem plain_mem_turned_iff {c : Char} (hc : c ∈ special) {s : Sign} :
    .plain c ∈ turned s ↔ s = .literal c := by
  have hslash : c ≠ '\\' := ne_backslash_of_mem hc
  cases s with
  | plain d =>
    rw [turned]
    split_ifs with hd
    · simp
    · rw [List.mem_singleton, Sign.plain.injEq]
      exact iff_of_false (fun h => hd (h ▸ hc)) nofun
  | literal d =>
    rw [turned]
    split_ifs with hd
    · simp [eq_comm]
    · rw [List.mem_singleton, Sign.literal.injEq]
      exact iff_of_false nofun fun h => hd (h ▸ hc)

/-- Nothing in an escaped text is read with its meaning exactly if nothing in the text was literal
before. -/
theorem forall_plain_not_mem_iff {text : List Char} :
    (∀ c ∈ special, .plain c ∉ signs (escapeChars text)) ↔ Unguarded text := by
  rw [unguarded_iff, signs_escapeChars]
  refine forall_congr' fun c => forall_congr' fun hc => not_congr ?_
  simp [List.mem_flatMap, plain_mem_turned_iff hc]

/-! ### What a report says -/

/-- What a report tells of an issue in words, and the words before it. -/
def remarks (i : Issue) : List (String × String) :=
  ("  - ", i.message) ::
    if i.suggestion.isEmpty then [] else [("  - Suggestion: ", i.suggestion)]

theorem cases_of_mem_remarks {i : Issue} {label text : String} (h : (label, text) ∈ remarks i) :
    (label = "  - " ∧ text = i.message) ∨
      (label = "  - Suggestion: " ∧ text = i.suggestion ∧ i.suggestion.isEmpty = false) := by
  rw [remarks, List.mem_cons, List.mem_ite_nil_left, List.mem_singleton, Prod.mk.injEq,
    Prod.mk.injEq, Bool.not_eq_true] at h
  rcases h with hmessage | ⟨hsuggestion, hlabel, htext⟩
  · exact .inl hmessage
  · exact .inr ⟨hlabel, htext, hsuggestion⟩

/-- A blank stands before what is told. -/
theorem slashes_of_mem_remarks {i : Issue} {label text : String} (h : (label, text) ∈ remarks i)
    (before : List Char) : slashes (before ++ '\n' :: label.toList) = 0 := by
  have hblank (init : List Char) (hlabel : label.toList = init ++ [' ']) :
      slashes (before ++ '\n' :: label.toList) = 0 := by
    rw [hlabel, ← List.cons_append, ← List.append_assoc, slashes_concat, if_neg (by decide)]
  rcases cases_of_mem_remarks h with ⟨rfl, -⟩ | ⟨rfl, -⟩
  · exact hblank "  -".toList (by decide)
  · exact hblank "  - Suggestion:".toList (by decide)

theorem infix_join {s : String} {l : List String} (h : s ∈ l) :
    s.toList <:+: (String.join l).toList := by
  rw [String.toList_join, List.flatMap_def]
  exact List.infix_of_mem_flatten (List.mem_map_of_mem h)

/-- The second of two lines begins where the first one ends. -/
theorem infix_lines (first second : String) :
    '\n' :: (line second).toList <:+: (line first ++ line second).toList :=
  ⟨first.toList, [], by simp [line]⟩

theorem remark_infix_issue {i : Issue} {label text : String} (h : (label, text) ∈ remarks i) :
    '\n' :: (line (label ++ escape text)).toList <:+: (issue i).toList := by
  rw [issue, String.toList_append]
  apply List.infix_append_of_infix_left
  rcases cases_of_mem_remarks h with ⟨rfl, rfl⟩ | ⟨rfl, rfl, hsuggestion⟩
  · rw [String.toList_append]
    exact List.infix_append_of_infix_left (infix_lines _ _)
  · rw [hsuggestion, String.append_assoc, String.toList_append]
    exact List.infix_append_of_infix_right (infix_lines _ _)

theorem issue_infix_report {r : Report} {grouping : Grouping} (htotal : 0 < r.summary.total)
    {g : String × List Issue} (hg : g ∈ r.groups grouping) {i : Issue} (hi : i ∈ g.2) :
    (issue i).toList <:+: (report r grouping).toList := by
  have hissue : (issue i).toList <:+: (group g).toList := by
    rw [group, String.toList_append, String.toList_append]
    exact List.infix_append_of_infix_left
      (List.infix_append_of_infix_right (infix_join (List.mem_map_of_mem hi)))
  have hgroup : (group g).toList <:+: (String.join ((r.groups grouping).map group)).toList :=
    infix_join (List.mem_map_of_mem hg)
  rw [report, if_pos htotal, String.toList_append, String.toList_append, String.toList_append]
  exact List.infix_append_of_infix_left (List.infix_append_of_infix_right
    (List.infix_append_of_infix_right (hissue.trans hgroup)))

/-- A report tells the remarks of every issue, each between two line ends. -/
theorem exists_report_eq {issues : List Issue} {i : Issue} (hi : i ∈ issues)
    {label text : String} (htext : (label, text) ∈ remarks i) (filesScanned : Nat)
    (grouping : Grouping) :
    ∃ before after, (report (.of issues filesScanned) grouping).toList =
      before ++ '\n' :: label.toList ++ (escape text).toList ++ '\n' :: after := by
  have hperm := (Report.groups_of issues filesScanned grouping).2
  obtain ⟨g, hg, hmem⟩ := List.mem_flatMap.1 (hperm.mem_iff.2 hi)
  have htotal : 0 < (Report.of issues filesScanned).summary.total := List.length_pos_of_mem hi
  obtain ⟨before, after, heq⟩ :=
    (remark_infix_issue htext).trans (issue_infix_report htotal hg hmem)
  refine ⟨before, after, heq.symm.trans ?_⟩
  simp [line]

/-- **The special characters of what an issue says become literal exactly if they stand behind even
numbers of backslashes.**  Each of them gets one backslash more than it has, so that those become
literal that were not, and the others have their meaning again. -/
theorem remark_guarded_iff {issues : List Issue} {i : Issue} (hi : i ∈ issues)
    {label text : String} (htext : (label, text) ∈ remarks i) (filesScanned : Nat)
    (grouping : Grouping) :
    ∃ before written after,
      (report (.of issues filesScanned) grouping).toList = before ++ written ++ '\n' :: after ∧
      '\n' :: label.toList <:+ before ∧
      written = Text.replaceChar '_' "\\_".toList
        (Text.replaceChar '*' "\\*".toList (Text.replaceChar '|' "\\|".toList text.toList)) ∧
      (∀ front c back, text.toList = front ++ c :: back → c ∈ special →
        written = escapeChars front ++ ['\\'] ++ c :: escapeChars back ∧
          slashes (before ++ (escapeChars front ++ ['\\'])) = slashes front + 1) ∧
      signs (report (.of issues filesScanned) grouping).toList =
        signs before ++ signs written ++ signs ('\n' :: after) ∧
      signs written = (signs text.toList).flatMap turned ∧
      (Guarded before written ↔ Unguarded text.toList) ∧
      ((∀ c ∈ special, .plain c ∉ signs written) ↔ Unguarded text.toList) := by
  obtain ⟨before, after, hdocument⟩ := exists_report_eq hi htext filesScanned grouping
  have hlabel : slashes (before ++ '\n' :: label.toList) = 0 := slashes_of_mem_remarks htext before
  have hsettled : Settled (before ++ '\n' :: label.toList) :=
    settled_of_even (hlabel ▸ Even.zero)
  have hwritten : (escape text).toList = escapeChars text.toList := String.toList_ofList
  rw [hwritten] at hdocument
  refine ⟨before ++ '\n' :: label.toList, escapeChars text.toList, after, hdocument,
    List.suffix_append .., escapeChars_eq_replacements _, ?_, ?_, signs_escapeChars _, ?_,
    forall_plain_not_mem_iff⟩
  · intro front c back hplace hc
    constructor
    · rw [hplace, escapeChars_append, escapeChars_special hc, List.append_assoc,
        List.singleton_append]
    · rw [slashes_append hlabel, slashes_concat, if_pos rfl, slashes_escapeChars]
  · rw [hdocument, signs_append_cons (by rfl), hsettled]
  · rw [guarded_iff hlabel, forall_plain_not_mem_iff]

/-- Backslashes that come in pairs take nothing from the characters behind them. -/
theorem remark_guarded_of_pairs :
    let i : Issue := ⟨"a/b", .minor, .naming, "'.c\\\\*d' | _e", ⟨"f.css", .start⟩, "", none⟩
    i ∈ [i] ∧ ("  - ", i.message) ∈ remarks i ∧ Unguarded i.message.toList ∧
      ∃ before written after,
        (report (.of [i] 1) .file).toList = before ++ written ++ '\n' :: after ∧
          '\n' :: "  - ".toList <:+ before ∧ Guarded before written ∧
          ∀ c ∈ special, .plain c ∉ signs written := by
  intro i
  have hi : i ∈ [i] := List.mem_singleton_self i
  have htext : ("  - ", i.message) ∈ remarks i := List.mem_cons_self
  have hpairs : Unguarded i.message.toList := by decide +kernel
  obtain ⟨before, written, after, hdocument, hlabel, -, -, -, -, hguarded, hmeaning⟩ :=
    remark_guarded_iff hi htext 1 .file
  exact ⟨hi, htext, hpairs, before, written, after, hdocument, hlabel, hguarded.2 hpairs,
    hmeaning.2 hpairs⟩

/-- A selector with an escaped asterisk is quoted in a message; the backslash that is put before
the asterisk makes two of them, and the asterisk begins emphasis. -/
theorem quoted_backslash_frees_star :
    ∃ s, Sheet.parse "main.css" "a\\*b\x7bcolor:red\x7d" = .ok s ∧
      ∃ i ∈ Theming.check {} s, i.message = "Hardcoded color red in 'color' of 'a\\*b'" ∧
        ∃ before after,
          (report (.of (Theming.check {} s) 1) .category).toList =
            before ++ '\n' :: "  - ".toList ++ (escape i.message).toList ++ '\n' :: after ∧
          ¬ Guarded (before ++ '\n' :: "  - ".toList) (escape i.message).toList ∧
          .plain '*' ∈ signs (escape i.message).toList := by
  have hfound : (Sheet.parse "main.css" "a\\*b\x7bcolor:red\x7d").toOption.map
      (fun s => (Theming.check {} s).map Issue.message) =
        some ["Hardcoded color red in 'color' of 'a\\*b'"] := by
    decide +kernel
  cases hparse : Sheet.parse "main.css" "a\\*b\x7bcolor:red\x7d" with
  | error e =>
    rw [hparse] at hfound
    cases hfound
  | ok s =>
    rw [hparse] at hfound
    have hmessages : (Theming.check {} s).map Issue.message =
        ["Hardcoded color red in 'color' of 'a\\*b'"] := Option.some.inj hfound
    obtain ⟨i, hi, hmessage⟩ := List.mem_map.1 (hmessages ▸ List.mem_singleton_self _)
    have htext : ("  - ", i.message) ∈ remarks i := List.mem_cons_self
    have hstar : .plain '*' ∈ signs (escape i.message).toList := by
      rw [hmessage]
      decide +kernel
    obtain ⟨before, after, hdocument⟩ := exists_report_eq hi htext 1 .category
    refine ⟨s, rfl, i, hi, hmessage, before, after, hdocument, fun hguarded => ?_, hstar⟩
    exact (guarded_iff (slashes_of_mem_remarks htext before)).1 hguarded '*' (by decide) hstar

end Markdown
end SheetAudit
