import SheetAudit.Proofs.Messages

/-!
# An audit is made of independent parts

Every checker looks at every file by itself.  What an audit finds is what they find, file by file
and checker by checker; a file that cannot be read or parsed, or a checker that breaks down, takes
away its own part only and leaves a diagnostic in its place.

## Main definitions

* `Auditor.sheetAt?`, `Auditor.faultAt?` — the style sheet at a path, or why there is none.
* `Auditor.share`, `Auditor.breakdown?` — what a checker finds in a file, or why it finds nothing.
* `Auditor.issues`, `Auditor.breakdowns` — the same for all files and checkers.

## Main results

* `Auditor.share_congr` — a share depends on its own file and its own checker.
* `Auditor.issues_of_broken` — breaking a file is leaving it out.
* `Auditor.run_eq_composition` — **an audit is put together from its shares in order.**
-/

namespace SheetAudit
namespace Auditor

variable (a : Auditor)

/-! ### Parts -/

/-- The source text and the style sheet of the file at a path. -/
def sheetAt? (path : String) : Option (String × Sheet) :=
  match a.read path with
  | .error _ => none
  | .ok source =>
    match a.parse (Path.display a.base path) source with
    | .error _ => none
    | .ok sheet => some (source, sheet)

/-- Why there is no style sheet at a path. -/
def faultAt? (path : String) : Option Diagnostic :=
  match a.read path with
  | .error reason => some ⟨Path.display a.base path, .unreadable reason⟩
  | .ok source =>
    match a.parse (Path.display a.base path) source with
    | .error e => some ⟨Path.display a.base path, .unparsable e⟩
    | .ok _ => none

/-- What a checker finds in the file at a path. -/
def share (path : String) (c : Checker) : List Issue :=
  match a.sheetAt? path with
  | none => []
  | some (source, sheet) =>
    match c.check sheet (some source) with
    | .ok issues => issues
    | .error _ => []

/-- Why a checker finds nothing in the file at a path. -/
def breakdown? (path : String) (c : Checker) : Option Diagnostic :=
  match a.sheetAt? path with
  | none => none
  | some (source, sheet) =>
    match c.check sheet (some source) with
    | .ok _ => none
    | .error reason => some ⟨Path.display a.base path, .brokenChecker c.name reason⟩

/-- What the checkers find in some files. -/
def issues (files : List String) : List Issue :=
  files.flatMap fun path => a.checkers.flatMap (a.share path)

/-- Which checkers break down on some files. -/
def breakdowns (files : List String) : List Diagnostic :=
  files.flatMap fun path => a.checkers.filterMap (a.breakdown? path)

/-! ### Work on one file -/

/-- A file has either a fault or a style sheet. -/
theorem parseFile_cases (path : String) :
    (∃ e, a.parseFile path = .error e ∧ a.faultAt? path = some e ∧ a.sheetAt? path = none) ∨
    ∃ source sheet, a.parseFile path = .ok ⟨Path.display a.base path, source, sheet⟩ ∧
      a.faultAt? path = none ∧ a.sheetAt? path = some (source, sheet) := by
  rw [parseFile, faultAt?, sheetAt?]
  cases a.read path with
  | error reason => exact .inl ⟨_, rfl, rfl, rfl⟩
  | ok source =>
    dsimp only
    cases a.parse (Path.display a.base path) source with
    | error e => exact .inl ⟨_, rfl, rfl, rfl⟩
    | ok sheet => exact .inr ⟨source, sheet, rfl, rfl, rfl⟩

variable {a}

/-- The checkers that do not break down find their shares. -/
theorem successes_checkFile {path source : String} {sheet : Sheet}
    (h : a.sheetAt? path = some (source, sheet)) :
    (successes (a.checkFile ⟨Path.display a.base path, source, sheet⟩)).flatten =
      a.checkers.flatMap (a.share path) := by
  have hshare : a.share path = fun c =>
      match c.check sheet (some source) with
      | .ok issues => issues
      | .error _ => [] := by
    funext c
    rw [share, h]
  rw [hshare, checkFile, successes]
  induction a.checkers with
  | nil => rfl
  | cons c cs ih =>
    rw [List.map_cons, List.filterMap_cons, List.flatMap_cons, ← ih]
    cases c.check sheet (some source) with
    | error reason => rfl
    | ok issues => rfl

/-- The other checkers leave their diagnostics. -/
theorem failures_checkFile {path source : String} {sheet : Sheet}
    (h : a.sheetAt? path = some (source, sheet)) :
    failures (a.checkFile ⟨Path.display a.base path, source, sheet⟩) =
      a.checkers.filterMap (a.breakdown? path) := by
  have hbreakdown : a.breakdown? path = fun c =>
      match c.check sheet (some source) with
      | .ok _ => none
      | .error reason => some ⟨Path.display a.base path, .brokenChecker c.name reason⟩ := by
    funext c
    rw [breakdown?, h]
  rw [hbreakdown, checkFile, failures, List.filterMap_map]
  congr 1
  funext c
  dsimp only [Function.comp]
  cases c.check sheet (some source) with
  | error reason => rfl
  | ok issues => rfl

variable (a)

/-- A file without a style sheet has no share and no breakdown. -/
theorem parts_of_none {path : String} (h : a.sheetAt? path = none) :
    a.checkers.flatMap (a.share path) = [] ∧ a.checkers.filterMap (a.breakdown? path) = [] := by
  constructor
  · refine List.flatMap_eq_nil_iff.2 fun c _ => ?_
    rw [share, h]
  · refine List.filterMap_eq_nil_iff.2 fun c _ => ?_
    rw [breakdown?, h]

/-! ### Work on all files -/

theorem successes_append {ε α : Type} (rs rs' : List (Except ε α)) :
    successes (rs ++ rs') = successes rs ++ successes rs' :=
  List.filterMap_append

theorem failures_append {ε α : Type} (rs rs' : List (Except ε α)) :
    failures (rs ++ rs') = failures rs ++ failures rs' :=
  List.filterMap_append

theorem failures_map_parseFile (files : List String) :
    failures (files.map a.parseFile) = files.filterMap a.faultAt? := by
  rw [failures, List.filterMap_map]
  congr 1
  funext path
  rcases a.parseFile_cases path with ⟨e, hparse, hfault, -⟩ | ⟨source, sheet, hparse, hfault, -⟩
  · rw [Function.comp, hparse, hfault]
  · rw [Function.comp, hparse, hfault]

/-- What is found in the files that can be parsed are the shares, and the breakdowns are theirs. -/
theorem parts_checked (files : List String) :
    (successes ((a.parsed files).map a.checkFile).flatten).flatten = a.issues files ∧
      failures ((a.parsed files).map a.checkFile).flatten = a.breakdowns files := by
  rw [issues, breakdowns]
  induction files with
  | nil => exact ⟨rfl, rfl⟩
  | cons path files ih =>
    rw [List.flatMap_cons, List.flatMap_cons]
    rcases a.parseFile_cases path with ⟨e, hparse, -, hsheet⟩ | ⟨source, sheet, hparse, -, hsheet⟩
    · -- the file is left out
      have hparsed : a.parsed (path :: files) = a.parsed files := by
        rw [parsed, successes, List.map_cons, hparse]
        rfl
      rw [hparsed, ih.1, ih.2, (a.parts_of_none hsheet).1, (a.parts_of_none hsheet).2]
      exact ⟨rfl, rfl⟩
    · have hparsed : a.parsed (path :: files) =
          ⟨Path.display a.base path, source, sheet⟩ :: a.parsed files := by
        rw [parsed, successes, List.map_cons, hparse]
        rfl
      rw [hparsed, List.map_cons, List.flatten_cons, successes_append, failures_append,
        List.flatten_append, successes_checkFile hsheet, failures_checkFile hsheet, ih.1, ih.2]
      exact ⟨rfl, rfl⟩

/-- **An audit finds what its checkers find in its files.**  It tells of everything that it leaves
out. -/
theorem found_eq (files : List String) :
    a.found files =
      { report := .of (a.issues files) files.length
        plan := .of (a.issues files)
        diagnostics := files.filterMap a.faultAt? ++ a.breakdowns files } := by
  rw [found, findings, (a.parts_checked files).1, (a.parts_checked files).2,
    a.failures_map_parseFile files]

/-- Every file is parsed or leaves a diagnostic. -/
theorem length_faults (files : List String) :
    (files.filterMap a.faultAt?).length + (files.filterMap a.sheetAt?).length = files.length := by
  induction files with
  | nil => rfl
  | cons path files ih =>
    rw [List.filterMap_cons, List.filterMap_cons, List.length_cons, ← ih]
    rcases a.parseFile_cases path with ⟨e, -, hfault, hsheet⟩ | ⟨source, sheet, -, hfault, hsheet⟩
    · rw [hfault, hsheet]
      exact Nat.add_right_comm ..
    · rw [hfault, hsheet]
      exact (Nat.add_assoc ..).symm

theorem kind_of_fault {path : String} {e : Diagnostic} (h : a.faultAt? path = some e) :
    e.kind = "read" ∨ e.kind = "parse" := by
  rw [faultAt?] at h
  split at h
  · obtain rfl := Option.some.inj h
    exact .inl rfl
  · split at h
    · obtain rfl := Option.some.inj h
      exact .inr rfl
    · cases h

theorem kind_of_breakdown {path : String} {c : Checker} {e : Diagnostic}
    (h : a.breakdown? path c = some e) : e.kind = "checker" := by
  rw [breakdown?] at h
  split at h
  · cases h
  · split at h
    · cases h
    · obtain rfl := Option.some.inj h
      rfl

/-! ### Independence -/

variable {a}

theorem sheetAt?_congr {a' : Auditor} {path : String} (hbase : a'.base = a.base)
    (hparse : a'.parse = a.parse) (hread : a'.read path = a.read path) :
    a'.sheetAt? path = a.sheetAt? path := by
  rw [sheetAt?, sheetAt?, hbase, hparse, hread]

/-- A share depends on its own file and its own checker. -/
theorem share_congr (a a' : Auditor) {path : String} (hbase : a'.base = a.base)
    (hparse : a'.parse = a.parse) (hread : a'.read path = a.read path) (c : Checker) :
    a'.share path c = a.share path c := by
  rw [share, share, sheetAt?_congr hbase hparse hread]

variable (a)

theorem issues_append (files files' : List String) :
    a.issues (files ++ files') = a.issues files ++ a.issues files' :=
  List.flatMap_append

/-- Breaking a file is leaving it out. -/
theorem issues_of_broken {read : String → Except String String} {path : String}
    (hread : ∀ other, other ≠ path → read other = a.read other)
    (hbroken : { a with read }.sheetAt? path = none) (files : List String) :
    { a with read }.issues files = a.issues (files.filter fun other => other != path) := by
  induction files with
  | nil => rfl
  | cons other files ih =>
    rw [issues, List.flatMap_cons, ← issues, ih, List.filter_cons]
    by_cases heq : other = path
    · subst heq
      rw [(parts_of_none { a with read } hbroken).1, if_neg (by simp), List.nil_append]
    · have hshare : { a with read }.share other = a.share other :=
        funext (share_congr a { a with read } rfl rfl (hread other heq))
      rw [hshare, if_pos (by simpa using heq)]
      rfl

/-- A checker among others adds its own shares to theirs. -/
theorem issues_of_checkers (before after : List Checker) (c : Checker) (files : List String) :
    { a with checkers := before ++ c :: after }.issues files =
      files.flatMap fun path =>
        before.flatMap (a.share path) ++ a.share path c ++ after.flatMap (a.share path) := by
  rw [issues]
  congr 1
  funext path
  have hshare : { a with checkers := before ++ c :: after }.share path = a.share path :=
    funext (share_congr a { a with checkers := before ++ c :: after } rfl rfl rfl)
  rw [hshare, List.flatMap_append, List.flatMap_cons, List.append_assoc]

/-- **An audit is put together from its shares in order.**  Its issues are those of every checker
in every file, by file and then by checker.  Every file without a style sheet, and then every
breakdown of a checker, leaves one diagnostic.  The share of a checker in a file depends on
neither the other files nor the other checkers. -/
theorem run_eq_composition (files : List String) :
    ((a.run none files).1 = .ok
        { report := .of (a.issues files) files.length
          plan := .of (a.issues files)
          diagnostics := files.filterMap a.faultAt? ++ a.breakdowns files }) ∧
    (∀ e ∈ files.filterMap a.faultAt?, e.kind = "read" ∨ e.kind = "parse") ∧
    (∀ e ∈ a.breakdowns files, e.kind = "checker") ∧
    (files.filterMap a.faultAt?).length + (files.filterMap a.sheetAt?).length = files.length ∧
    (∀ before path after, a.issues (before ++ path :: after) =
      a.issues before ++ a.issues [path] ++ a.issues after) ∧
    (∀ read path, (∀ other, other ≠ path → read other = a.read other) →
      { a with read }.sheetAt? path = none →
      { a with read }.issues files = a.issues (files.filter fun other => other != path)) ∧
    (∀ before c after, { a with checkers := before ++ c :: after }.issues files =
      files.flatMap fun path =>
        before.flatMap (a.share path) ++ a.share path c ++ after.flatMap (a.share path)) := by
  refine ⟨?_, ?_, ?_, a.length_faults files, ?_, ?_, ?_⟩
  · rw [run_none, found_eq]
  · intro e he
    obtain ⟨path, -, hpath⟩ := List.mem_filterMap.1 he
    exact a.kind_of_fault hpath
  · intro e he
    obtain ⟨path, -, hpath⟩ := List.mem_flatMap.1 he
    obtain ⟨c, -, hc⟩ := List.mem_filterMap.1 hpath
    exact a.kind_of_breakdown hc
  · intro before path after
    have hcons : path :: after = [path] ++ after := rfl
    rw [hcons, issues_append, issues_append, List.append_assoc]
  · intro read path hread hbroken
    exact a.issues_of_broken hread hbroken files
  · intro before c after
    exact a.issues_of_checkers before after c files

end Auditor
end SheetAudit
