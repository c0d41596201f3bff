import SheetAudit.Sheet.Basic
import SheetAudit.Source.Section

/-!
# Layout rules

How a style sheet is laid out: its header and its sections, and whether variables, media queries
and dark styles are kept together.

## Main definitions

* `sections` — the findings about header and separators, which need the source text.
* `lateVariable`, `scattered`, `dark` — the findings about parts that should stand together.
* `check` — all findings of these rules.
-/

namespace SheetAudit
namespace Layout

open Source

/-- Files with more lines should be divided into sections. -/
def sectionLines : Nat := 100

/-- Successive media queries that are further apart are scattered. -/
def scatterLines : Nat := 150

/-- All layout rules are of the same weight. -/
def finding (rule message : String) (location : Location) (suggestion : String) : Issue where
  rule
  severity := .minor
  category := .organization
  message
  location
  suggestion

/-! ### Header and sections -/

def missingHeader (s : Sheet) (source : List Char) : Option Issue :=
  if opensWithComment source then none
  else
    some <| finding "organization/missing-file-header"
      "File has no header comment describing its contents" s.start
      "Start the file with a block comment naming the component or layer it holds"

def missingSeparators (s : Sheet) (source : List Char) : Option Issue :=
  let lines := lineCount source
  if !(separators (comments source)).isEmpty || lines ≤ sectionLines then none
  else
    some <| finding "organization/missing-section-separators"
      s!"File has {lines} lines but no section separator comments" s.start
      "Group related rules into sections headed by separator comments"

def inconsistentSeparators (s : Sheet) (source : List Char) : Option Issue :=
  let separators := separators (comments source)
  (firstChange separators).map fun change =>
    finding "organization/inconsistent-separators"
      s!"Section separators use different patterns ({showMarks separators})"
      (s.locate ⟨change.line, 1⟩) "Use a single separator pattern for every section"

def sections (s : Sheet) (source : List Char) : List Issue :=
  (missingHeader s source).toList ++ (missingSeparators s source).toList ++
    (inconsistentSeparators s source).toList

/-! ### Variables -/

/-- The selector under which variables are shared. -/
def sharedScope : String := ":root"

/-- The first line with a rule that holds in all media and does more than declare variables. -/
def firstRuleLine? (s : Sheet) : Option Nat :=
  ((s.rules.filter fun r => r.media.isNone && r.selector != sharedScope).map (·.pos.line)).min?

def lateVariable (s : Sheet) : Option Issue :=
  (firstRuleLine? s).bind fun line =>
    (s.customProperties.find? fun v => v.scope == sharedScope && v.pos.line > line).map fun late =>
      finding "organization/variables-not-grouped"
        s!"Root variable '{late.name}' is declared after the first rule (line {line})"
        (s.locate late.pos) "Keep all :root variables together at the top of the file"

/-! ### Media queries -/

/-- Every member with the one after it. -/
def neighbors {α : Type} (xs : List α) : List (α × α) := xs.zip (xs.drop 1)

def scattered (s : Sheet) : List Issue :=
  let queries := s.mediaQueries.mergeSort fun m n => m.pos.line ≤ n.pos.line
  (neighbors queries).filterMap fun (m, n) =>
    let distance := n.pos.line - m.pos.line
    if distance ≤ scatterLines then none
    else
      some <| finding "organization/scattered-media-queries"
        s!"Media query '{n.query}' is {distance} lines after the previous one" (s.locate n.pos)
        "Keep media queries next to the rules they adjust, or collect them in one section"

/-! ### Dark styles -/

/-- Where dark styles begin, by line: dark media queries and dark rules outside all media. -/
def darkPlaces (s : Sheet) : List Pos :=
  let queries := (s.mediaQueries.filter fun m => Query.asksDark m.query).map (·.pos)
  let rules := (s.rules.filter fun r => r.media.isNone && Query.isDarkContext r.selector).map (·.pos)
  (queries ++ rules).mergeSort fun p q => p.line ≤ q.line

/-- The lines of rules outside all media that are not dark and do more than declare variables. -/
def ordinaryLines (s : Sheet) : List Nat :=
  (s.rules.filter fun r =>
    r.media.isNone && !Query.isDarkContext r.selector && r.selector != sharedScope).map (·.pos.line)

def dark (s : Sheet) : Option Issue :=
  let between (p q : Pos) : Bool :=
    (ordinaryLines s).any fun line => p.line < line && line < q.line
  ((neighbors (darkPlaces s)).find? fun (p, q) => between p q).map fun (p, q) =>
    finding "organization/dark-mode-not-grouped"
      (s!"Dark-mode styles are split; ordinary rules sit between line {p.line} and " ++
        s!"line {q.line}")
      (s.locate q) "Collect dark-mode overrides into a single block or section"

/-! ### All layout rules -/

/-- Without the source text there is nothing to say about header and separators. -/
def check (s : Sheet) (source : Option String) : List Issue :=
  (source.elim [] fun text => sections s text.toList) ++ (lateVariable s).toList ++ scattered s ++
    (dark s).toList

end Layout
end SheetAudit
