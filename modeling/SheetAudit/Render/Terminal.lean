import SheetAudit.Report.Plan
import SheetAudit.Text.Blank

/-!
# Reports for the terminal

A report for the terminal is a list of spans, some of them painted.  Paint is put on only when
the spans become text, so the words are the same with and without it.

## Main definitions

* `Paint`, `Span` — colors and styles, and text that may have one.
* `render` — the text of spans, painted or not.
* `report`, `plan` — a report and a fix plan as spans.
-/

namespace SheetAudit
namespace Terminal

/-! ### Painted text -/

inductive Paint where
  | red
  | yellow
  | cyan
  | bold
  | dim
  deriving Repr, DecidableEq

def Paint.code : Paint → String
  | red => "\x1b[31m"
  | yellow => "\x1b[33m"
  | cyan => "\x1b[36m"
  | bold => "\x1b[1m"
  | dim => "\x1b[2m"

/-- Ends what is painted. -/
def reset : String := "\x1b[0m"

inductive Span where
  | plain (text : String)
  | painted (paint : Paint) (text : String)
  deriving Repr, DecidableEq

def Span.render (colors : Bool) : Span → String
  | plain s => s
  | painted p s => if colors then p.code ++ s ++ reset else s

/-- The text of the spans. -/
def render (colors : Bool) (spans : List Span) : String :=
  String.join (spans.map (Span.render colors))

/-- Spans between the members of a list. -/
def joinSpans (separator : String) : List Span → List Span
  | [] => []
  | [s] => [s]
  | s :: t :: rest => s :: .plain separator :: joinSpans separator (t :: rest)

/-- The lines of a text, each after the given mark. -/
def markedLines (mark text : String) : List Span :=
  (Text.lines text.toList).map fun l => .plain (mark ++ String.ofList l ++ "\n")

/-! ### Issues -/

def icon : Severity → String
  | .critical => "✗"
  | .moderate => "⚠"
  | .minor => "•"

def paintOf : Severity → Paint
  | .critical => .red
  | .moderate => .yellow
  | .minor => .cyan

/-- The name of a severity in capitals. -/
def shout : Severity → String
  | .critical => "CRITICAL"
  | .moderate => "MODERATE"
  | .minor => "MINOR"

def issue (i : Issue) : List Span :=
  [.plain s!"  {icon i.severity} ", .painted (paintOf i.severity) (shout i.severity),
    .plain s!" [{i.category.label}] {i.location.text}\n",
    .plain s!"    {i.message} (", .painted .dim i.rule, .plain ")\n"] ++
  (if i.suggestion.isEmpty then [] else [.plain s!"    → {i.suggestion}\n"]) ++
  match i.sample with
  | some e => markedLines "      - " e.before ++ markedLines "      + " e.after
  | none => []

def group (g : String × List Issue) : List Span :=
  .painted .bold g.1 :: .plain s!" ({g.2.length})\n" :: (g.2.flatMap issue ++ [.plain "\n"])

/-! ### Reports -/

def summary (s : Summary) : List Span :=
  let severities := s.bySeverity.map fun (severity, n) =>
    Span.painted (paintOf severity) s!"{n} {severity.label}"
  let categories := (s.byCategory.filter fun c => c.2 > 0).map fun (category, n) =>
    s!"{category.label}={n}"
  [.painted .bold "Summary", .plain "\n",
    .plain s!"  {s.total} issues in {s.filesWithIssues} of {s.filesScanned} files\n",
    .plain "  "] ++ joinSpans ", " severities ++ [.plain "\n"] ++
  if categories.isEmpty then [] else [.plain ("  " ++ ", ".intercalate categories ++ "\n")]

/-- A numbered list that starts at `n`. -/
def numbered (indent : String) (n : Nat) : List String → List Span
  | [] => []
  | s :: rest => .plain s!"{indent}{n}. {s}\n" :: numbered indent (n + 1) rest

def recommendations (advice : List String) : List Span :=
  if advice.isEmpty then []
  else .plain "\n" :: .painted .bold "Recommendations" :: .plain "\n" :: numbered "  " 1 advice

/-- A report with its issues in the given arrangement. -/
def report (r : Report) (grouping : Grouping) : List Span :=
  (r.groups grouping).flatMap group ++ summary r.summary ++ recommendations r.recommendations

/-! ### Plans -/

def task (n : Nat) (t : Task) : List Span :=
  [.plain s!"\n{n}. {t.title}\n",
    .plain s!"   Priority: {t.priority} | Estimated time: {t.time} | Id: {t.id}\n"] ++
  ((Text.lines t.description.toList).filter fun l => !l.isEmpty).map fun l =>
    .plain ("   " ++ String.ofList l ++ "\n")

def tasks (n : Nat) : List Task → List Span
  | [] => []
  | t :: rest => task n t ++ tasks (n + 1) rest

def plan (p : Plan) : List Span :=
  .plain s!"Fix Plan ({p.tasks.length} tasks, {p.effort})\n" ::
    if p.tasks.isEmpty then [.plain "\nNothing to fix.\n"] else tasks 1 p.tasks

end Terminal
end SheetAudit
