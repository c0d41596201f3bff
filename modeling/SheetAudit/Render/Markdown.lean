import SheetAudit.Report.Basic
import SheetAudit.Text.Blank

/-!
# Reports in Markdown

## Main definitions

* `escape` — a text with a backslash before each character that makes emphasis or tables.
* `report` — a report as a Markdown document.
-/

namespace SheetAudit
namespace Markdown

/-- A backslash goes before every bar, asterisk and underscore. -/
def escapeChars : List Char → List Char
  | [] => []
  | c :: cs =>
    if c == '|' || c == '*' || c == '_' then '\\' :: c :: escapeChars cs else c :: escapeChars cs

def escape (s : String) : String := String.ofList (escapeChars s.toList)

def icon : Severity → String
  | .critical => "🔴"
  | .moderate => "🟠"
  | .minor => "🔵"

/-- Text followed by a line end. -/
def line (s : String) : String := s ++ "\n"

def indentedLines (text : String) : String :=
  String.join ((Text.lines text.toList).map fun l => line ("  " ++ String.ofList l))

/-- A code block that shows a snippet before, if there is any, and after. -/
def sample (e : Example) : String :=
  "\n  \x60\x60\x60css\n" ++
  (if e.before.isEmpty then "" else line "  /* before */" ++ indentedLines e.before) ++
  line "  /* after */" ++ indentedLines e.after ++ "  \x60\x60\x60\n\n"

def issue (i : Issue) : String :=
  line (s!"- {icon i.severity} **{i.severity.label}** \x60{i.location.text}\x60 " ++
    s!"({i.category.label}, \x60{i.rule}\x60)") ++
  line ("  - " ++ escape i.message) ++
  (if i.suggestion.isEmpty then "" else line ("  - Suggestion: " ++ escape i.suggestion)) ++
  (i.sample.map sample).getD ""

def group (g : String × List Issue) : String :=
  s!"#### {g.1} ({g.2.length})\n\n" ++ String.join (g.2.map issue) ++ "\n"

def counts (s : Summary) : String :=
  "## Style Audit Results\n\n| Metric | Count |\n|--------|------:|\n" ++
  line s!"| Files Scanned | {s.filesScanned} |" ++
  line s!"| Files With Issues | {s.filesWithIssues} |" ++
  line s!"| Total Issues | {s.total} |" ++
  String.join (s.bySeverity.map fun (severity, n) =>
    line s!"| {icon severity} {severity.label} | {n} |") ++ "\n"

def categories (s : Summary) : String :=
  "### By Category\n\n| Category | Issues |\n|----------|-------:|\n" ++
  String.join ((s.byCategory.filter fun c => c.2 > 0).map fun (category, n) =>
    line s!"| {category.title} | {n} |") ++ "\n"

/-- A numbered list that starts at `n`. -/
def numbered (n : Nat) : List String → String
  | [] => ""
  | s :: rest => line s!"{n}. {s}" ++ numbered (n + 1) rest

/-- A report with its issues in the given arrangement. -/
def report (r : Report) (grouping : Grouping) : String :=
  counts r.summary ++
  (if r.summary.total > 0 then
    categories r.summary ++ "### Details\n\n" ++ String.join ((r.groups grouping).map group)
  else "") ++
  if r.recommendations.isEmpty then ""
  else "### Recommendations\n\n" ++ numbered 1 r.recommendations

end Markdown
end SheetAudit
