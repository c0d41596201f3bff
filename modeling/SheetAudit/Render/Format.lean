import SheetAudit.Render.Html
import SheetAudit.Render.Json
import SheetAudit.Render.Markdown
import SheetAudit.Render.Terminal

/-!
# Output formats

## Main definitions

* `ReportFormat`, `PlanFormat` — the formats of reports and of fix plans.
* `ReportFormat.render`, `PlanFormat.render` — a report or a plan as text.
-/

namespace SheetAudit

inductive ReportFormat where
  | text
  | markdown
  | html
  | json
  deriving Repr, DecidableEq

namespace ReportFormat

def read (word : String) : Except UnknownChoice ReportFormat :=
  Choice.read "output format"
    [("text", text), ("markdown", markdown), ("md", markdown), ("html", html), ("json", json)] word

/-- A report as text; colors are for the terminal only. -/
def render (format : ReportFormat) (r : Report) (grouping : Grouping) (colors : Bool) : String :=
  match format with
  | text => Terminal.render colors (Terminal.report r grouping)
  | markdown => Markdown.report r grouping
  | html => Html.render (Html.report r grouping)
  | json => (JsonText.report r).pretty

end ReportFormat

inductive PlanFormat where
  | text
  | json
  deriving Repr, DecidableEq

namespace PlanFormat

def read (word : String) : Except UnknownChoice PlanFormat :=
  Choice.read "plan format" [("text", text), ("json", json)] word

/-- A fix plan as text. -/
def render (format : PlanFormat) (p : Plan) : String :=
  match format with
  | text => Terminal.render false (Terminal.plan p)
  | json => (JsonText.plan p).pretty

end PlanFormat
end SheetAudit
