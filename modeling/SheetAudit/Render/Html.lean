import SheetAudit.Render.Frame
import SheetAudit.Report.Basic

/-!
# Reports in HTML

An HTML report is a list of fragments: markup that is the same for every report, numbers, and
text from the report.  Text is escaped when the fragments are put together, so nothing in it can
become markup.

## Main definitions

* `escape` — a text without characters that mean something in markup.
* `Fragment` — a part of a document; `render` puts a document together.
* `report` — a report as an HTML document.
-/

namespace SheetAudit
namespace Html

/-! ### Escaping -/

def escapeChar (c : Char) : List Char :=
  if c == '&' then "&amp;".toList
  else if c == '<' then "&lt;".toList
  else if c == '>' then "&gt;".toList
  else if c == '"' then "&quot;".toList
  else if c == '\'' then "&#39;".toList
  else [c]

def escapeChars (cs : List Char) : List Char := cs.flatMap escapeChar

def escape (s : String) : String := String.ofList (escapeChars s.toList)

/-! ### Fragments -/

inductive Fragment where
  /-- Markup that does not depend on the report. -/
  | markup (s : String)
  | number (n : Nat)
  /-- Text from the report. -/
  | text (s : String)
  deriving Repr, DecidableEq

open Fragment

def Fragment.render : Fragment → String
  | markup s => s
  | number n => toString n
  | text s => escape s

def render (fragments : List Fragment) : String := String.join (fragments.map Fragment.render)

/-- Lines that do not depend on the report. -/
def fixed (lines : List String) : Fragment := markup (String.join (lines.map (· ++ "\n")))

/-! ### The summary -/

def card (kind : String) (value : Nat) (label : String) : List Fragment :=
  [markup s!"            <div class=\"summary-card {kind}\">\n                <span class=\"value\">",
    number value,
    markup s!"</span>\n                <span class=\"label\">{label}</span>\n            </div>\n"]

def summary (s : Summary) : List Fragment :=
  [markup "        <div class=\"summary-grid\">\n"] ++
  card "" s.filesScanned "Files Scanned" ++ card "" s.total "Total Issues" ++
  s.bySeverity.flatMap (fun (severity, n) => card severity.label n severity.title) ++
  [markup "        </div>\n"]

def categories (s : Summary) : List Fragment :=
  [fixed
    ["        <h2>By Category</h2>", "        <table class=\"categories\">",
      "            <thead><tr><th>Category</th><th>Issues</th></tr></thead>",
      "            <tbody>"]] ++
  (s.byCategory.filter fun c => c.2 > 0).flatMap (fun (category, n) =>
    [markup s!"                <tr><td>{category.title}</td><td class=\"number\">", number n,
      markup "</td></tr>\n"]) ++
  [fixed ["            </tbody>", "        </table>"]]

/-- The buttons that filter issues by severity. -/
def filters : List Fragment :=
  [fixed
    ["        <div class=\"filter-controls\">",
      "            <button class=\"filter-btn active\" data-filter=\"all\">All</button>"],
    fixed (Severity.all.map fun s =>
      s!"            <button class=\"filter-btn\" data-filter=\"{s.label}\">{s.title}</button>"),
    fixed ["        </div>"]]

/-! ### Issues -/

def sample (e : Example) : List Fragment :=
  [markup "            <pre><code>"] ++
  (if e.before.isEmpty then [] else [markup "/* before */\n", text e.before, markup "\n"]) ++
  [markup "/* after */\n", text e.after, markup "</code></pre>\n"]

def issue (i : Issue) : List Fragment :=
  let severity := i.severity.label
  [markup s!"        <div class=\"issue {severity}\" data-severity=\"{severity}\">\n",
    markup s!"            <div class=\"meta\"><span class=\"badge {severity}\">{severity}</span> ",
    markup s!"{i.category.label} &middot; <span class=\"location\">", text i.file, markup ":",
    number i.location.pos.line, markup ":", number i.location.pos.column,
    markup "</span> &middot; ", text i.rule, markup "</div>\n",
    markup "            <div class=\"message\">", text i.message, markup "</div>\n"] ++
  (if i.suggestion.isEmpty then []
    else [markup "            <div class=\"suggestion\">", text i.suggestion, markup "</div>\n"]) ++
  (i.sample.map sample).getD [] ++
  [markup "        </div>\n"]

def group (g : String × List Issue) : List Fragment :=
  [markup "        <h3>", text g.1, markup " (", number g.2.length, markup ")</h3>\n"] ++
  g.2.flatMap issue

def recommendations (advice : List String) : List Fragment :=
  if advice.isEmpty then []
  else
    [fixed ["        <h2>Recommendations</h2>", "        <ol class=\"recommendations\">"]] ++
    advice.flatMap (fun a => [markup "            <li>", text a, markup "</li>\n"]) ++
    [fixed ["        </ol>"]]

/-! ### Documents -/

/-- A report with its issues in the given arrangement. -/
def report (r : Report) (grouping : Grouping) : List Fragment :=
  [fixed header] ++ summary r.summary ++
  (if r.summary.total == 0 then [fixed ["        <p class=\"no-results\">No issues found.</p>"]]
    else
      categories r.summary ++ [fixed ["        <h2>Issues</h2>"]] ++ filters ++
        (r.groups grouping).flatMap group) ++
  recommendations r.recommendations ++ [fixed footer]

end Html
end SheetAudit
