import SheetAudit.Report.Plan

/-!
# Reports in JSON

## Main definitions

* `JsonText` — a JSON text as a tree; numbers are natural numbers.
* `JsonText.compact`, `JsonText.pretty` — written on one line, or indented by two spaces.
* `JsonText.report`, `JsonText.plan`, `JsonText.issue` — what is written in JSON.
-/

namespace SheetAudit

inductive JsonText where
  | number (n : Nat)
  | string (s : String)
  | array (items : List JsonText)
  | object (fields : List (String × JsonText))

namespace JsonText

/-! ### Writing -/

def hexDigit (n : Nat) : Char := (Nat.toDigits 16 n).headD '0'

/-- A character inside quotes; control characters have short names or are written in hex digits. -/
def escapeChar (c : Char) : List Char :=
  if c == '"' then ['\\', '"']
  else if c == '\\' then ['\\', '\\']
  else if c == '\n' then ['\\', 'n']
  else if c == '\r' then ['\\', 'r']
  else if c == '\t' then ['\\', 't']
  else if c == '\x08' then ['\\', 'b']
  else if c == '\x0c' then ['\\', 'f']
  else if c.toNat < 0x20 then
    ['\\', 'u', '0', '0', hexDigit (c.toNat / 16), hexDigit (c.toNat % 16)]
  else [c]

def quote (s : String) : String := String.ofList ('"' :: s.toList.flatMap escapeChar ++ ['"'])

mutual

def compact : JsonText → String
  | number n => toString n
  | string s => quote s
  | array items => "[" ++ compactItems items ++ "]"
  | object fields => "\x7b" ++ compactFields fields ++ "\x7d"

def compactItems : List JsonText → String
  | [] => ""
  | [x] => x.compact
  | x :: y :: rest => x.compact ++ "," ++ compactItems (y :: rest)

def compactFields : List (String × JsonText) → String
  | [] => ""
  | [(key, x)] => quote key ++ ":" ++ x.compact
  | (key, x) :: y :: rest => quote key ++ ":" ++ x.compact ++ "," ++ compactFields (y :: rest)

end

def newline (depth : Nat) : String := String.ofList ('\n' :: List.replicate (2 * depth) ' ')

mutual

/-- The text at a nesting depth; what is empty stays on its line. -/
def prettyAt (depth : Nat) : JsonText → String
  | number n => toString n
  | string s => quote s
  | array [] => "[]"
  | array (x :: xs) => "[" ++ prettyItems (depth + 1) (x :: xs) ++ newline depth ++ "]"
  | object [] => "\x7b\x7d"
  | object (x :: xs) => "\x7b" ++ prettyFields (depth + 1) (x :: xs) ++ newline depth ++ "\x7d"

def prettyItems (depth : Nat) : List JsonText → String
  | [] => ""
  | [x] => newline depth ++ prettyAt depth x
  | x :: y :: rest => newline depth ++ prettyAt depth x ++ "," ++ prettyItems depth (y :: rest)

def prettyFields (depth : Nat) : List (String × JsonText) → String
  | [] => ""
  | [(key, x)] => newline depth ++ quote key ++ ": " ++ prettyAt depth x
  | (key, x) :: y :: rest =>
    newline depth ++ quote key ++ ": " ++ prettyAt depth x ++ "," ++ prettyFields depth (y :: rest)

end

def pretty (j : JsonText) : String := prettyAt 0 j

/-! ### Reports and plans -/

def sample (e : Example) : JsonText :=
  object [("before", string e.before), ("after", string e.after)]

def sampleField (i : Issue) : List (String × JsonText) :=
  (i.sample.map fun e => ("code_example", sample e)).toList

/-- An issue by itself, its file as it was given. -/
def issue (i : Issue) : JsonText :=
  object <|
    [("rule", string i.rule), ("severity", string i.severity.label),
      ("category", string i.category.label), ("message", string i.message),
      ("location", object
        [("file", string i.location.file), ("line", number i.location.pos.line),
          ("column", number i.location.pos.column)]),
      ("suggestion", string i.suggestion)] ++ sampleField i

/-- An issue in a report. -/
def reported (i : Issue) : JsonText :=
  object <|
    [("rule", string i.rule), ("severity", string i.severity.label),
      ("category", string i.category.label), ("file", string i.file),
      ("line", number i.location.pos.line), ("column", number i.location.pos.column),
      ("message", string i.message), ("suggestion", string i.suggestion)] ++ sampleField i

def groups (gs : List (String × List Issue)) : JsonText :=
  object (gs.map fun g => (g.1, array (g.2.map reported)))

def summary (s : Summary) : JsonText :=
  object
    [("total_issues", number s.total), ("files_scanned", number s.filesScanned),
      ("files_with_issues", number s.filesWithIssues),
      ("by_severity", object (s.bySeverity.map fun g => (g.1.label, number g.2))),
      ("by_category", object (s.byCategory.map fun g => (g.1.label, number g.2)))]

def report (r : Report) : JsonText :=
  object
    [("summary", summary r.summary),
      ("issues_by_category", groups (r.byCategory.map fun g => (g.1.label, g.2))),
      ("issues_by_severity", groups (r.bySeverity.map fun g => (g.1.label, g.2))),
      ("issues_by_file", groups r.byFile),
      ("recommendations", array (r.recommendations.map string))]

/-- An issue in a task, whose severity and category the task has already. -/
def taskIssue (i : Issue) : JsonText :=
  object
    [("rule", string i.rule), ("file", string i.file), ("line", number i.location.pos.line),
      ("column", number i.location.pos.column), ("message", string i.message)]

def task (t : Task) : JsonText :=
  object
    [("id", string t.id), ("title", string t.title), ("priority", number t.priority),
      ("severity", string t.severity.label), ("category", string t.category.label),
      ("estimated_time", string t.time), ("estimated_minutes", number t.minutes),
      ("description", string t.description), ("issues", array (t.issues.map taskIssue))]

def plan (p : Plan) : JsonText :=
  object
    [("estimated_effort", string p.effort), ("total_minutes", number p.minutes),
      ("priority_order", array (p.order.map string)), ("tasks", array (p.tasks.map task))]

end JsonText
end SheetAudit
