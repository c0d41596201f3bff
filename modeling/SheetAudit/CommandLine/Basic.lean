import SheetAudit.Render.Format
import SheetAudit.Settings.Loading

/-!
# Command lines

What may be asked for on the command line, and how a command line can be wrong.

## Main definitions

* `Invocation` — a command line that has been understood.
* `AuditRequest`, `InitRequest` — the two commands.
* `UsageError` — why a command line asks for nothing that can be done.
-/

namespace SheetAudit

/-- When the report is colored. -/
inductive ColorUse where
  /-- If the output is a terminal. -/
  | auto
  | always
  | never
  deriving Repr, DecidableEq

/-- Audit the style sheets that a path leads to. -/
structure AuditRequest where
  path : String := "."
  format : ReportFormat := .text
  /-- The file for the report, which is printed otherwise. -/
  output : Option String := none
  /-- The fix plan is wanted too. -/
  plan : Bool := false
  planFormat : PlanFormat := .text
  /-- The file for the fix plan, which is wanted then. -/
  planOutput : Option String := none
  grouping : Grouping := .category
  /-- The mildest severity of an issue that fails the audit; with none, no issue does. -/
  failOn : Option Severity := some .critical
  /-- One file after the other. -/
  sequential : Bool := false
  /-- Glob patterns of files that are left out besides those of the settings. -/
  exclude : List String := []
  deriving Repr, DecidableEq

/-- Write a settings file with the ordinary values. -/
structure InitRequest where
  output : String := Settings.projectFile
  /-- Write over a file that is there. -/
  force : Bool := false
  deriving Repr, DecidableEq

inductive Command where
  | audit (request : AuditRequest)
  | init (request : InitRequest)
  deriving Repr, DecidableEq

/-- A command with what holds for all commands. -/
structure Invocation where
  /-- How often more detail was asked for. -/
  verbosity : Nat := 0
  /-- Print nothing but errors. -/
  quiet : Bool := false
  color : ColorUse := .auto
  /-- Leave all settings files aside. -/
  noSettings : Bool := false
  /-- The settings file that is used in place of those of the project and the user. -/
  settings : Option String := none
  command : Command
  deriving Repr, DecidableEq

/-- Why a command line asks for nothing that can be done. -/
inductive UsageError where
  | helpWanted
  | versionWanted
  /-- The command line is empty. -/
  | nothingGiven
  /-- There are options, but no command. -/
  | noCommand
  | unknownCommand
  /-- An option that the command does not have, or a word that has no place. -/
  | unknownOption
  /-- A value is missing or not among those that there are. -/
  | invalidValue
  /-- A value that no choice is called by. -/
  | rejectedValue
  /-- A value for an option that takes none. -/
  | unexpectedValue
  /-- An option is given twice that may be given once. -/
  | repeatedOption
  deriving Repr, DecidableEq

end SheetAudit
