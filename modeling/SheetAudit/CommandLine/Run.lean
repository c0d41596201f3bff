import SheetAudit.Audit.Run
import SheetAudit.CommandLine.Basic
import SheetAudit.Files.Scan

/-!
# Running commands

A command works on a file system and prints to the output and to the errors of a session.  When it
fails, what it did before stays done.

## Main definitions

* `Surroundings` — what a command finds around it besides files.
* `Session`, `Work` — what a command works on, and the work itself.
* `AuditRequest.perform`, `InitRequest.perform` — the commands.
* `Invocation.run` — a whole command, with its exit code.
-/

namespace SheetAudit

/-! ### Sessions -/

/-- What a command finds around it besides files. -/
structure Surroundings where
  /-- The directory with the settings of the user. -/
  userDirectory : Option String := none
  /-- The output is a terminal on which colors are welcome. -/
  terminal : Bool := false
  deriving Repr, DecidableEq

def ColorUse.applies (around : Surroundings) : ColorUse → Bool
  | auto => around.terminal
  | always => true
  | never => false

structure Session where
  files : FileSystem
  output : String := ""
  errors : String := ""
  /-- The files that were written, with their texts, in order. -/
  written : List (String × String) := []

/-- The work of a command, which may fail. -/
abbrev Work := ExceptT Failure (StateM Session)

namespace Work

def print (text : String) : Work Unit :=
  modify fun s => { s with output := s.output ++ text }

def printError (text : String) : Work Unit :=
  modify fun s => { s with errors := s.errors ++ text }

/-- An operation on the files. -/
def onFiles (operation : FileSystem → Except FileError FileSystem) : Work Unit := do
  match operation (← get).files with
  | .ok files => modify fun s => { s with files }
  | .error e => throw (.files e)

def write (path text : String) : Work Unit := do
  onFiles fun fs => fs.write path text
  modify fun s => { s with written := s.written ++ [(path, text)] }

/-- Writes a result to a file, in directories that are made for it, or prints it. -/
def deliver (target : Option String) (quiet : Bool) (text : String) : Work Unit := do
  match target with
  | some path =>
    onFiles fun fs => fs.makeDirectories path
    write path text
  | none => unless quiet do print text

end Work

/-! ### Auditing -/

namespace AuditRequest

/-- What is audited: a path, and the directory that it is or lies in. -/
structure Target where
  path : String
  directory : String
  deriving Repr, DecidableEq

/-- A path that leads nowhere stays as it is written. -/
def target (r : AuditRequest) (fs : FileSystem) : Target :=
  match fs.locate r.path with
  | .error _ => ⟨r.path, r.path⟩
  | .ok place =>
    match fs.root.at? place with
    | some (.file _) => ⟨place.text, Place.text place.dropLast⟩
    | _ => ⟨place.text, place.text⟩

/-- The settings that hold for an audit. -/
def settings (r : AuditRequest) (i : Invocation) (around : Surroundings) (fs : FileSystem) :
    Except Failure Settings := do
  let s ←
    if i.noSettings then .ok {}
    else match i.settings with
      | some path => Settings.loadFrom fs path
      | none => Settings.load fs (r.target fs).directory around.userDirectory
  return { s with
    scan := { s.scan with exclude := s.scan.exclude ++ r.exclude }
    run := { s.run with parallel := s.run.parallel && !r.sequential } }

/-- The text of a file, or why there is none. -/
def textOf (fs : FileSystem) (path : String) : Except String String :=
  match fs.locate path with
  | .error e => .error e.message
  | .ok place =>
    match fs.root.at? place with
    | some (.file (some text)) => .ok text
    | some (.file none) => .error "stream did not contain valid UTF-8"
    | _ => .error FileError.isDirectory.message

/-- What an audit finds. -/
def findings (r : AuditRequest) (settings : Settings) (fs : FileSystem) :
    Except Failure Findings := do
  let target := r.target fs
  let filter ← (Filter.of settings.scan.extensions settings.scan.exclude).mapError .badPattern
  let paths ← (fs.scan settings.scan.gitignore filter target.path).mapError
    fun _ => .unreadable target.path
  let auditor : Auditor :=
    { base := target.directory, read := textOf fs, checkers := Checker.standard settings }
  (auditor.run none paths).1.mapError .cancelled

/-- The audit failed if there is an issue that is as severe as was asked for. -/
def exitCode (r : AuditRequest) (report : Report) : Nat :=
  if r.failOn.any report.summary.hasAtLeast then 1 else 0

/-- Audits, and delivers the report and the fix plan. -/
def perform (r : AuditRequest) (i : Invocation) (around : Surroundings) : Work Nat := do
  let fs := (← get).files
  let found ← (do r.findings (← r.settings i around fs) fs : Except Failure Findings)
  unless i.quiet do
    for d in found.diagnostics do Work.printError s!"warning: {d.text}\n"
  Work.deliver r.output i.quiet
    (r.format.render found.report r.grouping (i.color.applies around))
  if r.plan || r.planOutput.isSome then
    if r.planOutput.isNone && r.output.isNone && !i.quiet then Work.print "\n"
    Work.deliver r.planOutput i.quiet (r.planFormat.render found.plan)
  return r.exitCode found.report

end AuditRequest

/-! ### Writing a settings file -/

/-- Writes a settings file, over another only if it is forced to. -/
def InitRequest.perform (r : InitRequest) : Work Nat := do
  if (← get).files.exists? r.output && !r.force then throw (.settingsExist r.output)
  Work.write r.output Settings.template
  Work.print s!"Created configuration file: {r.output}\n"
  return 0

/-! ### Whole commands -/

namespace Invocation

/-- The exit code of a command that failed. -/
def failureCode : Nat := 2

def work (i : Invocation) (around : Surroundings) : Work Nat :=
  match i.command with
  | .audit r => r.perform i around
  | .init r => r.perform

/-- The paths that a command looks at besides those of the style sheets in a directory. -/
def paths (i : Invocation) (around : Surroundings) : List String :=
  match i.command with
  | .audit r =>
    let directories := [r.path, Path.directory r.path]
    directories ++ directories.map (Path.join · Settings.projectFile) ++ i.settings.toList ++
      (around.userDirectory.map (Path.join · Settings.userFile)).toList ++
      r.output.toList ++ r.planOutput.toList
  | .init r => [Path.directory r.output, r.output]

/-- Runs a command on a file system.  The exit code comes with what the session is at the end. -/
def run (i : Invocation) (around : Surroundings) (files : FileSystem) : Nat × Session :=
  match StateT.run (ExceptT.run (i.work around)) { files } with
  | (.ok code, s) => (code, s)
  | (.error e, s) => (failureCode, { s with errors := s.errors ++ s!"Error: {e.message}\n" })

end Invocation
end SheetAudit
