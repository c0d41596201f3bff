import SheetAudit.CommandLine.Help
import SheetAudit.CommandLine.Reading
import SheetAudit.CommandLine.Run

/-!
# The program

Reads the command line and the files that it concerns, runs the command, writes the files that it
leaves behind and prints its output.

The files below a directory that is audited are those named on the standard input, one to a line.
-/

namespace SheetAudit

/-- What a path leads to, a file with its text or a directory, if anything. -/
def treeAt? (path : String) : IO (Option Tree) := do
  try return some (.file (String.fromUTF8? (← IO.FS.readBinFile path)))
  catch _ =>
    try
      discard (IO.FS.realPath path)
      return some (.directory [])
    catch _ => return none

/-- The file system with what a path leads to. -/
def FileSystem.withPath (fs : FileSystem) (path : String) : IO FileSystem := do
  match ← treeAt? path with
  | some t => return fs.add path t
  | none => return fs

/-- The rest of the lines of a stream. -/
partial def remainingLines (input : IO.FS.Stream) (lines : List String) : IO (List String) := do
  let line ← input.getLine
  if line.isEmpty then return lines.reverse
  remainingLines input ((if line.endsWith "\n" then (line.dropEnd 1).toString else line) :: lines)

/-- The part of the file system that a command looks at. -/
def Invocation.fileSystem (i : Invocation) (around : Surroundings) : IO FileSystem := do
  let listed ←
    match i.command with
    | .audit r =>
      match ← treeAt? r.path with
      | some (.directory _) => remainingLines (← IO.getStdin) []
      | _ => pure []
    | .init _ => pure []
  (i.paths around ++ listed).foldlM FileSystem.withPath { root := .directory [] }

def surroundings : IO Surroundings := do
  let directory ←
    match ← IO.getEnv "XDG_CONFIG_HOME" with
    | some directory => pure (some directory)
    | none => pure ((← IO.getEnv "HOME").map fun home => Path.join home ".config")
  return {
    userDirectory := directory.map fun d => Path.join d "style-audit"
    terminal := (← (← IO.getStdout).isTty) && (← IO.getEnv "NO_COLOR").isNone }

def Invocation.execute (i : Invocation) : IO UInt32 := do
  let around ← surroundings
  let (code, session) := i.run around (← i.fileSystem around)
  for (path, text) in session.written do
    IO.FS.createDirAll (Path.directory path)
    IO.FS.writeFile path text
  IO.print session.output
  IO.eprint session.errors
  return code.toUInt32

end SheetAudit

open SheetAudit in
def main (args : List String) : IO UInt32 := do
  match Invocation.read args with
  | .ok i => i.execute
  | .error e =>
    if e.isError then IO.eprint e.message else IO.print e.message
    return e.exitCode.toUInt32
