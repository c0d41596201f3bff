import SheetAudit.Audit.Basic
import SheetAudit.Files.Filter
import SheetAudit.Files.Tree
import SheetAudit.Settings.Reading

/-!
# Failures

What ends a command without its result.

## Main definitions

* `Failure` — the causes; `Failure.message` words them.
-/

namespace SheetAudit

inductive Failure where
  | settings (e : SettingsError)
  /-- Settings would be written over a file that is there. -/
  | settingsExist (path : String)
  | unreadable (path : String)
  | badPattern (e : BadPattern)
  | cancelled (c : Cancellation)
  | files (e : FileError)
  deriving Repr, DecidableEq

def Failure.message : Failure → String
  | settings .malformed => "TOML parse error: not a TOML document, or a value of the wrong kind"
  | settings (.unsupportedVersion v) =>
    s!"Configuration error: Unsupported config version '{v}'. " ++
      s!"Only version '{Settings.supportedVersion}' is supported."
  | settingsExist path =>
    s!"Configuration error: Configuration file already exists: {path}. Use --force to overwrite."
  | unreadable path => s!"Failed to read file: {path}"
  | badPattern e => s!"Invalid glob pattern: {e.pattern}"
  | cancelled c => c.message
  | files e => s!"IO error: {e.message}"

end SheetAudit
