import SheetAudit.CommandLine.Basic

/-!
# Help on command lines

## Main definitions

* `helpText`, `versionText` — what there is to ask for.
* `UsageError.message` — what is wrong with a command line.
-/

namespace SheetAudit

def versionText : String := "style-audit 0.1.0\n"

def helpText : String :=
  "\n".intercalate
    ["Audits style sheets for naming, theming, spacing, motion, responsiveness, quality and",
      "documentation problems, and plans the fixes.",
      "",
      "Usage: style-audit [OPTIONS] <COMMAND>",
      "",
      "Commands:",
      "  audit [PATH]  Audit the style sheets under a path",
      "  init          Generate a default configuration file",
      "  help          Print this message",
      "",
      "Options:",
      "  -v, --verbose        Increase output verbosity",
      "  -q, --quiet          Suppress non-essential output",
      "      --color <WHEN>   auto, always or never",
      "      --no-config      Skip loading configuration file",
      "  -c, --config <FILE>  Path to configuration file",
      "  -h, --help           Print help",
      "  -V, --version        Print version",
      "",
      "Options of audit:",
      "  -f, --format <FORMAT>       text, markdown, html or json",
      "  -o, --output <FILE>         Write the report to a file",
      "      --plan                  Also render the fix plan",
      "      --plan-format <FORMAT>  text or json",
      "      --plan-output <FILE>    Write the fix plan to a file (implies --plan)",
      "      --group-by <GROUP>      category, severity or file",
      "      --fail-on <SEVERITY>    critical, moderate, minor or never",
      "      --sequential            Process files one at a time",
      "  -x, --exclude <GLOB>        Exclude files (may be repeated)",
      "",
      "Options of init:",
      "  -o, --output <FILE>  Output path for configuration file",
      "      --force          Overwrite existing configuration",
      "",
      "Exit codes:",
      "  0 - Audit passed",
      "  1 - Issues at or above the --fail-on severity found",
      "  2 - Configuration or runtime error",
      ""]

namespace UsageError

def message : UsageError → String
  | helpWanted | nothingGiven => helpText
  | versionWanted => versionText
  | noCommand => "error: a command is missing\n"
  | unknownCommand => "error: there is no such command\n"
  | unknownOption => "error: there is no such option\n"
  | invalidValue | rejectedValue => "error: the value of an option is missing or unknown\n"
  | unexpectedValue => "error: an option takes no value\n"
  | repeatedOption => "error: an option is given twice\n"

/-- Help and version are wanted, all else is an error. -/
def isError : UsageError → Bool
  | helpWanted | versionWanted => false
  | _ => true

/-- The exit code of a command line that asks for nothing that can be done. -/
def exitCode (e : UsageError) : Nat := if e.isError then 2 else 0

end UsageError
end SheetAudit
