import SheetAudit.Failure

/-!
# Where settings come from

A project keeps its settings in a file in its directory.  Without one, the settings of the user hold,
and without these the ordinary values.

## Main definitions

* `Settings.loadFrom` — the settings in a file.
* `Settings.load` — the settings that hold for a project.
* `Settings.template` — a file with the ordinary values, explained.
-/

namespace SheetAudit
namespace Settings

/-- The name of the file in the directory of a project. -/
def projectFile : String := ".style-audit.toml"

/-- The name of the file in the directory of the user. -/
def userFile : String := "config.toml"

/-- The settings in a file. -/
def loadFrom (fs : FileSystem) (path : String) : Except Failure Settings :=
  match fs.read? path with
  | none => .error (.unreadable path)
  | some document =>
    match read document with
    | .ok settings => .ok settings
    | .error e => .error (.settings e)

/-- The settings that hold for the project in a directory. -/
def load (fs : FileSystem) (project : String) (user : Option String) : Except Failure Settings :=
  let candidates := Path.join project projectFile :: (user.map fun d => Path.join d userFile).toList
  match candidates.find? fs.exists? with
  | some path => loadFrom fs path
  | none => .ok {}

/-- A file with the ordinary values, explained. -/
def template : String :=
  "\n".intercalate
    ["# style-audit configuration file",
      "version = \"1\"",
      "",
      "[scanner]",
      "# Style-sheet extensions to audit",
      "extensions = [\"css\", \"scss\", \"less\"]",
      "",
      "# Exclude patterns (glob syntax, relative to the audited directory)",
      "exclude = [",
      "    \"**/node_modules/**\",",
      "    \"**/dist/**\",",
      "    \"**/build/**\",",
      "    \"**/*.min.css\",",
      "]",
      "",
      "# Skip files ignored by .gitignore (default: true)",
      "gitignore = true",
      "",
      "[naming]",
      "# Prefixes of role-based color variables",
      "role_prefixes = [\"--text-\", \"--bg-\", \"--border-\", \"--accent-\", \"--surface-\", \"--shadow-\", \"--focus-\"]",
      "",
      "# Theme tokens allowed to carry a literal color name",
      "shared_tokens = [\"--white\", \"--black\", \"--color-white\", \"--color-black\", \"--color-primary\", \"--color-secondary\"]",
      "",
      "[color]",
      "# Minimum WCAG contrast ratio between text and background (default: 4.5)",
      "min_contrast = 4.5",
      "",
      "[responsive]",
      "# Standard breakpoints in px",
      "breakpoints = [480.0, 640.0, 768.0, 1024.0, 1280.0, 1536.0]",
      "",
      "# A query within this many px of a breakpoint counts as standard",
      "tolerance = 2.0",
      "",
      "# Breakpoints closer than this are near-duplicates",
      "near_duplicate_range = 20.0",
      "",
      "# Minimum size of interactive elements in px",
      "min_touch_target = 44.0",
      "",
      "[quality]",
      "# Highest specificity allowed for a utility class selector",
      "max_utility_specificity = 20",
      "",
      "# Maximum compound selectors in one selector",
      "max_nesting_depth = 3",
      "",
      "[comments]",
      "# Minimum length of the file header comment",
      "min_header_length = 20",
      "",
      "# Files longer than this need section separators",
      "separator_min_lines = 100",
      "",
      "# Files with at least this many top-level blocks need section separators",
      "separator_min_blocks = 5",
      "",
      "[audit]",
      "# Process files in parallel (default: true)",
      "parallel = true",
      ""]

end Settings
end SheetAudit
