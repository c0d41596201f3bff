/-!
# Settings

What a project may set about an audit, with the values that hold where nothing is set.

## Main definitions

* `Settings` — all settings, one structure for each area.
* `Settings.version` — the version of the settings format, which may be left out.
-/

namespace SheetAudit

/-- Which files are audited. -/
structure ScanSettings where
  /-- Leave out what version control ignores. -/
  gitignore : Bool := true
  /-- Extensions of style sheets, without the dot. -/
  extensions : List String := ["css", "scss", "less"]
  /-- Glob patterns of files that are left out. -/
  exclude : List String :=
    ["**/node_modules/**", "**/dist/**", "**/build/**", "**/*.min.css"]
  deriving Repr, DecidableEq

structure NamingSettings where
  /-- Prefixes that mark a color by its role. -/
  rolePrefixes : List String :=
    ["--text-", "--bg-", "--border-", "--accent-", "--surface-", "--shadow-", "--focus-"]
  /-- Shared tokens that may be named after their color. -/
  sharedTokens : List String :=
    ["--white", "--black", "--color-white", "--color-black", "--color-primary",
      "--color-secondary"]
  deriving Repr, DecidableEq

structure ColorSettings where
  /-- The least contrast ratio between text and background. -/
  minContrast : Float := 4.5

/-- Widths and sizes in pixels. -/
structure ResponsiveSettings where
  breakpoints : List Float := [480, 640, 768, 1024, 1280, 1536]
  /-- How far from a breakpoint a width still counts as standard. -/
  tolerance : Float := 2
  /-- Breakpoints that lie closer together, but not within the tolerance, are near duplicates. -/
  nearDuplicateRange : Float := 20
  minTouchTarget : Float := 44

structure QualitySettings where
  maxUtilitySpecificity : Nat := 20
  /-- The most compounds that a selector may have. -/
  maxNestingDepth : Nat := 3
  deriving Repr, DecidableEq

structure CommentSettings where
  minHeaderLength : Nat := 20
  /-- Files with more lines need section separators. -/
  separatorMinLines : Nat := 100
  /-- Files with as many top-level blocks need section separators. -/
  separatorMinBlocks : Nat := 5
  deriving Repr, DecidableEq

structure RunSettings where
  parallel : Bool := true
  deriving Repr, DecidableEq

structure Settings where
  version : Option String := none
  scan : ScanSettings := {}
  naming : NamingSettings := {}
  color : ColorSettings := {}
  responsive : ResponsiveSettings := {}
  quality : QualitySettings := {}
  comments : CommentSettings := {}
  run : RunSettings := {}

end SheetAudit
