import SheetAudit.Files.Path
import SheetAudit.Glob.Match
import SheetAudit.Settings
import SheetAudit.Text.Lower

/-!
# Which files are audited

A file is audited for its extension, unless a pattern excludes its path.  Paths are those below the
directory that is audited.

## Main definitions

* `Filter` — extensions and patterns.
* `Filter.of` — the filter for a list of extensions and a list of patterns.
* `Filter.admits` — the file at a path is audited.
-/

namespace SheetAudit

structure Filter where
  /-- In small letters and without dots before them; none at all stand for all. -/
  extensions : List (List Char)
  excluded : List Glob

/-- A pattern that is none. -/
structure BadPattern where
  pattern : String
  deriving Repr, DecidableEq

namespace Filter

/-- Wildcards in the pattern pass over slashes. -/
def readPattern (pattern : String) : Except BadPattern Glob :=
  match Glob.parse? false pattern.toList with
  | some tokens => .ok ⟨tokens, false⟩
  | none => .error ⟨pattern⟩

/-- The filter for these extensions and patterns, or the first pattern that is none. -/
def of (extensions exclude : List String) : Except BadPattern Filter := do
  let excluded ← exclude.mapM readPattern
  return {
    extensions := extensions.map fun e => Text.lowerText (e.toList.dropWhile (· == '.'))
    excluded }

/-- The path as patterns see it: with slashes that lean forward, and without a dot at its start. -/
def matchingForm (path : List Char) : List Char :=
  let path := path.map fun c => if c == '\\' then '/' else c
  let rest := ("./".toList.isPrefixOf? path).getD path
  if rest == ['.'] then [] else rest

def hasExtension (f : Filter) (path : List Char) : Bool :=
  f.extensions.isEmpty ||
    (Path.extension? path).any fun e => f.extensions.any fun known => Text.sameAscii known e

def isExcluded (f : Filter) (path : List Char) : Bool :=
  f.excluded.any fun g => g.covers (matchingForm path)

/-- The file at a path is audited. -/
def admits (f : Filter) (path : List Char) : Bool := f.hasExtension path && !f.isExcluded path

end Filter
end SheetAudit
