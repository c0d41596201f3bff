import SheetAudit.Files.Tree
import SheetAudit.Glob.Match

/-!
# Ignored files

Directories may hold files with patterns of what version control, or any tool, should pass over.
A later pattern overrides an earlier one, and a pattern of a directory overrides those of the
directories above it.

## Main definitions

* `IgnoreRule`, `IgnoreRule.of?` — one line of such a file.
* `IgnoreRule.verdict` — what rules say of a path.
* `IgnoreFrame` — the rules of one directory, seen from a directory at or below it.
* `isIgnored` — what all rules together say of an entry of a directory.
-/

namespace SheetAudit

/-! ### Rules -/

structure IgnoreRule where
  glob : Glob
  /-- The rule takes back what earlier rules ignore. -/
  keeps : Bool
  directoriesOnly : Bool
  deriving Repr

namespace IgnoreRule

/-- Trailing blanks do not count, unless a backslash stands before the last of them. -/
def trimLine (line : List Char) : List Char :=
  if "\\ ".toList.isSuffixOf line then line else Text.trimRight line

/-- The signs before a pattern: whether the rule keeps, whether the pattern starts at the directory
of the rule, and the pattern. -/
def takeSigns (line : List Char) : Bool × Bool × List Char :=
  match line with
  | '\\' :: '!' :: _ => (false, false, line.drop 1)
  | '\\' :: '#' :: _ => (false, false, line.drop 1)
  | '!' :: '/' :: rest => (true, true, rest)
  | '!' :: rest => (true, false, rest)
  | '/' :: rest => (false, true, rest)
  | _ => (false, false, line)

/-- A slash at the end, which a backslash may stand before, means directories; it is no part of the
pattern. -/
def takeSlash (pattern : List Char) : Bool × List Char :=
  match pattern.reverse with
  | '/' :: '\\' :: rest => (true, rest.reverse)
  | '/' :: rest => (true, rest.reverse)
  | _ => (false, pattern)

/-- A pattern without slashes matches in all directories below; two stars at the end match what a
directory holds but not the directory. -/
def complete (anchored : Bool) (pattern : List Char) : List Char :=
  let pattern :=
    if anchored || pattern.contains '/' || pattern == "**".toList then pattern
    else "**/".toList ++ pattern
  if "/**".toList.isSuffixOf pattern then pattern ++ "/*".toList else pattern

/-- The rule on a line.  Comments, blank lines and lines that hold no pattern are no rules. -/
def of? (line : List Char) : Option IgnoreRule :=
  let trimmed := trimLine line
  if line.head? == some '#' || trimmed.isEmpty then none
  else
    let (keeps, anchored, pattern) := takeSigns trimmed
    let (directoriesOnly, pattern) := takeSlash pattern
    (Glob.parse? true (complete anchored pattern)).map fun tokens =>
      ⟨⟨tokens, true⟩, keeps, directoriesOnly⟩

/-- The rules in a file; byte order marks may stand before them. -/
def read (text : List Char) : List IgnoreRule :=
  match Text.lines text with
  | [] => []
  | first :: rest => (first.dropWhile (· == '\ufeff') :: rest).filterMap of?

/-- What rules say of a path: whether it is ignored, or nothing. -/
def verdict (rules : List IgnoreRule) (path : List Char) (isDirectory : Bool) : Option Bool :=
  (rules.reverse.find? fun r =>
    (isDirectory || !r.directoriesOnly) && r.glob.covers path).map fun r => !r.keeps

end IgnoreRule

/-! ### Rules of several directories -/

/-- The rules of one directory by the file they stand in, seen from a directory at or below it. -/
structure IgnoreFrame where
  /-- The names on the way from the directory of the rules. -/
  below : Place
  /-- The rules for any tool. -/
  general : List IgnoreRule
  /-- The rules for version control. -/
  versioned : List IgnoreRule
  /-- The rules for version control that are not shared. -/
  unshared : List IgnoreRule

namespace IgnoreFrame

def rulesAt (t : Tree) (place : Place) : List IgnoreRule :=
  match t.at? place with
  | some (.file (some text)) => IgnoreRule.read text.toList
  | _ => []

/-- The rules of a directory, seen from itself. -/
def ofDirectory (t : Tree) : IgnoreFrame where
  below := []
  general := rulesAt t [".ignore"]
  versioned := rulesAt t [".gitignore"]
  unshared := rulesAt t [".git", "info", "exclude"]

/-- The rules seen from an entry. -/
def enter (name : String) (f : IgnoreFrame) : IgnoreFrame := { f with below := f.below ++ [name] }

end IgnoreFrame

/-- The entry of a directory is ignored; `frames` holds the rules of the directory and of those above
it, in this order.  Rules for any tool come before those for version control. -/
def isIgnored (frames : List IgnoreFrame) (name : String) (isDirectory : Bool) : Bool :=
  let ask (rules : IgnoreFrame → List IgnoreRule) : Option Bool :=
    frames.findSome? fun f =>
      IgnoreRule.verdict (rules f) ("/".intercalate (f.below ++ [name])).toList isDirectory
  ((ask (·.general) <|> ask (·.versioned) <|> ask (·.unshared)) : Option Bool).getD false

end SheetAudit
