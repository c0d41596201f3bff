import SheetAudit.Rules.Requirement
import SheetAudit.Settings
import SheetAudit.Sheet.Basic
import SheetAudit.Source.Block
import SheetAudit.Source.Section
import SheetAudit.Text.Script

/-!
# Documentation rules

What the comments of a style sheet tell: a header, sections, references to requirements, in one
language and one style of comment.

## Main definitions

* `header`, `sections`, `references`, `languages`, `styles` — the findings of each kind.
* `check` — all findings of these rules; they need the source text.
-/

namespace SheetAudit
namespace Documentation

open Source Text

/-- All documentation rules are of the same weight. -/
def finding (rule message : String) (location : Location) (suggestion : String)
    (sample : Option Example := none) : Issue where
  rule
  severity := .minor
  category := .bestPractice
  message
  location
  suggestion
  sample

/-- Where a comment begins is told by its line alone. -/
def lineStart (s : Sheet) (line : Nat) : Location := s.locate ⟨line, 1⟩

/-! ### Header -/

def missingHeader (s : Sheet) : Issue :=
  finding "comments/missing-header" "File does not start with a header comment" s.start
    "Open the file with a block comment describing what it styles"
    (some ⟨".card \x7b ... \x7d",
      "/*\n * Card component: layout, states and themes.\n */\n.card \x7b ... \x7d"⟩)

/-- The words of a header, without the stars that decorate its lines. -/
def headerText (comment : List Char) : List Char :=
  let undecorated (line : List Char) : List Char := trim ((trim line).dropWhile (· == '*'))
  [' '].intercalate (((lines comment).map undecorated).filter fun line => !line.isEmpty)

def shortHeader (settings : CommentSettings) (s : Sheet) (comment : Comment) : Option Issue :=
  let length := (headerText comment.text).length
  if length ≥ settings.minHeaderLength then none
  else
    some <| finding "comments/short-header"
      (s!"Header comment is {length} characters; at least {settings.minHeaderLength} " ++
        "are expected")
      s.start "Describe the file's purpose and scope in the header"

def header (settings : CommentSettings) (s : Sheet) (source : List Char) : Option Issue :=
  if opensWithComment source then (comments source).head?.bind (shortHeader settings s)
  else some (missingHeader s)

/-! ### Sections -/

/-- The number of blocks that lie in no other; a text with an unclosed comment has none. -/
def blockCount (source : List Char) : Nat :=
  match strip (cells source) with
  | .ok xs => topLevelBlocks xs
  | .error _ => 0

def missingSeparators (s : Sheet) (lines blocks : Nat) : Issue :=
  finding "comments/missing-separators"
    s!"File has {lines} lines and {blocks} top-level blocks but no section separators" s.start
    "Split the file into sections with separator comments"
    (some ⟨"", "/* ========== Layout ========== */"⟩)

def inconsistentSeparators (s : Sheet) (separators : List Separator) (usual : Char)
    (change : Separator) : Issue :=
  finding "comments/inconsistent-separators"
    s!"Section separators mix styles ({showMarks separators})" (lineStart s change.line)
    s!"Use one separator style throughout, e.g. '{String.ofList (List.replicate 10 usual)}'"

/-- Only files that are long or have many blocks need sections. -/
def sections (settings : CommentSettings) (s : Sheet) (source : List Char) : Option Issue :=
  let lines := lineCount source
  let blocks := blockCount source
  if lines ≤ settings.separatorMinLines && blocks < settings.separatorMinBlocks then none
  else
    match separators (comments source) with
    | [] => some (missingSeparators s lines blocks)
    | first :: rest =>
      (firstChange (first :: rest)).map (inconsistentSeparators s (first :: rest) first.mark)

/-! ### References -/

def malformedReference (s : Sheet) (line : Nat) (reference : List Char) : Issue :=
  finding "comments/malformed-requirement-ref"
    s!"Requirement reference '{String.ofList reference}' is not in REQ-NNN form" (lineStart s line)
    s!"Write it as '{String.ofList (Requirement.proper reference)}'"

def references (s : Sheet) (comments : List Comment) : List Issue :=
  comments.flatMap fun c =>
    ((Requirement.references c.text).filter fun r => !Requirement.isProper r).map
      (malformedReference s c.line)

/-! ### Languages -/

/-- Fewer comments do not show in which script the comments of a file are written. -/
def minWritten : Nat := 3

def foreignComment (s : Sheet) (script usual : Script) (line : Nat) : Issue :=
  finding "comments/mixed-language"
    s!"Comment is written in {script.label} while most comments use {usual.label}"
    (lineStart s line) s!"Write comments in one language ({usual.label})"

/-- The script of every comment that has one, with its line; separators have none. -/
def scripts (comments : List Comment) : List (Script × Nat) :=
  comments.filterMap fun c =>
    if c.separator?.isSome then none else (Script.dominant? c.text).map fun script => (script, c.line)

def languages (s : Sheet) (comments : List Comment) : List Issue :=
  let written := scripts comments
  match Repeats.mostFrequent (written.map (·.1)) with
  | none => []
  | some usual =>
    if written.length < minWritten then []
    else
      (written.filter fun w => w.1 != usual).map fun (script, line) =>
        foreignComment s script usual line

/-! ### Styles of comments -/

/-- The rarer style counts as mixed in when it reaches three tenths of the other. -/
def styles (s : Sheet) (comments : List Comment) : Option Issue :=
  let block := comments.countP (·.block)
  let line := comments.length - block
  let rare := min block line
  let usual := max block line
  if rare == 0 || 10 * rare < 3 * usual then none
  else
    (comments.find? fun c => c.block == (block < line : Bool)).map fun c =>
      finding "comments/mixed-styles"
        s!"File mixes {block} block comments and {line} line comments" (lineStart s c.line)
        "Pick one comment style for the file"

/-! ### All documentation rules -/

def check (settings : CommentSettings) (s : Sheet) (source : String) : List Issue :=
  let text := source.toList
  let comments := comments text
  (header settings s text).toList ++ (sections settings s text).toList ++
    references s comments ++ languages s comments ++ (styles s comments).toList

end Documentation
end SheetAudit
