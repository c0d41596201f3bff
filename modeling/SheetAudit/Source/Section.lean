import SheetAudit.Issue
import SheetAudit.Repeats
import SheetAudit.Source.Comment

/-!
# Headers and sections

A style sheet may open with a comment that tells what it holds, and may be divided into sections
by separators, comments that begin with a run of one decorative character.

## Main definitions

* `opensWithComment` — the text opens with a block comment.
* `separatorMark?` — the decorative character of a separator.
* `Separator`, `separators` — the separators of a text.
* `firstChange` — the first separator that does not look like those before it.
-/

namespace SheetAudit
namespace Source

/-- The text opens with a block comment; byte order marks and blanks may stand before it. -/
def opensWithComment (text : List Char) : Bool :=
  "/*".toList.isPrefixOf (Text.trimLeft (text.dropWhile (· == '\ufeff')))

def decorations : List Char := ['=', '-', '#', '*', '~', '_', '+']

/-- The character that a comment begins with at least three times, if it is decorative. -/
def separatorMark? (comment : List Char) : Option Char :=
  match comment with
  | c :: _ =>
    if decorations.contains c && (comment.takeWhile (· == c)).length ≥ 3 then some c else none
  | [] => none

structure Separator where
  mark : Char
  line : Nat
  deriving Repr, DecidableEq

def Comment.separator? (c : Comment) : Option Separator :=
  (separatorMark? c.text).map fun mark => ⟨mark, c.line⟩

def separators (comments : List Comment) : List Separator := comments.filterMap Comment.separator?

/-- The first separator whose mark differs from that of the first separator. -/
def firstChange : List Separator → Option Separator
  | [] => none
  | s :: rest => rest.find? fun t => t.mark != s.mark

/-- Every mark once, written three times between quotes. -/
def showMarks (separators : List Separator) : String :=
  ", ".intercalate ((Repeats.firsts (·.mark) separators).map fun s =>
    s!"'{String.ofList (List.replicate 3 s.mark)}'")

/-- How many lines a text has. -/
def lineCount (text : List Char) : Nat := (Text.lines text).length

end Source
end SheetAudit
