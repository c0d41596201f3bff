import SheetAudit.Text.Blank
import SheetAudit.Text.Lower
import SheetAudit.Text.Search

/-!
# Media queries and dark contexts

Queries are compared without blanks and in small letters, so that the way they are spaced does
not matter.

## Main definitions

* `normalize` — a query in the form in which it is compared.
* `asksDark`, `asksReducedMotion` — the two preferences that a query may ask for.
* `isDarkContext` — a selector or a scope that is reserved for dark themes.
-/

namespace SheetAudit
namespace Query

open Text

/-- The query without blanks and in small letters. -/
def normalize (query : List Char) : List Char :=
  (query.filter fun c => !isBlank c).flatMap lower

def asksDark (query : String) : Bool :=
  contains "prefers-color-scheme:dark".toList (normalize query.toList)

def asksReducedMotion (query : String) : Bool :=
  contains "prefers-reduced-motion:reduce".toList (normalize query.toList)

/-- The text asks for a dark color scheme, or names a dark theme by a class or an attribute. -/
def isDarkContext (text : String) : Bool :=
  let normal := (normalize text.toList).map fun c => if c == '\'' then '"' else c
  ["prefers-color-scheme:dark", ".dark-mode", "[data-theme=\"dark\"]", "[data-theme=dark]"].any
    fun mark => contains mark.toList normal

end Query
end SheetAudit
