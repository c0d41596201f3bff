import SheetAudit.Rules.Documentation
import SheetAudit.Rules.Focus
import SheetAudit.Rules.Layout
import SheetAudit.Rules.Motion
import SheetAudit.Rules.Naming
import SheetAudit.Rules.Quality
import SheetAudit.Rules.Responsive
import SheetAudit.Rules.Spacing
import SheetAudit.Rules.Theming

/-!
# Checkers

A checker runs a family of rules on one style sheet.  Checkers share nothing, so they may be run
in any order.

## Main definitions

* `Checker` — a named family of rules, which may break down on a sheet.
* `Checker.standard` — the checkers of an ordinary audit, in order.
* `Checker.run` — the issues that checkers find on a sheet.
-/

namespace SheetAudit

/-- A family of rules.  It is given a style sheet and its source text, if there is one; an error
tells why it broke down. -/
structure Checker where
  name : String
  check : Sheet → Option String → Except String (List Issue)

namespace Checker

/-- A checker that never breaks down. -/
def sound (name : String) (check : Sheet → Option String → List Issue) : Checker :=
  ⟨name, fun s source => .ok (check s source)⟩

def naming (settings : Settings) : Checker :=
  sound "naming" fun s _ => Naming.check settings.naming s

def color (settings : Settings) : Checker :=
  sound "color" fun s _ => Theming.check settings.color s

def spacing : Checker := sound "spacing" fun s _ => Spacing.check s

def animation : Checker := sound "animation" fun s _ => Motion.check s ++ Focus.check s

def responsive (settings : Settings) : Checker :=
  sound "responsive" fun s source =>
    Responsive.check settings.responsive s ++ Layout.check s source

def quality (settings : Settings) : Checker :=
  sound "quality" fun s _ => Quality.check settings.quality s

def comments (settings : Settings) : Checker :=
  sound "comments" fun s source => source.elim [] (Documentation.check settings.comments s)

/-- The checkers of an ordinary audit. -/
def standard (settings : Settings) : List Checker :=
  [naming settings, color settings, spacing, animation, responsive settings, quality settings,
    comments settings]

/-- The issues that checkers find, in their order; one that breaks down finds none. -/
def run (checkers : List Checker) (s : Sheet) (source : Option String) : List Issue :=
  checkers.flatMap fun c => (c.check s source).toOption.getD []

end Checker
end SheetAudit
