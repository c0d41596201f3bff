import SheetAudit.Text.Lower

/-!
# Choices by name

Settings that are one of a few choices are written as words, in any letter case.

## Main definitions

* `UnknownChoice` — a word that names none of the choices; `UnknownChoice.message` words it.
* `Choice.read` — the choice that a word names.
-/

namespace SheetAudit

/-- A word that names none of the choices. -/
structure UnknownChoice where
  /-- What there is to choose. -/
  subject : String
  word : String
  deriving Repr, DecidableEq

def UnknownChoice.message (e : UnknownChoice) : String := s!"Unknown {e.subject}: {e.word}"

/-- The choice that a word names, whatever its letter case. -/
def Choice.read {α : Type} (subject : String) (choices : List (String × α)) (word : String) :
    Except UnknownChoice α :=
  match choices.lookup (String.ofList (Text.lowerText word.toList)) with
  | some choice => .ok choice
  | none => .error ⟨subject, word⟩

end SheetAudit
