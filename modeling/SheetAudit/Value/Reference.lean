import SheetAudit.Text.Blank
import SheetAudit.Text.Search

/-!
# References in values

A value refers to a custom property by `var(--name)` or `var(--name, fallback)`.  Whatever a
reference holds, its fallback included, is not written literally in the value, so every search
for literals looks at the value with its references taken out.

## Main definitions

* `dropImportant` — the value without a trailing `!important`.
* `takeArguments` — the arguments of a call and what follows it.
* `blankReferences` — the value with one space in place of every reference.
* `references` — the names that are referred to, in order.
* `isReference` — the value consists of references only.
-/

namespace SheetAudit
namespace Value

open Text

/-- The value up to its first `!important`, in any letter case. -/
def dropImportant (value : List Char) : List Char :=
  match splitAscii? "!important".toList value with
  | some (before, _) => trimRight before
  | none => value

/-- The arguments of a call whose opening parenthesis has been read, and what follows its closing
one; `depth` parentheses were opened inside. -/
def takeArguments (depth : Nat) : List Char → List Char × List Char
  | [] => ([], [])
  | c :: cs =>
    if c == ')' && depth == 0 then ([], cs)
    else
      let r := takeArguments
        (if c == '(' then depth + 1 else if c == ')' then depth - 1 else depth) cs
      (c :: r.1, r.2)

theorem length_takeArguments (depth : Nat) (cs : List Char) :
    (takeArguments depth cs).2.length ≤ cs.length := by
  induction cs generalizing depth with
  | nil => simp [takeArguments]
  | cons c cs ih =>
    rw [takeArguments]
    split
    · simp
    · exact Nat.le_succ_of_le (ih _)

/-- What follows `var(` at the start of a text, in any letter case. -/
def reference? (cs : List Char) : Option (List Char) := dropAscii? "var(".toList cs

theorem length_reference? {cs rest : List Char} (h : reference? cs = some rest) :
    rest.length < cs.length := by
  have := length_dropAscii? h
  have : ("var(".toList).length = 4 := by decide
  omega

/-- The value with one space in place of every reference; a reference that is never closed
reaches to the end. -/
def blankReferences (value : List Char) : List Char :=
  match value with
  | [] => []
  | c :: cs =>
    match _h : reference? (c :: cs) with
    | some rest => ' ' :: blankReferences (takeArguments 0 rest).2
    | none => c :: blankReferences cs
termination_by value.length
decreasing_by
  · have h₁ := length_reference? _h
    have h₂ := length_takeArguments 0 rest
    omega
  · simp

/-- The first argument of a reference, which names the property. -/
def referredName (arguments : List Char) : List Char :=
  trim (arguments.takeWhile (· != ','))

/-- The names that the value refers to, in order; those inside fallbacks do not count. -/
def references (value : List Char) : List (List Char) :=
  match value with
  | [] => []
  | c :: cs =>
    match _h : reference? (c :: cs) with
    | some rest =>
      let name := referredName (takeArguments 0 rest).1
      if name.isEmpty then references (takeArguments 0 rest).2
      else name :: references (takeArguments 0 rest).2
    | none => references cs
termination_by value.length
decreasing_by
  · have h₁ := length_reference? _h
    have h₂ := length_takeArguments 0 rest
    omega
  · have h₁ := length_reference? _h
    have h₂ := length_takeArguments 0 rest
    omega
  · simp

/-- The value as matchers for literals see it. -/
def literalPart (value : List Char) : List Char := blankReferences (dropImportant value)

/-- The value consists of references only. -/
def isReference (value : List Char) : Bool :=
  let value := trim (dropImportant value)
  (reference? value).isSome && (blankReferences value).all isBlank

end Value
end SheetAudit
