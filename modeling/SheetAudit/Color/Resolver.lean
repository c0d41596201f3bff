import SheetAudit.Color.Notation
import SheetAudit.Sheet.Basic

/-!
# Resolving references to colors

A value that refers to a custom property denotes what the property denotes.  Of the
declarations of a property the last one outside dark themes counts, and one for dark themes only
if there is no other.

## Main definitions

* `chosen?` — the value of the declaration that counts.
* `fallback?` — what a reference falls back to.
* `resolve` — the color a value denotes after at most `maxSteps` references.
-/

namespace SheetAudit
namespace Color

open Text

/-- The longest chain of references that is followed. -/
def maxSteps : Nat := 8

/-- The value of the declaration of `name` that counts. -/
def chosen? (declared : List Variable) (name : List Char) : Option String :=
  let named (v : Variable) : Bool := v.name.toList == name
  let last (p : Variable → Bool) : Option String :=
    (declared.reverse.find? fun v => p v && named v).map (·.value)
  (last fun v => !v.isDark).orElse fun _ => last fun v => v.isDark

/-- The text after the first comma outside parentheses. -/
def afterComma? (depth : Nat) : List Char → Option (List Char)
  | [] => none
  | c :: cs =>
    if c == ',' && depth == 0 then some cs
    else afterComma? (if c == '(' then depth + 1 else if c == ')' then depth - 1 else depth) cs

/-- What a reference in small letters falls back to when its property is not declared. -/
def fallback? (value : List Char) : Option (List Char) := do
  let rest ← "var(".toList.isPrefixOf? (trim value)
  match rest.reverse with
  | ')' :: inner => (afterComma? 0 inner.reverse).map trim
  | _ => none

/-- The color that a value denotes after at most `steps` references. -/
def resolveIn (declared : List Variable) : Nat → List Char → Option Rgb
  | steps, value =>
    if (Value.reference? value).isNone then parse? value
    else
      match steps with
      | 0 => none
      | steps + 1 => do
        let name ← (Value.references value).head?
        match chosen? declared name with
        | some found => resolveIn declared steps (trim found.toList)
        | none => resolveIn declared steps (← fallback? value)

/-- The color that a value denotes in a style sheet. -/
def resolve (declared : List Variable) (value : List Char) : Option Rgb :=
  resolveIn declared maxSteps (trim (Value.dropImportant value))

end Color
end SheetAudit
