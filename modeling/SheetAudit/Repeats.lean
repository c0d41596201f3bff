/-!
# First occurrences and repeats

Lists whose members are told apart by a key.

## Main definitions

* `firsts` — the members whose key does not occur earlier.
* `repeats` — the other members, each with the first member of its key.
* `mostFrequent` — the member that occurs most often, the earlier of two that occur equally often.
-/

namespace SheetAudit
namespace Repeats

variable {α κ : Type} [BEq κ]

/-- `seen` holds the keys met already. -/
def firstsFrom (key : α → κ) (seen : List κ) : List α → List α
  | [] => []
  | x :: xs =>
    if seen.contains (key x) then firstsFrom key seen xs
    else x :: firstsFrom key (key x :: seen) xs

/-- The members of a list whose key does not occur earlier. -/
def firsts (key : α → κ) (xs : List α) : List α := firstsFrom key [] xs

/-- `seen` holds the first members met already. -/
def repeatsFrom (key : α → κ) (seen : List α) : List α → List (α × α)
  | [] => []
  | x :: xs =>
    match seen.find? fun y => key y == key x with
    | some y => (y, x) :: repeatsFrom key seen xs
    | none => repeatsFrom key (x :: seen) xs

/-- The members of a list whose key occurs earlier, each after the first member with that key. -/
def repeats (key : α → κ) (xs : List α) : List (α × α) := repeatsFrom key [] xs

/-- The member with the greatest count, the earliest of several. -/
def greatest (count : α → Nat) : List α → Option α
  | [] => none
  | x :: xs =>
    match greatest count xs with
    | some y => if count y > count x then some y else some x
    | none => some x

/-- The member that occurs most often, the earliest of several. -/
def mostFrequent [BEq α] (xs : List α) : Option α :=
  greatest (fun x => xs.count x) (firsts id xs)

end Repeats
end SheetAudit
