import SheetAudit.Text.Search

/-!
# Paths

A path is a text of parts between slashes.  Repeated slashes count as one, and a part that is a
single dot counts only at the very start of a path.

## Main definitions

* `Part` — the root, the current directory, the parent directory or a name.
* `next?` — the first part of a path and what follows it; `parts` — all parts.
* `relative?` — a path without the parts of a directory above it, as it is written.
* `display` — how reports show a path under a project root.
* `fileName?`, `extension?`, `directory`, `join` — the usual operations.
-/

namespace SheetAudit
namespace Path

inductive Part where
  | root
  | current
  | parent
  | name (name : List Char)
  deriving Repr, DecidableEq

/-! ### Parts -/

/-- Up to the next slash, and what follows the slash. -/
def cutSlash (cs : List Char) : List Char × List Char :=
  (cs.takeWhile (· != '/'), (cs.dropWhile (· != '/')).drop 1)

theorem length_cutSlash {c : Char} {cs : List Char} :
    (cutSlash (c :: cs)).2.length < (c :: cs).length := by
  have h : ((c :: cs).dropWhile (· != '/')).length ≤ (c :: cs).length :=
    (List.dropWhile_sublist _).length_le
  simp only [cutSlash, List.length_drop, List.length_cons] at *
  omega

/-- The parts between slashes, empty ones and dots left out, with what follows each. -/
def nextName? (cs : List Char) : Option (Part × List Char) :=
  match cs with
  | [] => none
  | c :: rest =>
    let name := (cutSlash (c :: rest)).1
    if name.isEmpty || name == ['.'] then nextName? (cutSlash (c :: rest)).2
    else if name == ['.', '.'] then some (.parent, (cutSlash (c :: rest)).2)
    else some (.name name, (cutSlash (c :: rest)).2)
termination_by cs.length
decreasing_by exact length_cutSlash

theorem length_nextName? {cs rest : List Char} {p : Part} (h : nextName? cs = some (p, rest)) :
    rest.length < cs.length := by
  fun_induction nextName? cs with
  | case1 => simp at h
  | case2 c tail _ _ ih => exact Nat.lt_trans (ih h) length_cutSlash
  | case3 c tail => simp only [Option.some.injEq, Prod.mk.injEq] at h; exact h.2 ▸ length_cutSlash
  | case4 c tail => simp only [Option.some.injEq, Prod.mk.injEq] at h; exact h.2 ▸ length_cutSlash

/-- The first part of a path and what follows it. -/
def next? : List Char → Option (Part × List Char)
  | '/' :: cs => some (.root, cs)
  | ['.'] => some (.current, [])
  | '.' :: '/' :: cs => some (.current, '/' :: cs)
  | cs => nextName? cs

/-- The parts of a path after its first. -/
def names (cs : List Char) : List Part :=
  match _h : nextName? cs with
  | some (p, rest) => p :: names rest
  | none => []
termination_by cs.length
decreasing_by exact length_nextName? _h

def parts (path : List Char) : List Part :=
  match next? path with
  | some (p, rest) => p :: names rest
  | none => []

/-! ### Paths below a directory -/

/-- The parts `base` taken away after the first part of a path. -/
def dropNames? : List Part → List Char → Option (List Char)
  | [], cs => some cs
  | p :: base, cs =>
    match nextName? cs with
    | some (q, rest) => if p == q then dropNames? base rest else none
    | none => none

/-- Without slashes and dots at the start that are no parts. -/
def tidyLeft (cs : List Char) : List Char :=
  match cs with
  | [] => []
  | c :: rest =>
    let name := (cutSlash (c :: rest)).1
    if name.isEmpty || name == ['.'] then tidyLeft (cutSlash (c :: rest)).2 else c :: rest
termination_by cs.length
decreasing_by exact length_cutSlash

/-- The same at the end; at least `keep` characters stay. -/
def tidyRight (keep : Nat) (cs : List Char) : List Char :=
  let body := cs.drop keep
  cs.take keep ++ (go body.reverse).reverse
where
  /-- Drops slashes, and dots after a slash, from a text given backwards. -/
  go : List Char → List Char
    | '/' :: cs => go cs
    | ['.'] => []
    | '.' :: '/' :: cs => go cs
    | cs => cs

/-- The part of `path` below `base`, as it is written, if `path` begins with the parts of `base`. -/
def relative? (base path : List Char) : Option (List Char) :=
  match parts base with
  | [] =>
    let keep := match next? path with | some (.root, _) | some (.current, _) => 1 | _ => 0
    some (tidyRight keep path)
  | p :: base =>
    match next? path with
    | some (q, rest) =>
      if p == q then (dropNames? base rest).map fun cs => tidyRight 0 (tidyLeft cs) else none
    | none => none

/-- A path relative to a project root that it lies under, with slashes that lean forward. -/
def display (root : Option String) (path : String) : String :=
  let shown :=
    (root.bind fun r => relative? r.toList path.toList).getD path.toList
  let shown := shown.map fun c => if c == '\\' then '/' else c
  if shown.isEmpty then "." else String.ofList shown

/-! ### Names -/

/-- The last part, if it is a name. -/
def fileName? (path : List Char) : Option (List Char) :=
  match (parts path).getLast? with
  | some (.name n) => some n
  | _ => none

/-- What follows the last dot of the file name, unless the name begins with that dot. -/
def extension? (path : List Char) : Option (List Char) :=
  (fileName? path).bind fun name =>
    let ext := (name.reverse.takeWhile (· != '.')).reverse
    if ext.length + 1 < name.length then some ext else none

/-- The directory that a path names its last part in. -/
def directory (path : String) : String :=
  let above := (path.toList.reverse.dropWhile (· != '/')).reverse
  if above.isEmpty then "." else String.ofList above

/-- A path inside a directory; an absolute path stays as it is. -/
def join (directory path : String) : String :=
  if path.startsWith "/" || directory.isEmpty then path
  else if directory.endsWith "/" then directory ++ path
  else directory ++ "/" ++ path

end Path
end SheetAudit
