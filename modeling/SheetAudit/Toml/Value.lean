/-!
# TOML values

A TOML document is a table that is put together statement by statement.  How a table was written
decides what later statements may add to it: a table with a header of its own, or in braces, is
complete, but tables that were only mentioned on the way to others may be defined later.

## Main definitions

* `Value` — a value; tables remember how they were written.
* `Table.assign?` — a table with one more key and value.
* `Table.define?`, `Table.extend?` — a table with one more header, for a table or for an element of
  an array of tables.
-/

namespace SheetAudit
namespace Toml

/-- How a table was written. -/
inductive Origin where
  /-- With a header. -/
  | header
  /-- On the way to a table with a header. -/
  | implied
  /-- On the way of a dotted key. -/
  | dotted
  /-- Between braces. -/
  | inline
  deriving Repr, DecidableEq

inductive Value where
  | text (s : String)
  | integer (n : Int)
  | float (x : Float)
  | boolean (b : Bool)
  /-- A date, a time of day or both; which one is not kept. -/
  | moment
  | list (items : List Value)
  | table (origin : Origin) (entries : List (String × Value))
  /-- The tables of an array that is written header by header. -/
  | tables (elements : List (List (String × Value)))
  deriving Repr

/-- Keys with their values, in the order in which they were first mentioned. -/
abbrev Table := List (String × Value)

namespace Table

/-- The table with another value for a key that it has. -/
def replace (t : Table) (key : String) (v : Value) : Table :=
  t.map fun e => if e.1 == key then (key, v) else e

/-- Whether statements may reach into a table; a dotted key may not reach into one with a header. -/
def isOpen (dotted : Bool) : Origin → Bool
  | .header => !dotted
  | .implied => true
  | .dotted => true
  | .inline => false

/-- Changes the table at the end of a path; tables on the way that are missing are made.  The last
table stands for an array of tables. -/
def within? (dotted : Bool) (change : Origin → Table → Option Table) :
    Origin → List String → Table → Option Table
  | origin, [], t => change origin t
  | _, key :: path, t =>
    match t.lookup key with
    | none =>
      let origin : Origin := if dotted then .dotted else .implied
      (within? dotted change origin path []).map fun sub => t ++ [(key, .table origin sub)]
    | some (.table origin sub) =>
      if isOpen dotted origin then
        (within? dotted change origin path sub).map fun sub => t.replace key (.table origin sub)
      else none
    | some (.tables elements) =>
      elements.getLast?.bind fun last =>
        (within? dotted change .header path last).map fun last =>
          t.replace key (.tables (elements.dropLast ++ [last]))
    | some _ => none

/-- Adds a key that the table does not have.  A dotted key adds to a table that only dotted keys
have mentioned, and such a table is added to by dotted keys alone. -/
def add? (dotted : Bool) (key : String) (v : Value) (origin : Origin) (t : Table) : Option Table :=
  if dotted != (origin == .dotted) || (t.lookup key).isSome then none else some (t ++ [(key, v)])

/-- The table with one more key and value. -/
def assign? (origin : Origin) (t : Table) (path : List String) (v : Value) : Option Table :=
  match path.getLast? with
  | none => none
  | some key =>
    let dotted := path.length > 1
    t.within? dotted (add? dotted key v) origin path.dropLast

/-- The table with a header for a table in it. -/
def define? (t : Table) (path : List String) : Option Table :=
  path.getLast?.bind fun key =>
    t.within? false (fun _ parent =>
      match parent.lookup key with
      | none => some (parent ++ [(key, .table .header [])])
      | some (.table .implied sub) => some (parent.replace key (.table .header sub))
      | some _ => none) .header path.dropLast

/-- The table with a header for one more element of an array of tables. -/
def extend? (t : Table) (path : List String) : Option Table :=
  path.getLast?.bind fun key =>
    t.within? false (fun _ parent =>
      match parent.lookup key with
      | none => some (parent ++ [(key, .tables [[]])])
      | some (.tables elements) => some (parent.replace key (.tables (elements ++ [[]])))
      | some _ => none) .header path.dropLast

/-- The table with one more key and value in the table that the last header named. -/
def assignUnder? (t : Table) (header path : List String) (v : Value) : Option Table :=
  t.within? false (fun origin current => current.assign? origin path v) .header header

end Table
end Toml
end SheetAudit
