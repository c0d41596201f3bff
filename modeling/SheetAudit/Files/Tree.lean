import SheetAudit.Files.Path
import SheetAudit.Text.Blank

/-!
# File systems

A file system is a tree of directories and files, with a directory that relative paths start from.
A place in it is told by the names on the way from the root.

## Main definitions

* `Tree`, `FileSystem` — a tree, and a tree with a current directory.
* `FileError` — why a path cannot be followed or written to.
* `FileSystem.locate` — the place that a path leads to.
* `FileSystem.read?`, `FileSystem.write`, `FileSystem.makeDirectories` — the operations on files.
* `FileSystem.add` — puts a tree where a path names a place.
-/

namespace SheetAudit

inductive Tree where
  /-- A file, with its text if it holds any. -/
  | file (text : Option String)
  | directory (entries : List (String × Tree))

/-- Why a path cannot be followed or written to. -/
inductive FileError where
  | notFound
  | alreadyThere
  | notDirectory
  | isDirectory
  deriving Repr, DecidableEq

/-- The wording of operating systems, with their numbers. -/
def FileError.message : FileError → String
  | notFound => "No such file or directory (os error 2)"
  | alreadyThere => "File exists (os error 17)"
  | notDirectory => "Not a directory (os error 20)"
  | isDirectory => "Is a directory (os error 21)"

namespace Tree

def isDirectory : Tree → Bool
  | file _ => false
  | directory _ => true

/-- What a place below a tree holds. -/
def at? : Tree → List String → Option Tree
  | t, [] => some t
  | directory entries, name :: rest => (entries.lookup name).bind fun t => t.at? rest
  | file _, _ :: _ => none

/-- The entries with a tree put under a name. -/
def put (name : String) (t : Tree) : List (String × Tree) → List (String × Tree)
  | [] => [(name, t)]
  | e :: entries => if e.1 == name then (name, t) :: entries else e :: put name t entries

/-- The tree with `new` at a place; directories on the way that are missing are made, and a file on
the way gives way to one. -/
def insert (new : Tree) : List String → Tree → Tree
  | [], _ => new
  | name :: rest, directory entries =>
    directory (put name (insert new rest ((entries.lookup name).getD (directory []))) entries)
  | name :: rest, file _ => directory [(name, insert new rest (directory []))]

end Tree

/-- A place, by the names on the way from the root. -/
abbrev Place := List String

/-- The path of a place. -/
def Place.text (p : Place) : String := "/" ++ "/".intercalate p

structure FileSystem where
  root : Tree
  /-- Where relative paths start. -/
  current : Place := []

namespace FileSystem

/-! ### Following paths -/

def follow (fs : FileSystem) (start : Place) : List Path.Part → Except FileError Place
  | [] => .ok start
  | .root :: rest => follow fs [] rest
  | .current :: rest => follow fs start rest
  | p :: rest =>
    match fs.root.at? start, p with
    | some (.directory entries), .name n =>
      let name := String.ofList n
      if (entries.lookup name).isSome then follow fs (start ++ [name]) rest else .error .notFound
    | some (.directory _), _ => follow fs start.dropLast rest
    | some (.file _), _ => .error .notDirectory
    | none, _ => .error .notFound

/-- The path ends with a slash or a dot after a slash, so that it can only lead to a directory. -/
def wantsDirectory (path : List Char) : Bool :=
  match (Text.splitOn (· == '/') path).getLast? with
  | some [] | some ['.'] => path.length > 1
  | _ => false

/-- The place that a path leads to. -/
def locate (fs : FileSystem) (path : String) : Except FileError Place := do
  if path.isEmpty then throw .notFound
  let place ← fs.follow fs.current (Path.parts path.toList)
  match fs.root.at? place with
  | some (.file _) => if wantsDirectory path.toList then throw .notDirectory
  | _ => pure ()
  return place

/-- What a path leads to. -/
def node? (fs : FileSystem) (path : String) : Option Tree :=
  (fs.locate path).toOption.bind fs.root.at?

def exists? (fs : FileSystem) (path : String) : Bool := (fs.node? path).isSome

/-- The text of the file that a path leads to. -/
def read? (fs : FileSystem) (path : String) : Option String :=
  match fs.node? path with
  | some (.file text) => text
  | _ => none

/-! ### Writing -/

/-- Makes the directories of a path that are missing. -/
def makeDirectoriesFrom (fs : FileSystem) (start : Place) :
    List Path.Part → Except FileError FileSystem
  | [] => .ok fs
  | .root :: rest => makeDirectoriesFrom fs [] rest
  | .current :: rest => makeDirectoriesFrom fs start rest
  | .parent :: rest => makeDirectoriesFrom fs start.dropLast rest
  | .name n :: rest =>
    let place := start ++ [String.ofList n]
    match fs.root.at? place with
    | some (.directory _) => makeDirectoriesFrom fs place rest
    | some (.file _) => .error (if rest.isEmpty then .alreadyThere else .notDirectory)
    | none =>
      makeDirectoriesFrom { fs with root := Tree.insert (.directory []) place fs.root } place rest

/-- Makes the directories on the way to a file. -/
def makeDirectories (fs : FileSystem) (path : String) : Except FileError FileSystem :=
  fs.makeDirectoriesFrom fs.current (Path.parts path.toList).dropLast

/-- Writes a file, which may replace another but no directory. -/
def write (fs : FileSystem) (path text : String) : Except FileError FileSystem := do
  let parts := Path.parts path.toList
  match parts.getLast? with
  | none => throw .notFound
  | some (.name n) =>
    let parent ← fs.follow fs.current parts.dropLast
    match fs.root.at? parent with
    | some (.directory entries) =>
      match entries.lookup (String.ofList n), wantsDirectory path.toList with
      | some (.directory _), _ | none, true => throw .isDirectory
      | some (.file _), true => throw .notDirectory
      | _, false =>
        let place := parent ++ [String.ofList n]
        return { fs with root := Tree.insert (.file (some text)) place fs.root }
    | _ => throw .notDirectory
  | some _ =>
    let _ ← fs.follow fs.current parts
    throw .isDirectory

/-! ### Building -/

/-- The place that a path names, whatever is there. -/
def placeFrom (start : Place) : List Path.Part → Place
  | [] => start
  | .root :: rest => placeFrom [] rest
  | .current :: rest => placeFrom start rest
  | .parent :: rest => placeFrom start.dropLast rest
  | .name n :: rest => placeFrom (start ++ [String.ofList n]) rest

/-- The file system with a tree where a path names a place; a directory is made only where nothing
is yet. -/
def add (fs : FileSystem) (path : String) (t : Tree) : FileSystem :=
  let place := placeFrom fs.current (Path.parts path.toList)
  if t.isDirectory && (fs.root.at? place).isSome then fs
  else { fs with root := Tree.insert t place fs.root }

end FileSystem
end SheetAudit
