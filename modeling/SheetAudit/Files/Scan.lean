import SheetAudit.Files.Filter
import SheetAudit.Files.Ignore

/-!
# Finding style sheets

The files below a directory are listed in the order of their names, without those that are ignored
and those that the filter does not admit.

## Main definitions

* `Tree.files` — the files of a tree.
* `Place.comesBefore` — the order in which places are listed.
* `framesAbove` — the ignore rules of the directories above a place.
* `FileSystem.scan` — the style sheets that a path leads to.
-/

namespace SheetAudit

mutual

/-- The places of the files of a tree; `frames` holds the ignore rules of the directories above it,
and `place` is its own place. -/
def Tree.files (ignoring : Bool) (frames : List IgnoreFrame) (place : Place) : Tree → List Place
  | .file _ => [place]
  | .directory entries =>
    let frames := if ignoring then .ofDirectory (.directory entries) :: frames else []
    Tree.filesIn ignoring frames place entries

def Tree.filesIn (ignoring : Bool) (frames : List IgnoreFrame) (place : Place) :
    List (String × Tree) → List Place
  | [] => []
  | (name, t) :: entries =>
    (if ignoring && isIgnored frames name t.isDirectory then []
      else t.files ignoring (frames.map (·.enter name)) (place ++ [name])) ++
      Tree.filesIn ignoring frames place entries

end

/-- The ignore rules of the directories above a place, the nearest first, seen from the place. -/
def framesAbove (frames : List IgnoreFrame) : Tree → Place → List IgnoreFrame
  | _, [] => frames
  | t, name :: rest =>
    let frames := (.ofDirectory t :: frames).map (·.enter name)
    match t.at? [name] with
    | some t => framesAbove frames t rest
    | none => frames

/-- The order of places: name by name, by the code points of the names. -/
def Place.comesBefore (p q : Place) : Bool :=
  p.lex q fun a b => a.toList.lex b.toList fun c d => c.toNat < d.toNat

/-- The places of the style sheets below a directory, relative to it. -/
def styleSheets (ignoring : Bool) (filter : Filter) (frames : List IgnoreFrame) (t : Tree) :
    List Place :=
  let admitted := (t.files ignoring frames []).filter fun place =>
    filter.admits ("/".intercalate place).toList
  admitted.mergeSort fun p q => !Place.comesBefore q p

/-- The style sheets that a path leads to.  A file is taken as it is, whatever its name. -/
def FileSystem.scan (fs : FileSystem) (ignoring : Bool) (filter : Filter) (path : String) :
    Except FileError (List String) := do
  let place ← fs.locate path
  match fs.root.at? place with
  | some (.directory entries) =>
    let frames := if ignoring then framesAbove [] fs.root place else []
    return (styleSheets ignoring filter frames (.directory entries)).map fun below =>
      Path.join path ("/".intercalate below)
  | _ => return [path]

end SheetAudit
