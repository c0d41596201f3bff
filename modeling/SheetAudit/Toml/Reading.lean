import SheetAudit.Toml.Quoted
import SheetAudit.Toml.Value
import SheetAudit.Toml.Word

/-!
# Reading TOML

A document is a sequence of lines.  Each holds a header, a key with its value, or nothing, and
possibly a comment; values in brackets or braces may run over several lines.

## Main definitions

* `chain` — items that are separated in some way.
* `readPath` — a key, which may be dotted.
* `readValue` — a value, with a limit on how deep brackets and braces may be nested.
* `Statement` — what a line says.
* `parse` — the table that a document denotes.
-/

namespace SheetAudit
namespace Toml

/-- Reads something at the start of a text and returns what follows it. -/
abbrev Reader (α : Type) := List Char → Option (α × List Char)

/-- One item or more; `next?` takes away what separates two of them.  Reading goes on only while the
text gets shorter. -/
def chain {α : Type} (item : Reader α) (next? : List Char → Option (List Char)) : Reader (List α) :=
  fun cs =>
    match item cs with
    | none => none
    | some (x, rest) =>
      match next? rest with
      | none => some ([x], rest)
      | some after =>
        if after.length < cs.length then
          (chain item next? after).map fun (xs, rest) => (x :: xs, rest)
        else none
termination_by cs => cs.length

/-! ### Blank space and comments -/

def skipSpaces (cs : List Char) : List Char := cs.dropWhile Quoted.isSpaceOrTab

/-- What follows the end of a line. -/
def lineEnd? : List Char → Option (List Char)
  | '\n' :: cs => some cs
  | '\r' :: '\n' :: cs => some cs
  | _ => none

/-- What follows the blanks and the comment that a text begins with, if it begins with any. -/
def skipComment (cs : List Char) : List Char :=
  match skipSpaces cs with
  | '#' :: rest => rest.dropWhile Quoted.isPlain
  | rest => rest

/-- Skips blanks, comments and ends of lines. -/
def skipLines (cs : List Char) : List Char :=
  let rest := skipComment cs
  match lineEnd? rest with
  | some after => if after.length < cs.length then skipLines after else rest
  | none => rest
termination_by cs.length

/-! ### Keys -/

def isBareKeyChar (c : Char) : Bool := c.isAlphanum || c == '-' || c == '_'

def readKey : Reader String := fun cs =>
  match Quoted.readLine? cs with
  | some (key, rest) => some (String.ofList key, rest)
  | none =>
    let key := cs.takeWhile isBareKeyChar
    if key.isEmpty then none else some (String.ofList key, cs.dropWhile isBareKeyChar)

/-- Keys between dots; blanks may stand around a dot. -/
def readPath : Reader (List String) :=
  chain readKey fun cs =>
    match skipSpaces cs with
    | '.' :: rest => some (skipSpaces rest)
    | _ => none

/-- A path, and a value after an equals sign. -/
def readEntry (value : Reader Value) : Reader (List String × Value) := fun cs => do
  let (path, rest) ← readPath cs
  match skipSpaces rest with
  | '=' :: rest =>
    let (v, rest) ← value (skipSpaces rest)
    return ((path, v), rest)
  | _ => none

/-! ### Values -/

/-- Items between commas, up to the closing bracket; a comma may stand after the last item. -/
def readItems {α : Type} (item : Reader α) (close : Char) : Reader (List α) := fun cs =>
  let next? (cs : List Char) : Option (List Char) :=
    match skipLines cs with
    | ',' :: rest =>
      let rest := skipLines rest
      if rest.head? == some close then none else some rest
    | _ => none
  let cs := skipLines cs
  if cs.head? == some close then some ([], cs.drop 1)
  else do
    let (xs, rest) ← chain item next? cs
    let rest := skipLines rest
    let rest := if rest.head? == some ',' then skipLines (rest.drop 1) else rest
    if rest.head? == some close then some (xs, rest.drop 1) else none

/-- The table between braces with these entries. -/
def inlineTable? (entries : List (List String × Value)) : Option Value :=
  (entries.foldlM (fun t e => Table.assign? .inline t e.1 e.2) []).map (.table .inline)

/-- A value in which brackets and braces are nested at most so deep. -/
def readValue (depth : Nat) : Reader Value := fun cs =>
  match cs with
  | [] => none
  | c :: rest =>
    if c == '[' then
      match depth with
      | 0 => none
      | depth + 1 => (readItems (readValue depth) ']' rest).map fun (xs, rest) => (.list xs, rest)
    else if c == '{' then
      match depth with
      | 0 => none
      | depth + 1 => do
        let (entries, rest) ← readItems (readEntry (readValue depth)) '}' rest
        return (← inlineTable? entries, rest)
    else if c == '"' || c == '\'' then
      (Quoted.read? cs).map fun (s, rest) => (.text (String.ofList s), rest)
    else Word.read? cs

/-- How deep brackets and braces may be nested in a document. -/
def maxDepth : Nat := 80

/-! ### Statements -/

/-- What a line says. -/
inductive Statement where
  | define (path : List String)
  | extend (path : List String)
  | assign (path : List String) (v : Value)
  | nothing

/-- A path in brackets that are opened by `opening` and closed by `closing`. -/
def readHeader (opening closing : List Char) : Reader (List String) := fun cs => do
  let rest ← opening.isPrefixOf? cs
  let (path, rest) ← readPath (skipSpaces rest)
  let rest ← closing.isPrefixOf? (skipSpaces rest)
  return (path, rest)

/-- A line without its end. -/
def readStatement : Reader Statement := fun cs => do
  let cs := skipSpaces cs
  let (s, rest) ←
    match cs with
    | '[' :: '[' :: _ =>
      (readHeader ['[', '['] [']', ']'] cs).map fun (path, rest) => (Statement.extend path, rest)
    | '[' :: _ =>
      (readHeader ['['] [']'] cs).map fun (path, rest) => (Statement.define path, rest)
    | [] | '#' :: _ | '\n' :: _ | '\r' :: _ => some (Statement.nothing, cs)
    | _ =>
      (readEntry (readValue maxDepth) cs).map fun ((path, v), rest) =>
        (Statement.assign path v, rest)
  return (s, skipComment rest)

/-- The statements of a document; a byte order mark may stand before them. -/
def readStatements (cs : List Char) : Option (List Statement) :=
  let cs := match cs with | '\ufeff' :: rest => rest | _ => cs
  match chain readStatement lineEnd? cs with
  | some (statements, []) => some statements
  | _ => none

/-! ### Documents -/

/-- The table that statements denote; `header` names the table that keys are put into. -/
def denote? (header : List String) (t : Table) : List Statement → Option Table
  | [] => some t
  | .nothing :: rest => denote? header t rest
  | .define path :: rest => (t.define? path).bind fun t => denote? path t rest
  | .extend path :: rest => (t.extend? path).bind fun t => denote? path t rest
  | .assign path v :: rest => (t.assignUnder? header path v).bind fun t => denote? header t rest

/-- The table that a document denotes. -/
def parse (document : List Char) : Option Table :=
  (readStatements document).bind fun statements => denote? [] [] statements

end Toml
end SheetAudit
