import SheetAudit.Source.Block
import SheetAudit.Source.Comment
import SheetAudit.Text.Search

/-!
# The tree of a style sheet

A style sheet without its comments is a sequence of statements and blocks, and a block holds
such a sequence again.  Some at-rules hold something else, keyframes or descriptors; what they
hold is kept as text and not read any further.

## Main definitions

* `Node` — a statement or a block.
* `ReadError` — why a text is no style sheet; `ReadError.message` words it.
* `readNodes` — the nodes of a text without comments.
* `read` — the nodes of a source text.
-/

namespace SheetAudit

open Source Text

/-- A statement, or a block with its prelude, its text and the nodes it holds. -/
inductive Node where
  | statement (text : List Cell)
  | block (prelude content : List Cell) (body : List Node)

/-- Why a text is no style sheet. -/
inductive ReadError where
  | unterminatedComment (line : Nat)
  | unclosedBrace (line : Nat)
  | unexpectedBrace (line : Nat)
  deriving Repr, DecidableEq

namespace ReadError

def line : ReadError → Nat
  | unterminatedComment n => n
  | unclosedBrace n => n
  | unexpectedBrace n => n

def message : ReadError → String
  | unterminatedComment _ => "unterminated comment"
  | unclosedBrace _ => "unclosed '\x7b'"
  | unexpectedBrace _ => "unexpected '\x7d'"

/-- The error in the file with this path. -/
def describe (e : ReadError) (path : String) : String :=
  s!"Failed to parse {path} at line {e.line}: {e.message}"

end ReadError

/-! ### At-rules -/

/-- What an at-rule is about. -/
inductive AtRule where
  /-- Rules under a media query. -/
  | media (query : List Char)
  | keyframes (name : List Char)
  /-- Descriptors instead of rules. -/
  | descriptors
  /-- Rules or declarations under any other condition. -/
  | group
  deriving Repr, DecidableEq

/-- At-rules that hold descriptors. -/
def descriptorRules : List String :=
  ["@font-face", "@page", "@counter-style", "@property", "@font-feature-values"]

/-- The at-rule that a prelude announces; preludes of other blocks announce none. -/
def AtRule.of? (prelude : List Char) : Option AtRule :=
  if prelude.head? != some '@' then none
  else
    let inKeyword (c : Char) : Bool := !(isBlank c || c == '(')
    let keyword := lowerAscii (prelude.takeWhile inKeyword)
    let rest := collapse (prelude.dropWhile inKeyword)
    some <|
      if keyword == "@media".toList then .media rest
      else if "keyframes".toList.isSuffixOf keyword then
        .keyframes (trimMatches (fun c => c == '"' || c == '\'') rest)
      else if descriptorRules.contains (String.ofList keyword) then .descriptors
      else .group

/-- The block holds rules and declarations, which have to be read. -/
def holdsNodes (prelude : List Char) : Bool :=
  match AtRule.of? prelude with
  | some (.keyframes _) | some .descriptors => false
  | _ => true

/-! ### Reading -/

/-- The prelude of a block: without the space before it and the blanks after it. -/
def preludeOf (before : List Cell) : List Cell :=
  ((before.dropWhile fun x => isSpace x.char).reverse.dropWhile fun x => isBlank x.char).reverse

/-- The nodes of a text whose strings are marked. -/
def readNodes (xs : List Cell) : Except ReadError (List Node) :=
  match xs with
  | [] => .ok []
  | x :: tail =>
    let c := cut (x :: tail)
    match c.stop with
    | .closeBrace p => .error (.unexpectedBrace p.line)
    | .openBrace p =>
      match _h : takeBlock c.after with
      | none => .error (.unclosedBrace p.line)
      | some (content, rest) =>
        let prelude := preludeOf c.before
        let body := if holdsNodes (chars prelude) then readNodes content else .ok []
        match body, readNodes rest with
        | .error e, _ => .error e
        | .ok _, .error e => .error e
        | .ok body, .ok nodes => .ok (.block prelude content body :: nodes)
    | _ =>
      match readNodes c.after with
      | .error e => .error e
      | .ok nodes => .ok (.statement c.before :: nodes)
termination_by xs.length
decreasing_by
  all_goals have h₂ := @length_after_cut_lt x tail
  · have h₁ : _ < (cut (x :: tail)).after.length := length_of_takeBlock _h
    omega
  · have h₁ : _ < (cut (x :: tail)).after.length := length_of_takeBlock _h
    omega
  · exact h₂

/-- The nodes of a source text. -/
def readTree (source : List Char) : Except ReadError (List Node) :=
  match strip (cells source) with
  | .error line => .error (.unterminatedComment line)
  | .ok xs => readNodes (markStrings xs)

end SheetAudit
