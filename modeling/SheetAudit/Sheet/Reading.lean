import SheetAudit.Selector.Compound
import SheetAudit.Sheet.Purpose
import SheetAudit.Sheet.Tree

/-!
# From the tree to the style sheet

The parts of a style sheet are gathered from its tree in the order in which they are written.
A scope, the selectors and the media query around a node, is all that is handed down.

## Main definitions

* `Scope` — what surrounds a node; `Scope.inside` is the scope of the body of a block.
* `heads` — the selectors that a block applies its declarations to.
* `readDeclaration?` — the name, the value and the place of a declaration.
* `Node.customProperties`, `Node.rules`, `Node.mediaQueries`, `Node.keyframes` — the parts of each kind.
* `Sheet.parse` — the style sheet that a source text holds.
-/

namespace SheetAudit

open Source Text

/-! ### Scopes -/

/-- What surrounds a node: the selectors that declarations apply to, and the media query. -/
structure Scope where
  media : Option (List Char) := none
  selectors : List (List Char) := []

namespace Scope

/-- The scope in words. -/
def describe (s : Scope) : List Char :=
  let selectors := ", ".toList.intercalate s.selectors
  match s.media with
  | some media => "@media ".toList ++ media ++ ' ' :: selectors
  | none => selectors

/-- A media query inside another asks for both. -/
def addMedia (s : Scope) (query : List Char) : Scope :=
  { s with media := some <|
      match s.media with
      | some outer => outer ++ " and ".toList ++ query
      | none => query }

end Scope

/-- The selectors of a block with the places they are written at.  An at-rule inside a rule goes
on with the selectors of the rule, as if they were written where it begins. -/
def heads (scope : Scope) (prelude : List Cell) : List (Pos × List Char) :=
  match AtRule.of? (chars prelude), prelude with
  | some _, [] => []
  | some _, x :: _ => scope.selectors.map fun s => (x.pos, s)
  | none, _ =>
    (Selector.entries Cell.char prelude).flatMap fun e =>
      (Selector.resolve scope.selectors e.2).map fun s => (e.1.pos, s)

/-- The scope of the body of a block. -/
def Scope.inside (scope : Scope) (prelude : List Cell) : Scope :=
  match AtRule.of? (chars prelude) with
  | some (.media query) => scope.addMedia query
  | some _ => scope
  | none => { scope with selectors := (heads scope prelude).map (·.2) }

/-! ### Declarations -/

/-- A name without blanks and a value, parted by a colon, and the place of the name. -/
def readDeclaration? (statement : List Cell) : Option (List Char × List Char × Pos) :=
  let trimmed := statement.dropWhile fun x => isBlank x.char
  match trimmed, splitAt? [':'] (chars trimmed) with
  | x :: _, some (before, after) =>
    let name := trimRight before
    let value := trim after
    if name.isEmpty || name.any isBlank || value.isEmpty then none else some (name, value, x.pos)
  | _, _ => none

/-- The name is that of a custom property. -/
def isVariableName (name : List Char) : Bool := "--".toList.isPrefixOf name

def readVariable? (scope : Scope) (statement : List Cell) : Option Variable :=
  (readDeclaration? statement).bind fun (name, value, pos) =>
    if isVariableName name && !scope.selectors.isEmpty then
      some
        { name := String.ofList name
          value := String.ofList value
          purpose := .infer name value
          scope := String.ofList scope.describe
          pos }
    else none

def ownDeclaration? (statement : List Cell) : Option Declaration :=
  (readDeclaration? statement).bind fun (name, value, pos) =>
    if isVariableName name then none
    else some ⟨String.ofList (lowerAscii name), String.ofList value, pos⟩

/-- The declarations that stand directly among the nodes. -/
def ownDeclarations (nodes : List Node) : List Declaration :=
  nodes.filterMap fun
    | .statement text => ownDeclaration? text
    | .block .. => none

/-! ### Gathering the parts -/

/-- The rules that a block makes for its own declarations. -/
def ownRules (scope : Scope) (prelude : List Cell) (body : List Node) : List Rule :=
  let declarations := ownDeclarations body
  if declarations.isEmpty then []
  else
    (heads scope prelude).map fun (pos, selector) =>
      { selector := String.ofList selector
        declarations
        media := (scope.inside prelude).media.map String.ofList
        pos }

mutual

def Node.customProperties (scope : Scope) : Node → List Variable
  | .statement text => (readVariable? scope text).toList
  | .block prelude _ body => Node.customPropertiesIn (scope.inside prelude) body

def Node.customPropertiesIn (scope : Scope) : List Node → List Variable
  | [] => []
  | n :: ns => n.customProperties scope ++ Node.customPropertiesIn scope ns

end

mutual

def Node.rules (scope : Scope) : Node → List Rule
  | .statement _ => []
  | .block prelude _ body => ownRules scope prelude body ++ Node.rulesIn (scope.inside prelude) body

def Node.rulesIn (scope : Scope) : List Node → List Rule
  | [] => []
  | n :: ns => n.rules scope ++ Node.rulesIn scope ns

end

mutual

def Node.mediaQueries : Node → List MediaQuery
  | .statement _ => []
  | .block prelude content body =>
    (match AtRule.of? (chars prelude), prelude with
      | some (.media query), x :: _ =>
        [⟨String.ofList query, String.ofList (trim (chars content)), x.pos⟩]
      | _, _ => []) ++ Node.mediaQueriesIn body

def Node.mediaQueriesIn : List Node → List MediaQuery
  | [] => []
  | n :: ns => n.mediaQueries ++ Node.mediaQueriesIn ns

end

mutual

def Node.keyframes : Node → List Keyframes
  | .statement _ => []
  | .block prelude _ body =>
    (match AtRule.of? (chars prelude), prelude with
      | some (.keyframes name), x :: _ => [⟨String.ofList name, x.pos⟩]
      | _, _ => []) ++ Node.keyframesIn body

def Node.keyframesIn : List Node → List Keyframes
  | [] => []
  | n :: ns => n.keyframes ++ Node.keyframesIn ns

end

/-- The rule as the definition of the class its subject names. -/
def Rule.class? (r : Rule) : Option StyledClass :=
  (Selector.subjectClass r.selector.toList).map fun name =>
    { name := String.ofList name
      kind := .infer name r.selector.toList r.declarations.length
      selector := r.selector
      declarations := r.declarations
      media := r.media
      pos := r.pos }

namespace Sheet

def ofNodes (path : String) (nodes : List Node) : Sheet :=
  let rules := Node.rulesIn {} nodes
  { path
    customProperties := Node.customPropertiesIn {} nodes
    classes := rules.filterMap Rule.class?
    rules
    mediaQueries := Node.mediaQueriesIn nodes
    keyframes := Node.keyframesIn nodes }

/-- The style sheet that a source text holds. -/
def parse (path source : String) : Except ReadError Sheet :=
  match readTree source.toList with
  | .error e => .error e
  | .ok nodes => .ok (ofNodes path nodes)

end Sheet
end SheetAudit
