import SheetAudit.Offsets.Block
import SheetAudit.Offsets.Selector
import SheetAudit.Offsets.Value
import SheetAudit.Sheet.Reading

/-!
# Style sheets by offsets

A style sheet is gathered while its text is walked between two offsets: from delimiter to
delimiter, and into every block.  What is found is put at the end of the sheet at once, so that
the rules of a block come after those of the blocks it holds; at last all parts are sorted by
their positions.

## Main definitions

* `Texts` — the text of a sheet with and without its comments.
* `parseBody`, `parseBlock`, `parseAtRule` — the walk; every range that is walked is shorter than
  the one before it.
* `parse` — the style sheet that a source text holds.
-/

namespace SheetAudit
namespace Offsets

open Text

/-- A source text, and the same with its comments blanked out. -/
structure Texts where
  source : List Char
  text : List Char

namespace Texts

/-- The bytes that are walked. -/
def bytes (t : Texts) : List UInt8 := encode t.text

/-- The position of an offset; blanking comments has moved nothing. -/
def position (t : Texts) (offset : Nat) : Except Fault Pos := Offsets.position t.source offset

end Texts

/-! ### Declarations -/

/-- A statement without blanks in its name: the name, the value and the position of the name. -/
def readDeclaration? (t : Texts) (start stop : Nat) :
    Except Fault (Option (List Char × List Char × Pos)) := do
  let raw ← slice t.text start stop
  match find? (encode raw) 0 [':'.toUInt8] with
  | none => return none
  | some colon => do
    let name := trim (← slice raw 0 colon)
    let value := trim (← slice raw (colon + 1) (size raw))
    if name.isEmpty || name.any isBlank || value.isEmpty then return none
    else do
      let leading ← minus (size raw) (size (trimLeft raw))
      return some (name, value, ← t.position (start + leading))

/-- A custom property goes into the sheet, any other is handed back. -/
def parseDeclaration (t : Texts) (start stop : Nat) (scope : Scope) (s : Sheet) :
    Except Fault (List Declaration × Sheet) := do
  match ← readDeclaration? t start stop with
  | none => return ([], s)
  | some (name, value, pos) =>
    if isVariableName name then do
      let v : Variable :=
        { name := String.ofList name
          value := String.ofList value
          purpose := ← purpose name value
          scope := String.ofList scope.describe
          pos }
      return ([], { s with customProperties := s.customProperties ++ [v] })
    else return ([⟨String.ofList (lowerAscii name), String.ofList value, pos⟩], s)

/-! ### Rules -/

/-- The class that the subject of a rule names. -/
def classOf (r : Rule) : Except Fault (List StyledClass) := do
  match ← subjectClass r.selector.toList with
  | none => return []
  | some name =>
    return [
      { name := String.ofList name
        kind := .infer name r.selector.toList r.declarations.length
        selector := r.selector
        declarations := r.declarations
        media := r.media
        pos := r.pos }]

/-- Puts a rule for the selector, and the class it defines, into the sheet. -/
def recordRule (t : Texts) (declarations : List Declaration) (media : Option (List Char))
    (s : Sheet) (head : Nat × List Char) : Except Fault Sheet := do
  let rule : Rule :=
    { selector := String.ofList head.2
      declarations
      media := media.map String.ofList
      pos := ← t.position head.1 }
  return { s with rules := s.rules ++ [rule], classes := s.classes ++ (← classOf rule) }

/-- Puts one rule for every selector into the sheet, unless there is nothing to declare. -/
def recordRules (t : Texts) (heads : List (Nat × List Char)) (declarations : List Declaration)
    (media : Option (List Char)) (s : Sheet) : Except Fault Sheet :=
  if declarations.isEmpty then .ok s else heads.foldlM (recordRule t declarations media) s

/-- Declarations of an at-rule inside a rule belong to the selectors of the rule. -/
def recordNested (t : Texts) (start : Nat) (declarations : List Declaration) (scope : Scope)
    (s : Sheet) : Except Fault Sheet :=
  recordRules t (scope.selectors.map fun selector => (start, selector)) declarations scope.media s

/-! ### The walk -/

/-- The keyword of an at-rule in small letters, and what follows it. -/
def keywordOf (prelude : List Char) : Except Fault (List Char × List Char) := do
  let stop := size (prelude.takeWhile fun c => !(isBlank c || c == '('))
  let keyword ← slice prelude 0 stop
  let rest ← slice prelude stop (size prelude)
  return (lowerAscii keyword, collapse rest)

/-- The selectors of a block with the offsets they are written at. -/
def headsAt (start : Nat) (scope : Scope) (parts : List (Nat × List Char)) :
    List (Nat × List Char) :=
  parts.flatMap fun (offset, selector) =>
    (Selector.resolve scope.selectors selector).map fun resolved => (start + offset, resolved)

mutual

/-- Walks a range; the declarations that stand directly in it are handed back. -/
def parseBody (t : Texts) (pos stop : Nat) (scope : Scope) (s : Sheet) :
    Except Halt (List Declaration × Sheet) :=
  if pos < stop then
    match _hd : findDelimiter t.bytes pos stop with
    | .error f => .error (.fault f)
    | .ok (delimiter, .openBrace) =>
      match _hm : matchingBrace t.bytes delimiter stop with
      | .error f => .error (.fault f)
      | .ok none => do throw (.broken (.unclosedBrace (← t.position delimiter).line))
      | .ok (some close) => do
        let start ← skipSpace t.bytes pos delimiter
        let s ← parseBlock t start delimiter close scope s
        parseBody t (close + 1) stop scope s
    | .ok (delimiter, .closeBrace) => do
      throw (.broken (.unexpectedBrace (← t.position delimiter).line))
    | .ok (delimiter, _) => do
      let (own, s) ←
        if scope.selectors.isEmpty then pure ([], s) else parseDeclaration t pos delimiter scope s
      let (others, s) ← parseBody t (delimiter + 1) stop scope s
      return (own ++ others, s)
  else .ok ([], s)
termination_by (stop - pos, 0)
decreasing_by
  all_goals
    have := le_of_findDelimiter (Nat.le_of_lt ‹_›) _hd
  · have := bounds_of_matchingBrace _hm
    exact Prod.Lex.left _ _ (by omega)
  · have := bounds_of_matchingBrace _hm
    exact Prod.Lex.left _ _ (by omega)
  · exact Prod.Lex.left _ _ (by omega)

/-- Walks a block, whose prelude begins at `start` and ends at its opening brace. -/
def parseBlock (t : Texts) (start opening closing : Nat) (scope : Scope) (s : Sheet) :
    Except Halt Sheet := do
  let prelude := trimRight (← slice t.text start opening)
  if prelude.head? == some '@' then parseAtRule t start opening closing scope s
  else do
    let heads := headsAt start scope (← splitList prelude)
    let inside : Scope := { scope with selectors := heads.map (·.2) }
    let (declarations, s) ← parseBody t (opening + 1) closing inside s
    recordRules t heads declarations scope.media s
termination_by (closing - opening, 2)
decreasing_by
  · exact Prod.Lex.right _ (by decide)
  · rw [Prod.lex_def]
    omega

/-- Walks an at-rule. -/
def parseAtRule (t : Texts) (start opening closing : Nat) (scope : Scope) (s : Sheet) :
    Except Halt Sheet := do
  let prelude ← slice t.text start opening
  let (keyword, rest) ← keywordOf (trim prelude)
  if keyword == "@media".toList then do
    let content ← slice t.text (opening + 1) closing
    let query : MediaQuery :=
      ⟨String.ofList rest, String.ofList (trim content), ← t.position start⟩
    let inside := scope.addMedia rest
    let (declarations, s) ← parseBody t (opening + 1) closing inside
      { s with mediaQueries := s.mediaQueries ++ [query] }
    recordNested t start declarations inside s
  else if "keyframes".toList.isSuffixOf keyword then do
    let name := trimMatches (fun c => c == '"' || c == '\'') rest
    return { s with keyframes := s.keyframes ++ [⟨String.ofList name, ← t.position start⟩] }
  else if descriptorRules.contains (String.ofList keyword) then return s
  else do
    let (declarations, s) ← parseBody t (opening + 1) closing scope s
    recordNested t start declarations scope s
termination_by (closing - opening, 1)
decreasing_by
  all_goals
    rw [Prod.lex_def]
    omega

end

/-! ### Whole sheets -/

/-- The parts of a sheet in the order of their positions. -/
def sortParts (s : Sheet) : Sheet :=
  { s with
    classes := s.classes.mergeSort fun a b => a.pos.le b.pos
    rules := s.rules.mergeSort fun a b => a.pos.le b.pos
    customProperties := s.customProperties.mergeSort fun a b => a.pos.le b.pos }

/-- The style sheet that a source text holds. -/
def parse (path source : String) : Except Halt Sheet := do
  let text ← strip source.toList
  let (_, s) ← parseBody ⟨source.toList, text⟩ 0 (size text) {} { path }
  return sortParts s

end Offsets
end SheetAudit
