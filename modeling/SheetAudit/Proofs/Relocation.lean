import SheetAudit.Proofs.Grammar
import SheetAudit.Proofs.Pieces
import SheetAudit.Sheet.Reading

/-!
# Moving a source text

Reading a style sheet looks at characters and never at places: where a text stands decides which
places its parts are given and nothing else.  Said precisely, every stage commutes with a map of
places, and so does the whole.

## Main definitions

* `Relocation` — a map of places that takes lines to lines.
* `Relocation.onCell`, `onPiece`, `onNode`, `onSheet` — the map applied to what carries places.
* `Sheet.ofCells` — the style sheet of a text whose characters have places already.

## Main results

* `strip_map`, `readNodes_map` — blanking comments and reading nodes commute with relocations.
* `Sheet.ofCells_map` — **so does the whole reading of a style sheet.**
-/

namespace SheetAudit

open Source Text

/-- A map of places that takes lines to lines. -/
structure Relocation where
  pos : Pos → Pos
  line : Nat → Nat
  line_pos : ∀ p, (pos p).line = line p.line

namespace Relocation

/-- Everything is moved to the start. -/
def toStart : Relocation := ⟨fun _ => .start, fun _ => 1, fun _ => rfl⟩

variable (f : Relocation)

/-! ### Cells -/

def onCell (x : Cell) : Cell := { x with pos := f.pos x.pos }

@[simp] theorem onCell_char (x : Cell) : (f.onCell x).char = x.char := rfl

@[simp] theorem onCell_pos (x : Cell) : (f.onCell x).pos = f.pos x.pos := rfl

@[simp] theorem onCell_is (x : Cell) (c : Char) : (f.onCell x).is c = x.is c := rfl

@[simp] theorem chars_map (xs : List Cell) : chars (xs.map f.onCell) = chars xs := by
  simp [chars, Function.comp_def]

/-! ### Comments -/

def onPiece : Piece → Piece
  | .code c => .code (f.onCell c)
  | .comment block cs => .comment block (cs.map f.onCell)
  | .unclosed cs => .unclosed (cs.map f.onCell)

theorem closeComment_map (xs : List Cell) :
    closeComment (xs.map f.onCell) =
      (closeComment xs).map fun r => (r.1.map f.onCell, r.2.map f.onCell) := by
  fun_induction closeComment xs with
  | case1 x y rest h => simp [closeComment, h]
  | case2 x y rest h ih =>
    simp only [List.map_cons] at ih ⊢
    rw [closeComment, if_neg (by simpa using h), ih]
    simp [Function.comp_def]
  | case3 xs h =>
    rcases xs with _ | ⟨x, _ | ⟨y, rest⟩⟩
    · rfl
    · rfl
    · exact absurd rfl (h x y rest)

theorem piecesFrom_map (quote : Option Char) (code : Bool) (xs : List Cell) :
    piecesFrom quote code (xs.map f.onCell) = (piecesFrom quote code xs).map f.onPiece := by
  fun_induction piecesFrom quote code xs with
  | case1 => simp
  | case2 code x q hx => simp [piecesFrom_escaped_end, hx, onPiece]
  | case3 code x q hx y ys ih => simpa [piecesFrom_escaped, hx, onPiece] using ih
  | case4 code x xs q hx ih => simpa [piecesFrom_quoted, hx, onPiece] using ih
  | case5 code x xs hx ih => simpa [piecesFrom_quote, hx, onPiece] using ih
  | case6 code x xs _ hx ih =>
    simpa [piecesFrom_newline (x := f.onCell x) (by simpa using hx), onPiece] using ih
  | case7 code x _ _ hx =>
    simp [piecesFrom_slash_end (x := f.onCell x) (by simpa using hx), onPiece]
  | case8 code x _ _ hx y ys hy inner rest h ih =>
    have hclose :
        closeComment (ys.map f.onCell) = some (inner.map f.onCell, rest.map f.onCell) := by
      rw [closeComment_map, h]
      rfl
    rw [List.map_cons, List.map_cons,
      piecesFrom_block (by simpa using hx) (by simpa using hy) hclose, ih]
    simp [onPiece]
  | case9 code x _ _ hx y ys hy h =>
    have hclose : closeComment (ys.map f.onCell) = none := by rw [closeComment_map, h]; rfl
    rw [List.map_cons, List.map_cons,
      piecesFrom_unclosed (by simpa using hx) (by simpa using hy) hclose]
    simp [onPiece]
  | case10 code x _ _ hx y ys _ hy ih =>
    obtain ⟨hslash, rfl⟩ : y.char = '/' ∧ code = false := by simpa using hy
    rw [List.map_cons, List.map_cons,
      piecesFrom_line (x := f.onCell x) (by simpa using hx) (y := f.onCell y) hslash,
      List.takeWhile_map, List.dropWhile_map]
    simpa [onPiece, Function.comp_def] using ih
  | case11 code x _ _ hx y ys hy hline ih =>
    rw [List.map_cons, List.map_cons,
      piecesFrom_slash (by simpa using hx) (by simpa using hy) (by simpa using hline)]
    simpa [onPiece] using ih
  | case12 code x xs hq hn hs ih =>
    rw [List.map_cons,
      piecesFrom_plain (by simpa using hq) (by simpa using hn) (by simpa using hs)]
    simpa [onPiece] using ih

theorem blank_map (x : Cell) : blank (f.onCell x) = (blank x).map f.onCell := by
  unfold blank
  split <;> simp_all [onCell]

theorem stripped_map (p : Piece) : (f.onPiece p).stripped = p.stripped.map f.onCell := by
  cases p with
  | code c => rfl
  | comment block cs =>
    simp only [onPiece, Piece.stripped, List.flatMap_map, List.map_flatMap, blank_map]
  | unclosed cs => rfl

theorem unclosedLine_map (ps : List Piece) :
    unclosedLine (ps.map f.onPiece) = (unclosedLine ps).map f.line := by
  fun_induction unclosedLine ps with
  | case1 => rfl
  | case2 x xs ps => simp [onPiece, unclosedLine, f.line_pos]
  | case3 p ps h ih =>
    rw [← ih, List.map_cons]
    cases p with
    | unclosed cs =>
      cases cs with
      | nil => rfl
      | cons x cs => exact absurd rfl (h x cs)
    | _ => rfl

theorem strip_map (xs : List Cell) :
    strip (xs.map f.onCell) = ((strip xs).map (·.map f.onCell)).mapError f.line := by
  simp only [strip, pieces, piecesFrom_map, unclosedLine_map]
  cases unclosedLine (piecesFrom none false xs) with
  | some line => rfl
  | none =>
    simp [Except.map, Except.mapError, List.flatMap_map, List.map_flatMap, stripped_map]

/-! ### Strings, statements and blocks -/

theorem markFrom_map (quote : Option Char) (xs : List Cell) :
    markFrom quote (xs.map f.onCell) = (markFrom quote xs).map f.onCell := by
  fun_induction markFrom quote xs with
  | case1 => simp [markFrom]
  | case2 x xs q ih₂ ih₁ =>
    rw [List.map_cons, markFrom.eq_def]
    by_cases hx : (x.char == '\\') = true
    · cases xs with
      | nil => simp [hx, onCell]
      | cons y ys => simp [hx, ih₂, onCell]
    · simpa [hx, onCell] using ih₁
  | case3 x xs hx ih => simp [markFrom, hx, ih, onCell]
  | case4 x xs hx ih => simp [markFrom, hx, ih, onCell]

theorem markStrings_map (xs : List Cell) :
    markStrings (xs.map f.onCell) = (markStrings xs).map f.onCell :=
  markFrom_map f none xs

def onStop : Stop → Stop
  | .openBrace p => .openBrace (f.pos p)
  | .closeBrace p => .closeBrace (f.pos p)
  | .semicolon => .semicolon
  | .finish => .finish

def onCut (c : Cut) : Cut := ⟨c.before.map f.onCell, f.onStop c.stop, c.after.map f.onCell⟩

theorem cutFrom_map (depth : Nat) (xs : List Cell) :
    cutFrom depth (xs.map f.onCell) = f.onCut (cutFrom depth xs) := by
  induction xs generalizing depth with
  | nil => rfl
  | cons x xs ih =>
    rw [List.map_cons, cutFrom, cutFrom]
    simp only [onCell_is, ih]
    split
    · rfl
    split
    · rfl
    split
    · rfl
    · rfl

theorem takeBlockFrom_map (depth : Nat) (xs : List Cell) :
    takeBlockFrom depth (xs.map f.onCell) =
      (takeBlockFrom depth xs).map fun r => (r.1.map f.onCell, r.2.map f.onCell) := by
  induction xs generalizing depth with
  | nil => rfl
  | cons x xs ih =>
    rw [List.map_cons, takeBlockFrom, takeBlockFrom]
    simp only [onCell_is, ih]
    split
    · rfl
    · simp only [Option.map_map, Function.comp_def]
      rfl

theorem preludeOf_map (before : List Cell) :
    preludeOf (before.map f.onCell) = (preludeOf before).map f.onCell := by
  simp only [preludeOf, List.dropWhile_map, ← List.map_reverse, Function.comp_def, onCell_char]

mutual

def onNode : Node → Node
  | .statement text => .statement (text.map f.onCell)
  | .block prelude content body =>
    .block (prelude.map f.onCell) (content.map f.onCell) (onNodes body)

def onNodes : List Node → List Node
  | [] => []
  | n :: ns => onNode n :: onNodes ns

end

def onError : ReadError → ReadError
  | .unterminatedComment n => .unterminatedComment (f.line n)
  | .unclosedBrace n => .unclosedBrace (f.line n)
  | .unexpectedBrace n => .unexpectedBrace (f.line n)

/-- The result of reading nodes, moved. -/
def onRead (r : Except ReadError (List Node)) : Except ReadError (List Node) :=
  (r.map f.onNodes).mapError f.onError

/-- Reading nodes commutes with relocations. -/
theorem readNodes_map (xs : List Cell) :
    readNodes (xs.map f.onCell) = f.onRead (readNodes xs) := by
  induction hn : xs.length using Nat.strongRecOn generalizing xs with
  | _ n ih =>
    by_cases hne : xs = []
    · subst hne
      rw [List.map_nil, readNodes]
      rfl
    -- both texts are cut in the same place, so both reads take the same branch
    have hmap : cut (xs.map f.onCell) = f.onCut (cut xs) := cutFrom_map f 0 xs
    rcases cut_cases xs with ⟨text, x, rest, hxs, -, hx, hcut⟩ | ⟨-, -, hcut⟩
    · rw [hcut] at hmap
      have hlt : rest.length < n := by rw [← hn, hxs]; simp; omega
      rcases Cell.delimits_cases hx with ho | hc | hs
      · rw [Cell.stop_of_opens ho] at hcut hmap
        have hblock : takeBlock (rest.map f.onCell) = _ := takeBlockFrom_map f 0 rest
        cases hb : takeBlockFrom 0 rest with
        | none =>
          rw [hb] at hblock
          rw [readNodes_of_unclosed hcut hb, readNodes_of_unclosed hmap hblock]
          simp [onRead, onError, Except.map, Except.mapError, f.line_pos]
        | some r =>
          obtain ⟨content, tail⟩ := r
          rw [hb] at hblock
          have hlen := length_of_takeBlockFrom hb
          have hbody : readBody (preludeOf (text.map f.onCell)) (content.map f.onCell) =
              f.onRead (readBody (preludeOf text) content) := by
            rw [readBody, readBody, preludeOf_map, chars_map]
            split
            · exact ih content.length (by omega) content rfl
            · rfl
          rw [readNodes_of_block hcut hb, readNodes_of_block hmap hblock, hbody,
            ih tail.length (by omega) tail rfl, preludeOf_map]
          cases readBody (preludeOf text) content with
          | error e => rfl
          | ok body => cases readNodes tail <;> rfl
      · rw [Cell.stop_of_closes hc] at hcut hmap
        rw [readNodes_of_closeBrace hcut, readNodes_of_closeBrace hmap]
        simp [onRead, onError, Except.map, Except.mapError, f.line_pos]
      · rw [Cell.stop_of_semicolon hs] at hcut hmap
        rw [readNodes_of_semicolon hcut, readNodes_of_semicolon hmap, ih rest.length hlt rest rfl]
        cases readNodes rest <;> rfl
    · rw [hcut] at hmap
      rw [readNodes_of_finish hne hcut, readNodes_of_finish (by simpa using hne) hmap]
      rfl

/-! ### The parts of a style sheet -/

def onVariable (v : Variable) : Variable := { v with pos := f.pos v.pos }

def onDeclaration (d : Declaration) : Declaration := { d with pos := f.pos d.pos }

def onRule (r : Rule) : Rule :=
  { r with declarations := r.declarations.map f.onDeclaration, pos := f.pos r.pos }

def onClass (c : StyledClass) : StyledClass :=
  { c with declarations := c.declarations.map f.onDeclaration, pos := f.pos c.pos }

def onMediaQuery (m : MediaQuery) : MediaQuery := { m with pos := f.pos m.pos }

def onKeyframes (k : Keyframes) : Keyframes := { k with pos := f.pos k.pos }

def onSheet (s : Sheet) : Sheet where
  path := s.path
  customProperties := s.customProperties.map f.onVariable
  classes := s.classes.map f.onClass
  rules := s.rules.map f.onRule
  mediaQueries := s.mediaQueries.map f.onMediaQuery
  keyframes := s.keyframes.map f.onKeyframes

theorem entries_map (xs : List Cell) :
    Selector.entries Cell.char (xs.map f.onCell) =
      (Selector.entries Cell.char xs).map fun e => (f.onCell e.1, e.2) := by
  rw [Selector.entries_map]
  simp only [onCell_char]

theorem heads_map (scope : Scope) (prelude : List Cell) :
    heads scope (prelude.map f.onCell) =
      (heads scope prelude).map fun h => (f.pos h.1, h.2) := by
  unfold heads
  rw [chars_map]
  cases AtRule.of? (chars prelude) with
  | some rule => cases prelude <;> simp [Function.comp_def]
  | none =>
    simp only [entries_map, List.flatMap_map, List.map_flatMap, List.map_map, Function.comp_def,
      onCell_pos]

theorem inside_map (scope : Scope) (prelude : List Cell) :
    scope.inside (prelude.map f.onCell) = scope.inside prelude := by
  rw [Scope.inside, Scope.inside, chars_map, heads_map]
  simp only [List.map_map, Function.comp_def]

theorem readDeclaration?_map (statement : List Cell) :
    readDeclaration? (statement.map f.onCell) =
      (readDeclaration? statement).map fun d => (d.1, d.2.1, f.pos d.2.2) := by
  unfold readDeclaration?
  rw [List.dropWhile_map]
  simp only [Function.comp_def, onCell_char]
  cases statement.dropWhile fun x => isBlank x.char with
  | nil => rfl
  | cons x xs =>
    rw [List.map_cons, ← List.map_cons (f := f.onCell), chars_map]
    cases splitAt? [':'] (chars (x :: xs)) with
    | none => rfl
    | some r =>
      obtain ⟨name, value⟩ := r
      simp only [List.map_cons, onCell_pos]
      split <;> rfl

theorem readVariable?_map (scope : Scope) (statement : List Cell) :
    readVariable? scope (statement.map f.onCell) =
      (readVariable? scope statement).map f.onVariable := by
  rw [readVariable?, readVariable?, readDeclaration?_map]
  cases readDeclaration? statement with
  | none => rfl
  | some d =>
    obtain ⟨name, value, pos⟩ := d
    simp only [Option.map_some, Option.bind_some]
    split <;> rfl

theorem ownDeclaration?_map (statement : List Cell) :
    ownDeclaration? (statement.map f.onCell) =
      (ownDeclaration? statement).map f.onDeclaration := by
  rw [ownDeclaration?, ownDeclaration?, readDeclaration?_map]
  cases readDeclaration? statement with
  | none => rfl
  | some d =>
    obtain ⟨name, value, pos⟩ := d
    simp only [Option.map_some, Option.bind_some]
    split <;> rfl

theorem ownDeclarations_map (nodes : List Node) :
    ownDeclarations (f.onNodes nodes) = (ownDeclarations nodes).map f.onDeclaration := by
  induction nodes with
  | nil => rfl
  | cons n ns ih =>
    simp only [ownDeclarations] at ih ⊢
    cases n with
    | statement text =>
      simp only [onNodes, onNode, List.filterMap_cons, ownDeclaration?_map]
      cases ownDeclaration? text <;> simp [ih]
    | block prelude content body => simpa [onNodes, onNode] using ih

theorem ownRules_map (scope : Scope) (prelude : List Cell) (body : List Node) :
    ownRules scope (prelude.map f.onCell) (f.onNodes body) =
      (ownRules scope prelude body).map f.onRule := by
  rw [ownRules, ownRules, ownDeclarations_map, heads_map, inside_map]
  simp only [List.isEmpty_map]
  split
  · rfl
  · simp [Function.comp_def, onRule]

mutual

theorem customProperties_map (scope : Scope) :
    ∀ n : Node, (f.onNode n).customProperties scope =
      (n.customProperties scope).map f.onVariable
  | .statement text => by
    rw [onNode, Node.customProperties, Node.customProperties, readVariable?_map]
    cases readVariable? scope text <;> rfl
  | .block prelude content body => by
    rw [onNode, Node.customProperties, Node.customProperties, inside_map]
    exact customPropertiesIn_map _ body

theorem customPropertiesIn_map (scope : Scope) :
    ∀ ns : List Node, Node.customPropertiesIn scope (f.onNodes ns) =
      (Node.customPropertiesIn scope ns).map f.onVariable
  | [] => rfl
  | n :: ns => by
    rw [onNodes, Node.customPropertiesIn, Node.customPropertiesIn, customProperties_map scope n,
      customPropertiesIn_map scope ns, List.map_append]

end

mutual

theorem rules_map (scope : Scope) :
    ∀ n : Node, (f.onNode n).rules scope = (n.rules scope).map f.onRule
  | .statement _ => rfl
  | .block prelude content body => by
    rw [onNode, Node.rules, Node.rules, ownRules_map, inside_map, rulesIn_map _ body,
      List.map_append]

theorem rulesIn_map (scope : Scope) :
    ∀ ns : List Node, Node.rulesIn scope (f.onNodes ns) = (Node.rulesIn scope ns).map f.onRule
  | [] => rfl
  | n :: ns => by
    rw [onNodes, Node.rulesIn, Node.rulesIn, rules_map scope n, rulesIn_map scope ns,
      List.map_append]

end

mutual

theorem mediaQueries_map :
    ∀ n : Node, (f.onNode n).mediaQueries = n.mediaQueries.map f.onMediaQuery
  | .statement _ => rfl
  | .block prelude content body => by
    rw [onNode, Node.mediaQueries.eq_def, Node.mediaQueries.eq_def (.block prelude content body)]
    dsimp only
    rw [mediaQueriesIn_map body, List.map_append, chars_map, chars_map]
    congr 1
    cases AtRule.of? (chars prelude) with
    | none => rfl
    | some rule => cases rule <;> cases prelude <;> rfl

theorem mediaQueriesIn_map :
    ∀ ns : List Node, Node.mediaQueriesIn (f.onNodes ns) =
      (Node.mediaQueriesIn ns).map f.onMediaQuery
  | [] => rfl
  | n :: ns => by
    rw [onNodes, Node.mediaQueriesIn, Node.mediaQueriesIn, mediaQueries_map n,
      mediaQueriesIn_map ns, List.map_append]

end

mutual

theorem keyframes_map : ∀ n : Node, (f.onNode n).keyframes = n.keyframes.map f.onKeyframes
  | .statement _ => rfl
  | .block prelude content body => by
    rw [onNode, Node.keyframes.eq_def, Node.keyframes.eq_def (.block prelude content body)]
    dsimp only
    rw [keyframesIn_map body, List.map_append, chars_map]
    congr 1
    cases AtRule.of? (chars prelude) with
    | none => rfl
    | some rule => cases rule <;> cases prelude <;> rfl

theorem keyframesIn_map :
    ∀ ns : List Node, Node.keyframesIn (f.onNodes ns) = (Node.keyframesIn ns).map f.onKeyframes
  | [] => rfl
  | n :: ns => by
    rw [onNodes, Node.keyframesIn, Node.keyframesIn, keyframes_map n, keyframesIn_map ns,
      List.map_append]

end

theorem class?_map (r : Rule) : (f.onRule r).class? = r.class?.map f.onClass := by
  simp [Rule.class?, onRule, onClass, Function.comp_def]

theorem ofNodes_map (path : String) (nodes : List Node) :
    Sheet.ofNodes path (f.onNodes nodes) = f.onSheet (Sheet.ofNodes path nodes) := by
  simp only [Sheet.ofNodes, onSheet, customPropertiesIn_map, rulesIn_map, mediaQueriesIn_map,
    keyframesIn_map, List.filterMap_map, List.map_filterMap, Function.comp_def, class?_map]

end Relocation

/-! ### The whole reading -/

namespace Sheet

/-- The style sheet of a text whose characters have places already. -/
def ofCells (path : String) (xs : List Cell) : Except ReadError Sheet :=
  match strip xs with
  | .error line => .error (.unterminatedComment line)
  | .ok ys => (readNodes (markStrings ys)).map (ofNodes path)

theorem parse_eq_ofCells (path source : String) :
    parse path source = ofCells path (cells source.toList) := by
  rw [parse, readTree, ofCells]
  cases strip (cells source.toList) with
  | error line => rfl
  | ok xs =>
    dsimp only
    cases readNodes (markStrings xs) <;> rfl

/-- **Moving a text moves the parts of its style sheet, and the line of an error, and changes
nothing else.** -/
theorem ofCells_map (f : Relocation) (path : String) (xs : List Cell) :
    ofCells path (xs.map f.onCell) = ((ofCells path xs).map f.onSheet).mapError f.onError := by
  rw [ofCells, ofCells, f.strip_map]
  cases strip xs with
  | error line => rfl
  | ok ys =>
    simp only [Except.map, Except.mapError, f.markStrings_map, f.readNodes_map]
    cases readNodes (markStrings ys) with
    | error e => rfl
    | ok nodes => simp [Relocation.onRead, Except.map, Except.mapError, f.ofNodes_map]

end Sheet
end SheetAudit
