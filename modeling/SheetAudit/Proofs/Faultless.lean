import SheetAudit.Proofs.Ranges
import SheetAudit.Proofs.Structure

/-!
# A reading by offsets meets no fault

The walk over a text goes from delimiter to delimiter and into blocks, and every offset that it
hands on is one where a cell begins or the text ends.  So no index lies beyond the bytes, no range
cuts a character in two and no count falls below zero; and what the walk gathers are the parts of
the tree that is read from the cells.

## Main definitions

* `kept` — the declarations that a walk hands back.
* `walked` — what the walk of a range leads to, told by the nodes that are read there.
* `WalkedBelow` — parts of fewer cells are walked as they are read.

## Main results

* `parseBody_openBrace`, `parseBody_unclosed`, `parseBody_closeBrace`, `parseBody_statement` — one
  step of the walk.
* `parseAtRule_eq`, `parseBlock_eq` — blocks, if their bodies are walked as they are read.
* `parseBody_of_opens`, `parseBody_of_closes`, `parseBody_of_semicolon`, `parseBody_of_finish` — the
  walk by what ends its first statement.
* `parseBody_eq` — **the walk between two offsets gathers what the cells there hold.**
* `reading_meets_no_fault` — **reading a style sheet by offsets meets no fault.**
-/

namespace SheetAudit

open Source Text

namespace Offsets

/-! ### What is kept of a walk -/

/-- The declarations that are kept for the rule around them, if there is one. -/
def kept (scope : Scope) (nodes : List Node) : List Declaration :=
  if scope.selectors.isEmpty then [] else ownDeclarations nodes

theorem kept_block (scope : Scope) (prelude content : List Cell) (body nodes : List Node) :
    kept scope (.block prelude content body :: nodes) = kept scope nodes :=
  rfl

theorem kept_statement {scope : Scope} (hscope : scope.selectors ≠ []) (text : List Cell)
    (nodes : List Node) :
    kept scope (.statement text :: nodes) = (ownDeclaration? text).toList ++ kept scope nodes := by
  have hempty : ¬ scope.selectors.isEmpty = true := by simpa using hscope
  rw [kept, kept, if_neg hempty, if_neg hempty, ownDeclarations, ownDeclarations]
  cases hd : ownDeclaration? text with
  | none => rw [List.filterMap_cons_none (by exact hd)]; rfl
  | some d => rw [List.filterMap_cons_some (by exact hd)]; rfl

/-- The selectors of a block are those its body stands under. -/
theorem map_heads (scope : Scope) (prelude : List Cell) :
    (heads scope prelude).map (·.2) = (scope.inside prelude).selectors := by
  unfold Scope.inside
  cases hrule : AtRule.of? (chars prelude) with
  | none => rfl
  | some rule =>
    cases prelude with
    | nil => cases hrule
    | cons x xs =>
      unfold heads
      rw [hrule]
      cases rule <;> simp [Scope.addMedia]

/-- The rules of a block are those for the declarations that are kept. -/
theorem ownRules_eq (scope : Scope) (prelude : List Cell) (body : List Node) :
    ownRules scope prelude body =
      if (kept (scope.inside prelude) body).isEmpty then []
      else (heads scope prelude).map fun (pos, selector) =>
        { selector := String.ofList selector
          declarations := kept (scope.inside prelude) body
          media := (scope.inside prelude).media.map String.ofList
          pos } := by
  by_cases hempty : (scope.inside prelude).selectors = []
  · have hheads := map_heads scope prelude
    rw [hempty, List.map_eq_nil_iff] at hheads
    simp [ownRules, hheads]
  · have hkept : kept (scope.inside prelude) body = ownDeclarations body :=
      if_neg (by simpa using hempty)
    rw [ownRules, hkept]

theorem recordRules_kept {t : Texts} {scope : Scope} {prelude : List Cell}
    {ps : List (Nat × List Char)} (h : List.Forall₂ (FoundAt t) ps (heads scope prelude))
    (body : List Node) (s : Sheet) :
    recordRules t ps (kept (scope.inside prelude) body) (scope.inside prelude).media s =
      .ok (s.addRules (ownRules scope prelude body)) := by
  rw [recordRules_eq h, ownRules_eq]

/-- What a walk of a range leads to. -/
def walked (scope : Scope) (s : Sheet) (read : Except ReadError (List Node)) :
    Except Halt (List Declaration × Sheet) :=
  (read.mapError Halt.broken).map fun nodes => (kept scope nodes, s.gather scope nodes)

theorem walked_nil (scope : Scope) (s : Sheet) : walked scope s (.ok []) = .ok ([], s) := by
  have hkept : kept scope [] = [] := by
    rw [kept]
    split <;> rfl
  rw [walked, Except.mapError, Except.map, hkept, Sheet.gather_nil]

/-- A body that is not read adds nothing. -/
theorem gather_unread (scope : Scope) (prelude : List Cell) (s : Sheet) :
    (s.gather (scope.inside prelude) []).addRules (ownRules scope prelude []) = s := by
  rw [Sheet.gather_nil]
  exact Sheet.addRules_nil s

/-- Behind a walked body come the rules of its block. -/
theorem walked_bind {t : Texts} {scope : Scope} {prelude : List Cell}
    {ps : List (Nat × List Char)} (h : List.Forall₂ (FoundAt t) ps (heads scope prelude))
    (read : Except ReadError (List Node)) (s : Sheet) :
    (walked (scope.inside prelude) s read >>= fun r =>
        liftM (recordRules t ps r.1 (scope.inside prelude).media r.2)) =
      (read.mapError Halt.broken).map fun body =>
        (s.gather (scope.inside prelude) body).addRules (ownRules scope prelude body) := by
  cases read with
  | error e => rfl
  | ok body =>
    have hrecord := recordRules_kept h body (s.gather (scope.inside prelude) body)
    exact congrArg (liftM (n := Except Halt)) hrecord

/-! ### Preludes -/

/-- What an at-rule announces is told by its keyword. -/
theorem of?_eq {cs : List Char} (h : cs.head? = some '@') :
    ∃ keyword rest, keywordOf cs = .ok (keyword, rest) ∧
      AtRule.of? cs = some
        (if keyword == "@media".toList then .media rest
        else if "keyframes".toList.isSuffixOf keyword then
          .keyframes (trimMatches (fun c => c == '"' || c == '\'') rest)
        else if descriptorRules.contains (String.ofList keyword) then .descriptors
        else .group) := by
  have hsplit : cs.takeWhile Draft.inKeyword ++ cs.dropWhile Draft.inKeyword = cs :=
    List.takeWhile_append_dropWhile
  have hkeyword := slice_front (cs.takeWhile Draft.inKeyword) (cs.dropWhile Draft.inKeyword)
  have hrest := slice_back (cs.takeWhile Draft.inKeyword) (cs.dropWhile Draft.inKeyword)
  rw [hsplit] at hkeyword hrest
  refine ⟨lowerAscii (cs.takeWhile Draft.inKeyword), collapse (cs.dropWhile Draft.inKeyword),
    ?_, ?_⟩
  · have hstop : keywordOf cs = (slice cs 0 (size (cs.takeWhile Draft.inKeyword)) >>= fun keyword =>
        slice cs (size (cs.takeWhile Draft.inKeyword)) (size cs) >>= fun rest =>
          .ok (lowerAscii keyword, collapse rest)) := rfl
    rw [hstop, hkeyword, ok_bind, hrest, ok_bind]
  · rw [AtRule.of?, if_neg (by simp [h])]
    rfl

/-- Only media queries and keyframes are listed by their preludes. -/
theorem addHead_eq_self {prelude : List Cell}
    (hmedia : ∀ query, AtRule.of? (chars prelude) ≠ some (.media query))
    (hframes : ∀ name, AtRule.of? (chars prelude) ≠ some (.keyframes name)) (content : List Cell)
    (s : Sheet) : s.addHead prelude content = s := by
  cases hrule : AtRule.of? (chars prelude) with
  | none => simp [Sheet.addHead, Node.ownQueries, Node.ownKeyframes, hrule]
  | some rule =>
    cases rule with
    | media query => exact absurd hrule (hmedia query)
    | keyframes name => exact absurd hrule (hframes name)
    | descriptors => simp [Sheet.addHead, Node.ownQueries, Node.ownKeyframes, hrule]
    | group => simp [Sheet.addHead, Node.ownQueries, Node.ownKeyframes, hrule]

theorem chars_preludeOf (before : List Cell) :
    chars (preludeOf before) = trimRight (chars (before.dropWhile fun x => isSpace x.char)) := by
  have hreverse (xs : List Cell) : chars xs.reverse = (chars xs).reverse := List.map_reverse
  rw [preludeOf, hreverse, ← trimLeft_chars, hreverse, trimLeft, trimRight]

/-! ### One step of the walk -/

theorem parseBody_of_le {t : Texts} {pos stop : Nat} (h : stop ≤ pos) (scope : Scope) (s : Sheet) :
    parseBody t pos stop scope s = .ok ([], s) := by
  rw [parseBody.eq_def, if_neg (Nat.not_lt.2 h)]

section

variable {t : Texts} {pos stop delimiter close : Nat} (hpos : pos < stop) (scope : Scope)
  (s : Sheet)
include hpos

theorem parseBody_openBrace (hd : findDelimiter t.bytes pos stop = .ok (delimiter, .openBrace))
    (hm : matchingBrace t.bytes delimiter stop = .ok (some close)) :
    parseBody t pos stop scope s =
      (liftM (skipSpace t.bytes pos delimiter) >>= fun start =>
        parseBlock t start delimiter close scope s >>= fun s =>
          parseBody t (close + 1) stop scope s) := by
  rw [parseBody.eq_def, if_pos hpos]
  split <;> rename_i heq <;> rw [hd] at heq
  · cases heq
  · obtain ⟨rfl, -⟩ := Prod.mk.inj (Except.ok.inj heq)
    split <;> rename_i heq <;> rw [hm] at heq
    · cases heq
    · cases heq
    · obtain rfl := Option.some.inj (Except.ok.inj heq)
      rfl
  · cases heq
  · obtain ⟨-, rfl⟩ := Prod.mk.inj (Except.ok.inj heq)
    contradiction

theorem parseBody_unclosed (hd : findDelimiter t.bytes pos stop = .ok (delimiter, .openBrace))
    (hm : matchingBrace t.bytes delimiter stop = .ok none) :
    parseBody t pos stop scope s =
      (liftM (t.position delimiter) >>= fun p => .error (.broken (.unclosedBrace p.line))) := by
  rw [parseBody.eq_def, if_pos hpos]
  split <;> rename_i heq <;> rw [hd] at heq
  · cases heq
  · obtain ⟨rfl, -⟩ := Prod.mk.inj (Except.ok.inj heq)
    split <;> rename_i heq <;> rw [hm] at heq
    · cases heq
    · rfl
    · cases heq
  · cases heq
  · obtain ⟨-, rfl⟩ := Prod.mk.inj (Except.ok.inj heq)
    contradiction

theorem parseBody_closeBrace
    (hd : findDelimiter t.bytes pos stop = .ok (delimiter, .closeBrace)) :
    parseBody t pos stop scope s =
      (liftM (t.position delimiter) >>= fun p => .error (.broken (.unexpectedBrace p.line))) := by
  rw [parseBody.eq_def, if_pos hpos]
  split <;> rename_i heq <;> rw [hd] at heq
  · cases heq
  · cases heq
  · obtain ⟨rfl, -⟩ := Prod.mk.inj (Except.ok.inj heq)
    rfl
  · obtain ⟨-, rfl⟩ := Prod.mk.inj (Except.ok.inj heq)
    contradiction

/-- A statement outside rules is passed over. -/
theorem parseBody_statement {d : Delimiter} (hopen : d ≠ .openBrace) (hclose : d ≠ .closeBrace)
    (hd : findDelimiter t.bytes pos stop = .ok (delimiter, d)) :
    parseBody t pos stop scope s =
      ((if scope.selectors.isEmpty then .ok ([], s)
        else liftM (parseDeclaration t pos delimiter scope s)) >>= fun r =>
          parseBody t (delimiter + 1) stop scope r.2 >>= fun r' => .ok (r.1 ++ r'.1, r'.2)) := by
  rw [parseBody.eq_def, if_pos hpos]
  split <;> rename_i heq <;> rw [hd] at heq
  · cases heq
  · exact absurd (Prod.mk.inj (Except.ok.inj heq)).2 hopen
  · exact absurd (Prod.mk.inj (Except.ok.inj heq)).2 hclose
  · obtain ⟨rfl, rfl⟩ := Prod.mk.inj (Except.ok.inj heq)
    split <;> rfl

end

/-! ### The walk -/

/-- A cell that stands for itself is one byte outside strings. -/
theorem single_of_is {x : Cell} {c : Char} (h : x.is c = true) (h1 : c.utf8Size = 1)
    (hc : isBlank c = false) :
    x.quoted = false ∧ x.char.utf8Size = 1 ∧ isBlank x.char = false := by
  obtain ⟨hquoted, rfl⟩ : x.quoted = false ∧ x.char = c := by simpa [Cell.is] using h
  exact ⟨hquoted, h1, hc⟩

theorem lt_add_width {xs : List Cell} (hne : xs ≠ []) (i : Nat) : i < i + width xs := by
  obtain ⟨x, xs, rfl⟩ := List.exists_cons_of_ne_nil hne
  have := x.char.utf8Size_pos
  rw [width_cons]
  omega

/-- Every part of fewer than `n` cells is walked as it is read. -/
def WalkedBelow (source : List Char) (ws : List Cell) (n : Nat) : Prop :=
  ∀ xs i, xs.length < n → Lies ws i xs → markStrings xs = xs → ∀ scope s,
    parseBody ⟨source, chars ws⟩ i (i + width xs) scope s = walked scope s (readNodes xs)

section

variable {source : List Char} {ws : List Cell} (hplaced : Placed source ws)
include hplaced

/-- An at-rule is walked by its keyword. -/
theorem parseAtRule_eq {x : Cell} {xs content blanks : List Cell} {start opening closing : Nat}
    (hat : x.char = '@') (h : Lies ws start ((x :: xs) ++ blanks))
    (htrim : trim (chars ((x :: xs) ++ blanks)) = chars (x :: xs))
    (hopening : opening = start + width ((x :: xs) ++ blanks))
    (hcontent : Lies ws (opening + 1) content) (hclosing : closing = opening + 1 + width content)
    (hbody : ∀ scope s, parseBody ⟨source, chars ws⟩ (opening + 1) closing scope s =
      walked scope s (readNodes content)) (scope : Scope) (s : Sheet) :
    parseAtRule ⟨source, chars ws⟩ start opening closing scope s =
      ((readBody (x :: xs) content).mapError Halt.broken).map fun body =>
        ((s.addHead (x :: xs) content).gather (scope.inside (x :: xs)) body).addRules
          (ownRules scope (x :: xs) body) := by
  have hhead : (chars (x :: xs)).head? = some '@' := congrArg some hat
  obtain ⟨keyword, rest, hkeyword, hrule⟩ := of?_eq hhead
  have hpos : Texts.position ⟨source, chars ws⟩ start = .ok x.pos :=
    hplaced _ x h.left.head (by rw [hat]; decide)
  have hheads := headsAtRule_eq hplaced h.left (by rw [hat]; decide) hrule scope
  rw [parseAtRule, h.slice hopening, liftM_ok, ok_bind, htrim, hkeyword, liftM_ok, ok_bind]
  dsimp only
  rw [readBody, holdsNodes]
  by_cases hmedia : (keyword == "@media".toList) = true
  · rw [if_pos hmedia] at hrule ⊢
    have hinside : scope.inside (x :: xs) = scope.addMedia rest := by
      rw [Scope.inside, hrule]
    have hhead : s.addHead (x :: xs) content =
        { s with mediaQueries := s.mediaQueries ++
            [⟨String.ofList rest, String.ofList (trim (chars content)), x.pos⟩] } := by
      simp [Sheet.addHead, Node.ownQueries, Node.ownKeyframes, hrule]
    have hwalk := walked_bind hheads (readNodes content) (s.addHead (x :: xs) content)
    rw [hinside, hhead] at hwalk
    rw [hcontent.slice hclosing, hpos, hrule, hinside, hhead]
    simp only [liftM_ok, ok_bind, hbody]
    exact hwalk
  rw [if_neg hmedia] at hrule ⊢
  by_cases hframes : ("keyframes".toList.isSuffixOf keyword) = true
  · rw [if_pos hframes] at hrule ⊢
    have hhead : s.addHead (x :: xs) content =
        { s with keyframes := s.keyframes ++
            [⟨String.ofList (trimMatches (fun c => c == '"' || c == '\'') rest), x.pos⟩] } := by
      simp [Sheet.addHead, Node.ownQueries, Node.ownKeyframes, hrule]
    rw [hpos, hrule, hhead]
    exact congrArg Except.ok (gather_unread scope (x :: xs) _).symm
  rw [if_neg hframes] at hrule ⊢
  by_cases hdescriptors : (descriptorRules.contains (String.ofList keyword)) = true
  · rw [if_pos hdescriptors] at hrule ⊢
    have hhead : s.addHead (x :: xs) content = s :=
      addHead_eq_self (by simp [hrule]) (by simp [hrule]) content s
    rw [hrule, hhead]
    exact congrArg Except.ok (gather_unread scope (x :: xs) s).symm
  · rw [if_neg hdescriptors] at hrule ⊢
    have hinside : scope.inside (x :: xs) = scope := by
      rw [Scope.inside, hrule]
    have hhead : s.addHead (x :: xs) content = s :=
      addHead_eq_self (by simp [hrule]) (by simp [hrule]) content s
    have hwalk := walked_bind hheads (readNodes content) s
    rw [hinside] at hwalk
    rw [hrule, hinside, hhead, hbody]
    exact hwalk

/-- A block is walked by what its prelude begins with. -/
theorem parseBlock_eq {before content : List Cell} {i opening closing : Nat}
    (h : Lies ws i before) (hopening : opening = i + width before)
    (hcontent : Lies ws (opening + 1) content) (hclosing : closing = opening + 1 + width content)
    (hbody : ∀ scope s, parseBody ⟨source, chars ws⟩ (opening + 1) closing scope s =
      walked scope s (readNodes content)) (scope : Scope) (s : Sheet) :
    parseBlock ⟨source, chars ws⟩ (i + width (before.takeWhile fun x => isSpace x.char)) opening
        closing scope s =
      ((readBody (preludeOf before) content).mapError Halt.broken).map fun body =>
        ((s.addHead (preludeOf before) content).gather (scope.inside (preludeOf before))
          body).addRules (ownRules scope (preludeOf before) body) := by
  -- without the space before it the text is the prelude and the blanks behind it
  have hspace : before.takeWhile (fun x => isSpace x.char) ++
      before.dropWhile (fun x => isSpace x.char) = before := List.takeWhile_append_dropWhile
  have hchars := chars_preludeOf before
  obtain ⟨blanks, hblanks⟩ : preludeOf before <+: before.dropWhile fun x => isSpace x.char :=
    List.rdropWhile_prefix _ _
  rw [← hspace] at h hopening
  rw [width_append, ← Nat.add_assoc] at hopening
  have h := h.right
  rw [← hblanks] at h hopening hchars
  generalize i + width (before.takeWhile fun x => isSpace x.char) = start at h hopening ⊢
  generalize preludeOf before = prelude at h hopening hchars ⊢
  rw [parseBlock, h.slice hopening, liftM_ok, ok_bind, ← hchars]
  by_cases hat : (chars prelude).head? = some '@'
  · rw [if_pos (by simpa using hat)]
    cases prelude with
    | nil => cases hat
    | cons x xs =>
      have hx : x.char = '@' := Option.some.inj hat
      have htrim : trim (chars ((x :: xs) ++ blanks)) = chars (x :: xs) := by
        have hleft : trimLeft (chars ((x :: xs) ++ blanks)) = chars ((x :: xs) ++ blanks) := by
          rw [List.cons_append, chars_cons, trimLeft, List.dropWhile_cons, hx]
          rfl
        rw [trim, hleft, ← hchars]
      exact parseAtRule_eq hplaced hx h htrim hopening hcontent hclosing hbody scope s
  · have hrule : AtRule.of? (chars prelude) = none := by
      rw [AtRule.of?, if_pos (by simpa using hat)]
    obtain ⟨ps, hsplit, hps⟩ := splitList_eq Cell.char prelude
    change splitList (chars prelude) = .ok ps at hsplit
    have hheads := headsAt_eq hplaced h.left hrule scope hps
    have hselectors : (headsAt start scope ps).map (·.2) = (heads scope prelude).map (·.2) := by
      rw [← List.forall₂_eq_eq_eq, List.forall₂_map_left_iff, List.forall₂_map_right_iff]
      exact hheads.imp fun p e hpe => hpe.1
    have hinside : scope.inside prelude =
        { scope with selectors := (headsAt start scope ps).map (·.2) } := by
      rw [Scope.inside, hrule, hselectors]
    have hhead : s.addHead prelude content = s :=
      addHead_eq_self (by simp [hrule]) (by simp [hrule]) content s
    have hwalk := walked_bind hheads (readNodes content) s
    rw [hinside] at hwalk
    rw [if_neg (by simpa using hat), hsplit, liftM_ok, ok_bind, hhead, readBody, holdsNodes, hrule,
      hinside]
    simp only [hbody]
    exact hwalk

/-- A statement is walked, and what follows it. -/
theorem parseBody_statement_eq {text rest : List Cell} {i stop : Nat} {d : Delimiter}
    (hopen : d ≠ .openBrace) (hclose : d ≠ .closeBrace) (hpos : i < stop)
    (hd : findDelimiter (encode (chars ws)) i stop = .ok (i + width text, d))
    (h : Lies ws i text)
    (hrest : ∀ scope s, parseBody ⟨source, chars ws⟩ (i + width text + 1) stop scope s =
      walked scope s (readNodes rest)) (scope : Scope) (s : Sheet) :
    parseBody ⟨source, chars ws⟩ i stop scope s =
      walked scope s ((readNodes rest).map (.statement text :: ·)) := by
  rw [parseBody_statement (t := ⟨source, chars ws⟩) hpos scope s hopen hclose hd]
  by_cases hscope : scope.selectors = []
  · have hvariable : readVariable? scope text = none := by
      rw [readVariable?, Option.bind_eq_none_iff]
      rintro ⟨name, value, pos⟩ -
      simp [hscope]
    have hkept (nodes : List Node) : kept scope nodes = [] := if_pos (by simp [hscope])
    rw [if_pos (by simp [hscope]), ok_bind, hrest]
    cases readNodes rest with
    | error e => rfl
    | ok nodes =>
      simp only [walked, Except.mapError, Except.map, hkept, Sheet.gather_statement, hvariable,
        Option.toList_none, List.append_nil]
      rfl
  · rw [if_neg (by simpa using hscope), parseDeclaration_eq hplaced h hscope, liftM_ok, ok_bind,
      hrest]
    cases readNodes rest with
    | error e => rfl
    | ok nodes =>
      simp only [walked, Except.mapError, Except.map, kept_statement hscope,
        Sheet.gather_statement]
      rfl

/-- A block is walked, and what follows it. -/
theorem parseBody_block_eq {before content rest : List Cell} {i stop : Nat} (hpos : i < stop)
    (hd : findDelimiter (encode (chars ws)) i stop = .ok (i + width before, .openBrace))
    (hm : matchingBrace (encode (chars ws)) (i + width before) stop =
      .ok (some (i + width before + 1 + width content)))
    (h : Lies ws i before) (hcontent : Lies ws (i + width before + 1) content)
    (hbody : ∀ scope s, parseBody ⟨source, chars ws⟩ (i + width before + 1)
      (i + width before + 1 + width content) scope s = walked scope s (readNodes content))
    (hrest : ∀ scope s, parseBody ⟨source, chars ws⟩ (i + width before + 1 + width content + 1) stop
      scope s = walked scope s (readNodes rest)) (scope : Scope) (s : Sheet) :
    parseBody ⟨source, chars ws⟩ i stop scope s =
      walked scope s ((readBody (preludeOf before) content).bind fun body =>
        (readNodes rest).map (.block (preludeOf before) content body :: ·)) := by
  obtain ⟨bytes, hdrop⟩ := h.drop
  rw [parseBody_openBrace (t := ⟨source, chars ws⟩) hpos scope s hd hm, Texts.bytes,
    skipSpace_eq hdrop rfl, liftM_ok, ok_bind,
    parseBlock_eq hplaced h rfl hcontent rfl hbody]
  cases readBody (preludeOf before) content with
  | error e => rfl
  | ok body =>
    have hall (s : Sheet) := hrest scope s
    rw [Except.mapError, Except.map, ok_bind, hall]
    cases readNodes rest with
    | error e => rfl
    | ok nodes =>
      simp only [walked, Except.mapError, Except.map, Except.bind, kept_block, Sheet.gather_block]

section

variable {text rest : List Cell} {x : Cell} {i : Nat} (h : Lies ws i (text ++ x :: rest))
  (hmarked : markStrings (text ++ x :: rest) = text ++ x :: rest)
  (hcut : cut (text ++ x :: rest) = ⟨text, x.stop, rest⟩)
  (hbelow : WalkedBelow source ws (text ++ x :: rest).length) (scope : Scope) (s : Sheet)
include h hmarked hcut

/-- A brace that closes nothing ends the walk with an error. -/
theorem parseBody_of_closes (hc : x.is '}' = true) :
    parseBody ⟨source, chars ws⟩ i (i + width (text ++ x :: rest)) scope s =
      walked scope s (readNodes (text ++ x :: rest)) := by
  obtain ⟨-, -, hblank⟩ := single_of_is hc (by decide) (by decide)
  have hposition : Texts.position ⟨source, chars ws⟩ (i + width text) = .ok x.pos :=
    hplaced _ x h.right.head hblank
  obtain ⟨bytes, hdrop⟩ := h.drop
  have hd := findDelimiter_eq hmarked hdrop
  rw [hcut, Cell.stop_of_closes hc] at hd
  rw [Cell.stop_of_closes hc] at hcut
  rw [parseBody_closeBrace (t := ⟨source, chars ws⟩) (lt_add_width (by simp) i) scope s hd,
    hposition, readNodes_of_closeBrace hcut]
  rfl

include hbelow

/-- A statement and what follows it are walked as they are read. -/
theorem parseBody_of_semicolon (hs : x.is ';' = true) :
    parseBody ⟨source, chars ws⟩ i (i + width (text ++ x :: rest)) scope s =
      walked scope s (readNodes (text ++ x :: rest)) := by
  obtain ⟨hquoted, h1, -⟩ := single_of_is hs (by decide) (by decide)
  obtain ⟨bytes, hdrop⟩ := h.drop
  have hd := findDelimiter_eq hmarked hdrop
  have hstop : i + width (text ++ x :: rest) = i + width text + 1 + width rest := by
    rw [width_append, width_cons, h1]
    omega
  rw [hcut, Cell.stop_of_semicolon hs] at hd
  rw [Cell.stop_of_semicolon hs] at hcut
  rw [readNodes_of_semicolon hcut]
  refine parseBody_statement_eq hplaced (by simp [Delimiter.of]) (by simp [Delimiter.of])
    (lt_add_width (by simp) i) hd h.left (fun scope s => ?_) scope s
  rw [hstop]
  exact hbelow rest _ (by simp; omega) (h.right.tail h1)
    (markFrom_rest none text x rest hmarked hquoted) scope s

/-- A block and what follows it are walked as they are read. -/
theorem parseBody_of_opens (ho : x.is '{' = true) :
    parseBody ⟨source, chars ws⟩ i (i + width (text ++ x :: rest)) scope s =
      walked scope s (readNodes (text ++ x :: rest)) := by
  obtain ⟨hquoted, h1, hblank⟩ := single_of_is ho (by decide) (by decide)
  have hpos : i < i + width (text ++ x :: rest) := lt_add_width (by simp) i
  have hrest : Lies ws (i + width text + 1) rest := h.right.tail h1
  have hrestMarked : markStrings rest = rest := markFrom_rest none text x rest hmarked hquoted
  have hposition : Texts.position ⟨source, chars ws⟩ (i + width text) = .ok x.pos :=
    hplaced _ x h.right.head hblank
  obtain ⟨bytes, hdrop⟩ := h.drop
  have hd := findDelimiter_eq hmarked hdrop
  rw [hcut, Cell.stop_of_opens ho] at hd
  rw [Cell.stop_of_opens ho] at hcut
  obtain ⟨bytes, hdrop⟩ := h.right.drop
  have hm := matchingBrace_eq ho hrestMarked hdrop
  rw [Nat.add_assoc, ← width_append] at hm
  cases hb : takeBlock rest with
  | none =>
    rw [hb] at hm
    rw [parseBody_unclosed (t := ⟨source, chars ws⟩) hpos scope s hd hm, hposition,
      readNodes_of_unclosed hcut hb]
    rfl
  | some r =>
    obtain ⟨content, tail⟩ := r
    obtain ⟨-, y, hy, rfl⟩ := takeBlock_eq_some_iff.1 hb
    obtain ⟨hyQuoted, hy1, -⟩ := single_of_is hy (by decide) (by decide)
    rw [hb] at hm
    rw [readNodes_of_block hcut hb]
    refine parseBody_block_eq hplaced hpos hd hm h.left hrest.left (fun scope s => ?_)
      (fun scope s => ?_) scope s
    · exact hbelow content _ (by simp; omega) hrest.left
        (markFrom_front none content (y :: tail) hrestMarked) scope s
    · have hend : i + width (text ++ x :: (content ++ y :: tail)) =
          i + width text + 1 + width content + 1 + width tail := by
        rw [width_append, width_cons, h1, width_append, width_cons, hy1]
        omega
      rw [hend]
      exact hbelow tail _ (by simp; omega) (hrest.right.tail hy1)
        (markFrom_rest none content y tail hrestMarked hyQuoted) scope s

end

/-- The last statement needs nothing behind it. -/
theorem parseBody_of_finish {xs : List Cell} {i : Nat} (h : Lies ws i xs)
    (hmarked : markStrings xs = xs) (hcut : cut xs = ⟨xs, .finish, []⟩) (hne : xs ≠ [])
    (scope : Scope) (s : Sheet) :
    parseBody ⟨source, chars ws⟩ i (i + width xs) scope s = walked scope s (readNodes xs) := by
  obtain ⟨bytes, hdrop⟩ := h.drop
  have hd := findDelimiter_eq hmarked hdrop
  rw [hcut] at hd
  have hnil : readNodes [] = .ok [] := by rw [readNodes]
  have hrest (scope : Scope) (s : Sheet) :
      parseBody ⟨source, chars ws⟩ (i + width xs + 1) (i + width xs) scope s =
        walked scope s (readNodes []) := by
    rw [parseBody_of_le (Nat.le_succ _), hnil, walked_nil]
  have hlast := parseBody_statement_eq hplaced (by simp [Delimiter.of]) (by simp [Delimiter.of])
    (lt_add_width hne i) hd h hrest scope s
  rw [hlast, hnil, readNodes_of_finish hne hcut]
  rfl

/-- **The walk between two offsets gathers what the cells there hold.** -/
theorem parseBody_eq {xs : List Cell} {i : Nat} (h : Lies ws i xs) (hmarked : markStrings xs = xs)
    (scope : Scope) (s : Sheet) :
    parseBody ⟨source, chars ws⟩ i (i + width xs) scope s = walked scope s (readNodes xs) := by
  -- on the number of cells: a block leaves what it holds and what follows it, both fewer
  induction hn : xs.length using Nat.strongRecOn generalizing xs i scope s with
  | _ n ih =>
    have hbelow : WalkedBelow source ws xs.length := fun ys j hlt hys hmarked scope s =>
      ih ys.length (hn ▸ hlt) hys hmarked scope s rfl
    by_cases hne : xs = []
    · subst hne
      rw [parseBody_of_le (by simp), readNodes, walked_nil]
    rcases cut_cases xs with ⟨text, x, rest, rfl, -, hx, hcut⟩ | ⟨d, -, hcut⟩
    · rcases Cell.delimits_cases hx with ho | hc | hs
      · exact parseBody_of_opens hplaced h hmarked hcut hbelow scope s ho
      · exact parseBody_of_closes hplaced h hmarked hcut scope s hc
      · exact parseBody_of_semicolon hplaced h hmarked hcut hbelow scope s hs
    · exact parseBody_of_finish hplaced h hmarked hcut hne scope s

end

/-! ### Whole sheets -/

/-- The walk over offsets finds the style sheet that the tree holds. -/
theorem parse_eq (path source : String) :
    parse path source = (Sheet.parse path source).mapError .broken := by
  rw [parse, strip_eq, Sheet.parse, readTree]
  cases hs : Source.strip (cells source.toList) with
  | error line => rfl
  | ok xs =>
    have hplaced := placed_of_strip hs
    have hmarked : markStrings (markStrings xs) = markStrings xs := markFrom_markFrom none xs
    have hlies : Lies (markStrings xs) 0 (markStrings xs) := ⟨[], [], by simp, rfl⟩
    have hwalk := parseBody_eq hplaced hlies hmarked {} { path }
    rw [Nat.zero_add, width, chars_markStrings] at hwalk
    dsimp only [Except.map, Except.mapError]
    rw [ok_bind, hwalk]
    cases hread : readNodes (markStrings xs) with
    | error e => rfl
    | ok nodes =>
      have hsorted := sortParts_gather hs (reads_of_readNodes hread) path
      exact congrArg Except.ok hsorted

/-- **Reading a style sheet by offsets meets no fault**, whatever its text is: it finds the style
sheet, or the error of a text that is broken.  The comments of a text are found as well. -/
theorem reading_meets_no_fault (path source : String) :
    (∀ f, parse path source ≠ .error (.fault f)) ∧
      parse path source = (Sheet.parse path source).mapError .broken ∧
      comments source.toList = .ok (Source.comments source.toList) := by
  refine ⟨fun f hf => ?_, parse_eq path source, comments_eq source.toList⟩
  rw [parse_eq] at hf
  cases hread : Sheet.parse path source with
  | error e =>
    rw [hread] at hf
    cases hf
  | ok s =>
    rw [hread] at hf
    cases hf

end Offsets
end SheetAudit
