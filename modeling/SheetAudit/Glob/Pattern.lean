/-!
# Glob patterns

A glob pattern is matched against a path.  `?` stands for one byte, `*` for any number of bytes,
`[…]` for one byte of a class, `{…,…}` for one of several patterns, and `**` between slashes for any
number of directories.  A backslash takes away the meaning of the character after it.

## Main definitions

* `Token` — what a pattern is made of.
* `takeClass` — a class whose opening bracket has been read.
* `Pattern.parse?` — the tokens of a pattern, if it is one.
-/

namespace SheetAudit
namespace Glob

inductive Token where
  | literal (c : Char)
  /-- One byte. -/
  | any
  /-- Any number of bytes. -/
  | run
  /-- Any number of directories at the beginning of a path. -/
  | leading
  /-- Any number of directories between two others. -/
  | between
  /-- All that a directory holds. -/
  | trailing
  /-- One byte inside the ranges, or outside of them. -/
  | oneOf (negated : Bool) (ranges : List (Char × Char))
  | alternatives (branches : List (List Token))
  deriving Repr

/-! ### Classes -/

/-- What the text after an opening bracket is. -/
inductive ClassText where
  | closed (ranges : List (Char × Char)) (rest : List Char)
  | unclosed
  /-- A range ends before it begins. -/
  | badRange

/-- The ranges with `c` as the end of the last one, which is the first in the list. -/
def endRange? (c : Char) : List (Char × Char) → Option (List (Char × Char))
  | (a, _) :: ranges => if c < a then none else some ((a, c) :: ranges)
  | [] => none

/-- `first` tells that nothing has been read yet, `waiting` that the last range waits for its end;
`ranges` holds the ranges, last first. -/
def takeClassFrom (first waiting : Bool) (ranges : List (Char × Char)) : List Char → ClassText
  | [] => .unclosed
  | c :: cs =>
    if c == ']' && !first then
      .closed (if waiting then ('-', '-') :: ranges else ranges).reverse cs
    else if c == '-' && !first && !waiting then takeClassFrom false true ranges cs
    else if waiting then
      match endRange? c ranges with
      | some ranges => takeClassFrom false false ranges cs
      | none => .badRange
    else takeClassFrom false false ((c, c) :: ranges) cs

/-- The class whose opening bracket has been read: whether it is negated, and its ranges. -/
def takeClass : List Char → Bool × ClassText
  | '!' :: cs => (true, takeClassFrom true false [] cs)
  | '^' :: cs => (true, takeClassFrom true false [] cs)
  | cs => (false, takeClassFrom true false [] cs)

theorem length_of_takeClassFrom {first waiting : Bool} {ranges result : List (Char × Char)}
    {cs rest : List Char} (h : takeClassFrom first waiting ranges cs = .closed result rest) :
    rest.length < cs.length := by
  fun_induction takeClassFrom first waiting ranges cs with
  | case1 => simp at h
  | case2 => simp only [ClassText.closed.injEq] at h; simp [h.2]
  | case3 _ _ _ _ _ _ _ ih => exact Nat.lt_succ_of_lt (ih h)
  | case4 _ _ _ _ _ _ _ _ ih => exact Nat.lt_succ_of_lt (ih h)
  | case5 => simp at h
  | case6 _ _ _ _ _ _ _ _ ih => exact Nat.lt_succ_of_lt (ih h)

theorem length_of_takeClass {negated : Bool} {ranges : List (Char × Char)} {cs rest : List Char}
    (h : takeClass cs = (negated, .closed ranges rest)) : rest.length < cs.length := by
  unfold takeClass at h
  split at h
  · exact Nat.lt_succ_of_lt (length_of_takeClassFrom (Prod.mk.inj h).2)
  · exact Nat.lt_succ_of_lt (length_of_takeClassFrom (Prod.mk.inj h).2)
  · exact length_of_takeClassFrom (Prod.mk.inj h).2

/-! ### Patterns -/

/-- A brace that is open: the tokens before it and the branches that are complete, all last
first. -/
structure Frame where
  before : List Token
  branches : List (List Token)

/-- Where a pattern has been read to: the braces that are open, innermost first, and the tokens of
the current branch, last first. -/
structure State where
  frames : List Frame
  tokens : List Token

namespace State

def push (s : State) (t : Token) : State := { s with tokens := t :: s.tokens }

def openBrace (s : State) : State := ⟨⟨s.tokens, []⟩ :: s.frames, []⟩

/-- A comma outside braces means nothing. -/
def comma (s : State) : State :=
  match s.frames with
  | [] => s.push (.literal ',')
  | f :: fs => ⟨{ f with branches := s.tokens.reverse :: f.branches } :: fs, []⟩

def closeBrace? (s : State) : Option State :=
  match s.frames with
  | [] => none
  | f :: fs =>
    some ⟨fs, .alternatives (s.tokens.reverse :: f.branches).reverse :: f.before⟩

/-- Two stars that do not stand for directories. -/
def runs (s : State) : State := (s.push .run).push .run

/-- The token for directories in place of the slash before the stars; several such tokens are one. -/
def directories (s : State) (atEnd : Bool) : State :=
  match s.tokens with
  | .leading :: _ => s
  | .trailing :: _ => s
  | _ :: tokens => { s with tokens := (if atEnd then .trailing else .between) :: tokens }
  | [] => s

/-- Two stars, with the character before them and the text after them: the text that is left, and
whether a slash has been read with the stars. -/
def twoStars (s : State) (previous : Option Char) (rest : List Char) : State × List Char × Bool :=
  if s.tokens.isEmpty then
    match rest with
    | [] => (s.push .leading, [], false)
    | '/' :: after => (s.push .leading, after, true)
    | _ => (s.runs, rest, false)
  else if previous != some '/' &&
      (s.frames.isEmpty || (previous != some ',' && previous != some '{')) then
    (s.runs, rest, false)
  else
    match rest with
    | [] => (s.directories true, [], false)
    | '/' :: after => (s.directories false, after, true)
    | c :: _ =>
      if (c == ',' || c == '}') && !s.frames.isEmpty then (s.directories true, rest, false)
      else (s.runs, rest, false)

theorem length_twoStars (s : State) (previous : Option Char) (rest : List Char) :
    (s.twoStars previous rest).2.1.length ≤ rest.length := by
  unfold twoStars
  split
  · split <;> simp
  · split
    · simp
    · split
      · simp
      · simp
      · split <;> simp

end State

/-- `literalBrackets` tells that a bracket was met that is never closed, after which brackets mean
nothing; `lenient` allows that.  `previous` is the character before. -/
def parseFrom (lenient literalBrackets : Bool) (s : State) (previous : Option Char) :
    List Char → Option State
  | [] => some s
  | c :: cs =>
    if c == '?' then parseFrom lenient literalBrackets (s.push .any) (some c) cs
    else if c == '*' then
      match cs with
      | '*' :: rest =>
        let r := s.twoStars previous rest
        parseFrom lenient literalBrackets r.1 (some (if r.2.2 then '/' else '*')) r.2.1
      | rest => parseFrom lenient literalBrackets (s.push .run) (some c) rest
    else if c == '[' && !literalBrackets then
      match _h : takeClass cs with
      | (negated, .closed ranges rest) =>
        parseFrom lenient literalBrackets (s.push (.oneOf negated ranges)) (some ']') rest
      | (_, .unclosed) =>
        if lenient then parseFrom lenient true (s.push (.literal c)) (some c) cs else none
      | (_, .badRange) => none
    else if c == '{' then parseFrom lenient literalBrackets s.openBrace (some c) cs
    else if c == '}' then
      match s.closeBrace? with
      | some s => parseFrom lenient literalBrackets s (some c) cs
      | none => none
    else if c == ',' then parseFrom lenient literalBrackets s.comma (some c) cs
    else if c == '\\' then
      match cs with
      | d :: rest => parseFrom lenient literalBrackets (s.push (.literal d)) (some d) rest
      | [] => none
    else parseFrom lenient literalBrackets (s.push (.literal c)) (some c) cs
termination_by cs => cs.length
decreasing_by
  all_goals simp only [List.length_cons]
  · omega
  · have := State.length_twoStars s previous rest; omega
  · omega
  · have := length_of_takeClass _h; omega
  · omega
  · omega
  · omega
  · omega
  · omega
  · omega

/-- The tokens of a pattern.  If `lenient`, a bracket that is never closed stands for itself. -/
def parse? (lenient : Bool) (pattern : List Char) : Option (List Token) :=
  match parseFrom lenient false ⟨[], []⟩ none pattern with
  | some ⟨[], tokens⟩ => some tokens.reverse
  | _ => none

end Glob
end SheetAudit
