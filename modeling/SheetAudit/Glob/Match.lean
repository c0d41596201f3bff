import SheetAudit.Glob.Pattern
import SheetAudit.Repeats

/-!
# Matching glob patterns

A pattern is matched against the bytes of a path.  Tokens are taken away from the path one after the
other, in every way that is possible.

## Main definitions

* `Glob` — a pattern with the choice whether wildcards pass over slashes.
* `Glob.leave` — what tokens may leave of a text.
* `Glob.covers` — the pattern matches a path from end to end.
-/

namespace SheetAudit

structure Glob where
  tokens : List Glob.Token
  /-- Wildcards stop at slashes. -/
  stopsAtSlash : Bool
  deriving Repr

namespace Glob

def slash : UInt8 := 0x2f

/-! ### Single bytes -/

def bytesOf (c : Char) : List UInt8 := String.utf8EncodeChar c

def bytes (cs : List Char) : List UInt8 := cs.flatMap bytesOf

/-- The bytes that a range of characters allows: those between the last byte of its first character
and the first byte of its last, and all other bytes of the two. -/
def byteRanges (r : Char × Char) : List (UInt8 × UInt8) :=
  let single (b : UInt8) : UInt8 × UInt8 := (b, b)
  let low := bytesOf r.1
  let high := bytesOf r.2
  if r.1 == r.2 then low.map single
  else
    low.dropLast.map single ++
      (low.getLast?.bind fun a => high.head?.map fun b => (a, b)).toList ++
      (high.drop 1).map single

def inClass (negated : Bool) (ranges : List (Char × Char)) (b : UInt8) : Bool :=
  ((ranges.flatMap byteRanges).any fun (low, high) => low ≤ b && b ≤ high) != negated

/-! ### What tokens leave -/

/-- The text after a run of bytes, of any length; if `stops`, there is no slash in the run. -/
def afterRun (stops : Bool) : List UInt8 → List (List UInt8)
  | [] => [[]]
  | b :: bs => (b :: bs) :: if stops && b == slash then [] else afterRun stops bs

/-- The text after each slash. -/
def afterSlashes : List UInt8 → List (List UInt8)
  | [] => []
  | b :: bs => if b == slash then bs :: afterSlashes bs else afterSlashes bs

/-- Every text once; texts of one length are the same, since all are what is left of one text. -/
def distinct (texts : List (List UInt8)) : List (List UInt8) := Repeats.firsts List.length texts

mutual

/-- The token stands for nothing at all. -/
def Token.isVoid : Token → Bool
  | .alternatives branches => allVoid branches
  | _ => false

def areVoid : List Token → Bool
  | [] => true
  | t :: ts => t.isVoid && areVoid ts

def allVoid : List (List Token) → Bool
  | [] => true
  | branch :: branches => areVoid branch && allVoid branches

end

mutual

/-- What a token may leave of a text. -/
def Token.leave (stops : Bool) : Token → List UInt8 → List (List UInt8)
  | .literal c, s => ((bytesOf c).isPrefixOf? s).toList
  | .any, s =>
    match s with
    | b :: bs => if stops && b == slash then [] else [bs]
    | [] => []
  | .run, s => afterRun stops s
  | .leading, s => s :: afterSlashes s
  | .between, s =>
    match s with
    | b :: bs => if b == slash then bs :: afterSlashes bs else []
    | [] => []
  | .trailing, s =>
    match s with
    | b :: bs => if b == slash then afterRun false bs else []
    | [] => []
  | .oneOf negated ranges, s =>
    match s with
    | b :: bs => if inClass negated ranges b then [bs] else []
    | [] => []
  | .alternatives branches, s => if allVoid branches then [s] else leaveBranches stops branches s

/-- What tokens may leave of texts, one after the other. -/
def leave (stops : Bool) : List Token → List (List UInt8) → List (List UInt8)
  | [], texts => texts
  | t :: ts, texts => leave stops ts (distinct (texts.flatMap (t.leave stops)))

/-- What a branch may leave of a text; branches that stand for nothing do not count. -/
def leaveBranches (stops : Bool) : List (List Token) → List UInt8 → List (List UInt8)
  | [], _ => []
  | branch :: branches, s =>
    (if areVoid branch then [] else leave stops branch [s]) ++ leaveBranches stops branches s

end

/-! ### Whole paths -/

/-- The pattern is nothing but two stars. -/
def coversAll (g : Glob) : Bool :=
  match g.tokens with
  | [.leading] => true
  | _ => false

/-- The pattern matches a path from end to end. -/
def covers (g : Glob) (path : List Char) : Bool :=
  g.coversAll || (leave g.stopsAtSlash g.tokens [bytes path]).any (·.isEmpty)

end Glob
end SheetAudit
