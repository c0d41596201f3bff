import SheetAudit.Offsets.Text

/-!
# Comments by offsets

The ranges of the comments of a text are found by a scan of its bytes.  An escape in a string takes
two bytes along, which may end inside a character.

## Main definitions

* `Span` — the range of a comment.
* `commentSpans` — the ranges of all comments.
* `strip` — the text with every comment blanked out.
* `comments` — the comments of a text.
-/

namespace SheetAudit
namespace Offsets

open Source

/-! ### Searching -/

/-- The offset at which some bytes stand for the first time, counted from `offset`. -/
def findFrom (offset : Nat) (needle : List UInt8) : List UInt8 → Option Nat
  | [] => none
  | b :: bs =>
    if needle.isPrefixOf (b :: bs) then some offset else findFrom (offset + 1) needle bs

theorem le_of_findFrom {offset : Nat} {needle bs : List UInt8} {n : Nat}
    (h : findFrom offset needle bs = some n) : offset ≤ n := by
  induction bs generalizing offset with
  | nil => simp [findFrom] at h
  | cons b bs ih =>
    rw [findFrom] at h
    split at h
    · exact Nat.le_of_eq (Option.some.inj h)
    · exact Nat.le_of_succ_le (ih h)

/-- The first offset from `start` on at which some bytes stand. -/
def find? (bs : List UInt8) (start : Nat) (needle : List UInt8) : Option Nat :=
  findFrom start needle (bs.drop start)

/-- What is looked for from a byte on that does not begin it stands further on. -/
theorem lt_of_find?_getD {bs : List UInt8} {i : Nat} {b c : UInt8} (hb : bs[i]? = some b)
    (hne : b ≠ c) : i < (find? bs i [c]).getD bs.length := by
  obtain ⟨hi, rfl⟩ := List.getElem?_eq_some_iff.1 hb
  have hstarts : [c].isPrefixOf (bs[i] :: bs.drop (i + 1)) = false := by
    simpa [List.isPrefixOf] using Ne.symm hne
  rw [find?, List.drop_eq_getElem_cons hi, findFrom, if_neg (by rw [hstarts]; simp)]
  cases hf : findFrom (i + 1) [c] (bs.drop (i + 1)) with
  | none => exact hi
  | some n => exact le_of_findFrom hf

/-! ### The ranges of comments -/

/-- The range of a comment, its delimiters included. -/
structure Span where
  start : Nat
  stop : Nat
  /-- Written between two delimiters. -/
  block : Bool
  deriving Repr, DecidableEq

/-- Space, tab, newline, form feed or carriage return. -/
def isSpaceByte (b : UInt8) : Bool :=
  b == ' '.toUInt8 || b == '\t'.toUInt8 || b == '\n'.toUInt8 || b == '\x0c'.toUInt8 ||
    b == '\r'.toUInt8

def isQuoteByte (b : UInt8) : Bool := b == '"'.toUInt8 || b == '\''.toUInt8

/-- The ranges of the comments from the byte `i` on.  `quote` is the quote of the string being read,
if any; `code` tells whether the current line holds code already. -/
def commentSpansFrom (bs : List UInt8) (i : Nat) (quote : Option UInt8) (code : Bool) :
    Except Halt (List Span) :=
  if i < bs.length then
    match _hb : bs[i]? with
    | none => .error (.fault (.index i))
    | some b =>
      match quote with
      | some q =>
        if b == '\\'.toUInt8 then commentSpansFrom bs (i + 2) quote code
        else
          commentSpansFrom bs (i + 1) (if b == q || b == '\n'.toUInt8 then none else quote) code
      | none =>
        if isQuoteByte b then commentSpansFrom bs (i + 1) (some b) true
        else if b == '/'.toUInt8 && bs[i + 1]? == some '*'.toUInt8 then
          match _hf : find? bs (i + 2) ['*'.toUInt8, '/'.toUInt8] with
          | none => do throw (.broken (.unterminatedComment (← lineOf bs i)))
          | some stop => do
            return ⟨i, stop + 2, true⟩ :: (← commentSpansFrom bs (stop + 2) none code)
        else if b == '/'.toUInt8 && bs[i + 1]? == some '/'.toUInt8 && !code then do
          let stop := (find? bs i ['\n'.toUInt8]).getD bs.length
          return ⟨i, stop, false⟩ :: (← commentSpansFrom bs stop none code)
        else if b == '\n'.toUInt8 then commentSpansFrom bs (i + 1) none false
        else commentSpansFrom bs (i + 1) none (code || !isSpaceByte b)
  else .ok []
termination_by bs.length - i
decreasing_by
  · omega
  · omega
  · omega
  · have := le_of_findFrom _hf
    omega
  · next hslash =>
    have hne : b ≠ '\n'.toUInt8 := by
      rintro rfl
      simp [Char.toUInt8] at hslash
    have := lt_of_find?_getD _hb hne
    omega
  · omega
  · omega

/-- The ranges of the comments of a text; an error is the line of a block comment that is never
closed. -/
def commentSpans (bs : List UInt8) : Except Halt (List Span) := commentSpansFrom bs 0 none false

/-! ### Blanking comments -/

def blankByte (b : UInt8) : UInt8 := if b == '\n'.toUInt8 then b else ' '.toUInt8

/-- The bytes with spaces between two offsets; newlines stay. -/
def blankBytes (bs : List UInt8) (start stop : Nat) : Except Fault (List UInt8) :=
  if start ≤ min stop bs.length then
    .ok (bs.take start ++ ((bs.take (min stop bs.length)).drop start).map blankByte ++
      bs.drop (min stop bs.length))
  else .error (.range start stop)

/-- The bytes with spaces in all ranges. -/
def blankSpans (bs : List UInt8) (spans : List Span) : Except Fault (List UInt8) :=
  spans.foldlM (fun bs s => blankBytes bs s.start s.stop) bs

/-- The text with its comments blanked out. -/
def strip (source : List Char) : Except Halt (List Char) := do
  let spans ← commentSpans (encode source)
  decode (← blankSpans (encode source) spans)

/-! ### The comments of a text -/

/-- The comment in a range of a text. -/
def commentAt (source : List Char) (s : Span) : Except Fault Comment := do
  let inner ←
    if s.block then do slice source (s.start + 2) (← minus s.stop 2)
    else slice source (s.start + 2) s.stop
  return ⟨Text.trim inner, ← lineOf (encode source) s.start, s.block⟩

/-- The comments of a text in order; a text with an unclosed comment has none. -/
def comments (source : List Char) : Except Fault (List Comment) :=
  match commentSpans (encode source) with
  | .error (.fault f) => .error f
  | .error (.broken _) => .ok []
  | .ok spans => spans.mapM (commentAt source)

end Offsets
end SheetAudit
