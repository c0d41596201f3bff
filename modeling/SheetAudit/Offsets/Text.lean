import SheetAudit.Sheet.Tree

/-!
# Bytes and offsets

A style sheet can be read without cells: the text is a list of bytes, and every place in it is a
byte offset.  Such a reading may break down where a reading by cells cannot.  An index may lie
beyond the end, a range may cut a character in two, a count may fall below zero.

## Main definitions

* `Fault`, `Halt` — how a reading by offsets breaks down, and why it stops.
* `encode`, `size` — the bytes of a text and their number.
* `byteAt`, `slice`, `minus`, `decode` — one step of a reading, or the fault it breaks down with.
* `position` — the line and the column of an offset.
-/

namespace SheetAudit
namespace Offsets

/-- How a reading by offsets breaks down. -/
inductive Fault where
  /-- Nothing has this index. -/
  | index (i : Nat)
  /-- The range does not lie in the text, or cuts a character in two. -/
  | range (start stop : Nat)
  /-- A count falls below zero. -/
  | underflow
  /-- The bytes are not those of a text. -/
  | notText
  deriving Repr, DecidableEq

/-- Why a reading by offsets stops. -/
inductive Halt where
  | fault (f : Fault)
  | broken (e : ReadError)
  deriving Repr, DecidableEq

/-- A step that may break down is a step that may stop. -/
instance : MonadLift (Except Fault) (Except Halt) := ⟨fun r => r.mapError .fault⟩

theorem pure_eq_ok {ε α : Type} (a : α) : (pure a : Except ε α) = .ok a := rfl

theorem ok_bind {ε α β : Type} (a : α) (f : α → Except ε β) : Except.ok a >>= f = f a := rfl

theorem liftM_ok {α : Type} (a : α) :
    (liftM (Except.ok a : Except Fault α) : Except Halt α) = .ok a :=
  rfl

/-- A step that goes well goes well in both its halves. -/
theorem exists_of_bind_eq_ok {α β : Type} {x : Except Fault α} {f : α → Except Fault β} {b : β}
    (h : x >>= f = .ok b) : ∃ a, x = .ok a ∧ f a = .ok b := by
  cases x with
  | error e => cases h
  | ok a => exact ⟨a, rfl, h⟩

/-! ### Bytes -/

/-- The bytes of a text. -/
def encode (cs : List Char) : List UInt8 := cs.flatMap String.utf8EncodeChar

/-- The number of bytes of a text. -/
def size (cs : List Char) : Nat := (encode cs).length

@[simp] theorem encode_nil : encode [] = [] := rfl

@[simp] theorem encode_cons (c : Char) (cs : List Char) :
    encode (c :: cs) = String.utf8EncodeChar c ++ encode cs := rfl

@[simp] theorem encode_append (cs ds : List Char) : encode (cs ++ ds) = encode cs ++ encode ds :=
  List.flatMap_append

@[simp] theorem size_nil : size [] = 0 := rfl

@[simp] theorem size_cons (c : Char) (cs : List Char) : size (c :: cs) = c.utf8Size + size cs := by
  simp [size]

@[simp] theorem size_append (cs ds : List Char) : size (cs ++ ds) = size cs + size ds := by
  simp [size]

def byteAt (bs : List UInt8) (i : Nat) : Except Fault UInt8 :=
  match bs[i]? with
  | some b => .ok b
  | none => .error (.index i)

/-- The difference of two counts. -/
def minus (m n : Nat) : Except Fault Nat := if n ≤ m then .ok (m - n) else .error .underflow

/-- The text that the bytes are those of. -/
def decode (bs : List UInt8) : Except Fault (List Char) :=
  match bs.toByteArray.utf8Decode? with
  | some cs => .ok cs.toList
  | none => .error .notText

/-! ### Ranges of a text -/

/-- The text from an offset on, if a character begins there or the text ends there. -/
def dropBytes? : Nat → List Char → Option (List Char)
  | 0, cs => some cs
  | _ + 1, [] => none
  | n + 1, c :: cs => if n + 1 < c.utf8Size then none else dropBytes? (n + 1 - c.utf8Size) cs

/-- The text up to an offset, if a character begins there or the text ends there. -/
def takeBytes? : Nat → List Char → Option (List Char)
  | 0, _ => some []
  | _ + 1, [] => none
  | n + 1, c :: cs =>
    if n + 1 < c.utf8Size then none else (takeBytes? (n + 1 - c.utf8Size) cs).map (c :: ·)

/-- The text between two offsets. -/
def slice (text : List Char) (start stop : Nat) : Except Fault (List Char) :=
  if start ≤ stop then
    match (dropBytes? start text).bind (takeBytes? (stop - start)) with
    | some cs => .ok cs
    | none => .error (.range start stop)
  else .error (.range start stop)

theorem size_of_takeBytes? {n : Nat} {cs ds : List Char} (h : takeBytes? n cs = some ds) :
    size ds = n := by
  fun_induction takeBytes? n cs generalizing ds with
  | case1 =>
    obtain rfl := Option.some.inj h
    rfl
  | case2 => cases h
  | case3 => cases h
  | case4 n c cs hn ih =>
    obtain ⟨es, hes, rfl⟩ := Option.map_eq_some_iff.1 h
    rw [size_cons, ih hes]
    omega

theorem size_of_slice {text cs : List Char} {start stop : Nat}
    (h : slice text start stop = .ok cs) : start + size cs = stop := by
  rw [slice] at h
  split at h
  · split at h
    · next heq =>
      obtain ⟨rest, -, htake⟩ := Option.bind_eq_some_iff.1 heq
      obtain rfl := Except.ok.inj h
      rw [size_of_takeBytes? htake]
      omega
    · cases h
  · cases h

/-- The bytes before an offset. -/
def bytesBefore (bs : List UInt8) (offset : Nat) : Except Fault (List UInt8) :=
  if offset ≤ bs.length then .ok (bs.take offset) else .error (.range 0 offset)

/-- The line of an offset; offsets beyond the end lie on the last line. -/
def lineOf (bs : List UInt8) (offset : Nat) : Except Fault Nat := do
  return (← bytesBefore bs (min offset bs.length)).count '\n'.toUInt8 + 1

/-! ### Lines and columns -/

/-- Where lines begin that end in bytes from an offset on. -/
def lineStartsFrom (offset : Nat) : List UInt8 → List Nat
  | [] => []
  | b :: bs =>
    if b == '\n'.toUInt8 then (offset + 1) :: lineStartsFrom (offset + 1) bs
    else lineStartsFrom (offset + 1) bs

/-- The offsets at which the lines of a text begin. -/
def lineStarts (bs : List UInt8) : List Nat := 0 :: lineStartsFrom 0 bs

/-- The line and the column of an offset.  Columns count characters, or bytes where the offset cuts
a character in two or lies beyond the end. -/
def position (source : List Char) (offset : Nat) : Except Fault Pos :=
  let starts := lineStarts (encode source)
  let line := (starts.takeWhile (· ≤ offset)).length - 1
  match starts[line]? with
  | none => .error (.index line)
  | some start => do
    let bytes ← minus offset start
    let column :=
      match slice source start offset with
      | .ok text => text.length
      | .error _ => bytes
    return ⟨line + 1, column + 1⟩

end Offsets
end SheetAudit
