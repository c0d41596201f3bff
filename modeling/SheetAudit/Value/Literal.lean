import SheetAudit.Color.Named
import SheetAudit.Property
import SheetAudit.Value.Number

/-!
# Literal colors and easings

Colors and easings that a value spells out instead of referring to a property.

## Main definitions

* `identifiers` — the words of a value; a word right before a parenthesis is a function name.
* `easings` — the easing keywords and easing functions of a value.
* `colors` — the hex colors, the color functions and the named colors of a value, in this order.
* `isColor` — the value is one literal color.
-/

namespace SheetAudit
namespace Value

open Text

/-! ### Words -/

structure Identifier where
  name : String
  function : Bool
  deriving Repr, DecidableEq

def isIdentifierStart (c : Char) : Bool := c.isAlpha || c == '_'

def isIdentifierChar (c : Char) : Bool := c.isAlphanum || c == '_' || c == '-'

/-- An identifier whose first characters, given backwards, have been read, and what follows it. -/
def finishIdentifier (start rest : List Char) : Identifier × List Char :=
  let name := String.ofList (lowerAscii (start ++ rest.takeWhile isIdentifierChar))
  match rest.dropWhile isIdentifierChar with
  | '(' :: after => (⟨name, true⟩, after)
  | after => (⟨name, false⟩, after)

theorem length_finishIdentifier (start rest : List Char) :
    (finishIdentifier start rest).2.length ≤ rest.length := by
  have h := (List.dropWhile_sublist isIdentifierChar (l := rest)).length_le
  unfold finishIdentifier
  split
  · next after heq =>
    rw [heq] at h
    simp only [List.length_cons] at h
    simp only
    omega
  · exact h

/-- The identifiers of a text in small letters, each with at most one hyphen in front. -/
def identifiers (cs : List Char) : List Identifier :=
  match cs with
  | [] => []
  | c :: rest =>
    if isIdentifierStart c then
      (finishIdentifier [c] rest).1 :: identifiers (finishIdentifier [c] rest).2
    else
      match rest with
      | d :: ds =>
        if c == '-' && isIdentifierStart d then
          (finishIdentifier [c, d] ds).1 :: identifiers (finishIdentifier [c, d] ds).2
        else identifiers (d :: ds)
      | [] => []
termination_by cs.length
decreasing_by
  all_goals simp_wf
  · have := length_finishIdentifier [c] rest; omega
  · have := length_finishIdentifier [c, d] ds; omega

/-- The easing keywords and easing functions of a value. -/
def easings (value : List Char) : List String :=
  ((identifiers (literalPart value)).filter fun i =>
    if i.function then Property.easingFunctions.contains i.name
    else Property.easingKeywords.contains i.name).map (·.name)

/-! ### Addresses and color functions -/

/-- What follows `url(...)` at the start of a text. -/
def afterAddress? (cs : List Char) : Option (List Char) :=
  (dropAscii? "url(".toList cs).bind fun rest =>
    match rest.dropWhile (· != ')') with
    | [] => none
    | _ :: after => some after

theorem length_afterAddress? {cs after : List Char} (h : afterAddress? cs = some after) :
    after.length < cs.length := by
  obtain ⟨rest, hr, h⟩ := Option.bind_eq_some_iff.1 h
  have h₁ := length_dropAscii? hr
  have h₂ := (List.dropWhile_sublist (· != ')') (l := rest)).length_le
  split at h
  · simp at h
  · next heq =>
    obtain rfl := Option.some.inj h
    rw [heq] at h₂
    simp only [List.length_cons] at h₂
    omega

/-- The text with one space in place of every address. -/
def blankAddresses (cs : List Char) : List Char :=
  match cs with
  | [] => []
  | c :: tail =>
    match _h : afterAddress? (c :: tail) with
    | some after => ' ' :: blankAddresses after
    | none => c :: blankAddresses tail
termination_by cs.length
decreasing_by
  · exact length_afterAddress? _h
  · simp

/-- The name of the color function that begins right here, its parenthesis read. -/
def colorFunction? (cs : List Char) : Option String :=
  let named (word : List Char) : Option String :=
    (dropFolded? word cs).bind fun rest =>
      let after := (dropFolded? ['a'] rest).getD rest
      match after.dropWhile isBlank with
      | '(' :: _ => some (String.ofList (lowerAscii (cs.take (cs.length - after.length))))
      | _ => none
  (named "rgb".toList).orElse fun _ => named "hsl".toList

/-- The color functions of a text; `inWord` tells whether the character before is part of a
word, in which case no function name begins here. -/
def colorFunctionsFrom (inWord : Bool) : List Char → List String
  | [] => []
  | c :: cs =>
    let found := if inWord then none else colorFunction? (c :: cs)
    found.toList ++ colorFunctionsFrom (isWordChar c) cs

/-- The hex colors of a text. -/
def hexColors (cs : List Char) : List String :=
  (cutHex cs).filterMap fun
    | .inl _ => none
    | .inr hex => some (String.ofList hex)

/-- The named colors of a text, apart from the keywords that are allowed for colors. -/
def namedColors (cs : List Char) : List String :=
  ((identifiers cs).filter fun i =>
    !i.function && !Property.allowedColorKeywords.contains i.name &&
      (Color.named? i.name.toList).isSome).map (·.name)

/-- The literal colors of a value: hex colors, color functions, named colors. -/
def colors (value : List Char) : List String :=
  let text := blankAddresses (literalPart value)
  hexColors text ++ colorFunctionsFrom false text ++ namedColors (blankHex text)

/-- The value is one literal color. -/
def isColor (value : List Char) : Bool :=
  let text := lowerAscii (trim (dropImportant value))
  if text.isEmpty || (reference? text).isSome then false
  else
    (takeHex? text).any (·.2.isEmpty) ||
      ((colorFunction? text).isSome && text.getLast? == some ')') ||
        (Color.named? text).isSome

end Value
end SheetAudit
