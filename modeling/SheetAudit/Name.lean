import SheetAudit.Text.Blank
import SheetAudit.Text.Letter

/-!
# Canonical names

Names are canonical when they consist of small letters and digits in words that single hyphens
join.  A class name may add an element after two underscores and a modifier after two hyphens.

## Main definitions

* `isCanonical`, `isCanonicalClass`, `isCanonicalVariable` — the canonical names.
* `canonical` — the canonical form of any name.
-/

namespace SheetAudit
namespace Name

open Text

/-! ### Recognising canonical names -/

/-- Small letters and digits in words joined by single hyphens, and nothing else; `between` tells
that a word has to begin here. -/
def canonicalFrom (between : Bool) : List Char → Bool
  | [] => !between
  | c :: cs =>
    if c == '-' then !between && canonicalFrom true cs
    else isLowerAlnum c && canonicalFrom false cs

/-- Lowercase words separated by single hyphens. -/
def isCanonical (name : List Char) : Bool := canonicalFrom true name

/-- What follows the longest canonical name at the start of a text. -/
def afterCanonical? : List Char → Option (List Char)
  | [] => none
  | c :: cs =>
    if !isLowerAlnum c then none
    else
      match cs with
      | '-' :: d :: ds => if isLowerAlnum d then afterCanonical? (d :: ds) else some cs
      | d :: ds => if isLowerAlnum d then afterCanonical? (d :: ds) else some cs
      | [] => some []

/-- A modifier and nothing after it, or nothing at all. -/
def isModifier : List Char → Bool
  | [] => true
  | '-' :: '-' :: cs => isCanonical cs
  | _ => false

/-- A canonical name, then an element after two underscores and a modifier after two hyphens, each
of which may be missing. -/
def isCanonicalClass (name : List Char) : Bool :=
  match afterCanonical? name with
  | none => false
  | some ('_' :: '_' :: cs) =>
    match afterCanonical? cs with
    | none => false
    | some rest => isModifier rest
  | some rest => isModifier rest

/-- Two hyphens and a canonical name. -/
def isCanonicalVariable : List Char → Bool
  | '-' :: '-' :: cs => isCanonical cs
  | _ => false

/-! ### The canonical form -/

/-- Puts a hyphen where a capital follows a small letter or a digit, and one hyphen for every run
of hyphens, underscores and blanks.  `small` tells whether a small letter or a digit came right
before, `joined` whether the text is empty so far or ends with a hyphen. -/
def hyphenate (small joined : Bool) : List Char → List Char
  | [] => []
  | c :: cs =>
    if c.isUpper then
      if small then '-' :: c.toLower :: hyphenate false false cs
      else c.toLower :: hyphenate false false cs
    else if c == '_' || c == '-' || isBlank c then
      if joined then hyphenate false true cs else '-' :: hyphenate false true cs
    else c :: hyphenate (isLowerAlnum c) false cs

/-- The lowercase-hyphenated form of a name. -/
def canonical (name : List Char) : List Char := trimMatches (· == '-') (hyphenate false true name)

end Name
end SheetAudit
