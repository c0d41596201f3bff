/-!
# Finding and replacing

Plain searches of one text in another, and the ASCII lower-case form under which most of
them are made.

## Main definitions

* `lowerAscii` — capitals `A` to `Z` become small, all else stays.
* `splitBy?`, `splitAt?`, `splitAscii?` — the text before and after the first place where a
  pattern stands, exactly or up to ASCII case.
* `contains`, `replaceFirst` — by first occurrence.
-/

namespace SheetAudit
namespace Text

/-! ### ASCII case -/

/-- Capitals `A` to `Z` become small; all other characters stay. -/
def lowerAscii (cs : List Char) : List Char := cs.map Char.toLower

def asciiLower (s : String) : String := String.ofList (lowerAscii s.toList)

/-- Equal up to the case of ASCII letters. -/
def sameAscii (s t : List Char) : Bool := lowerAscii s == lowerAscii t

/-- What follows `word`, which is in small letters, at the start of a text, up to ASCII case. -/
def dropAscii? : (word text : List Char) → Option (List Char)
  | [], text => some text
  | _ :: _, [] => none
  | w :: word, c :: text => if c.toLower == w then dropAscii? word text else none

theorem length_dropAscii? {word text rest : List Char} (h : dropAscii? word text = some rest) :
    rest.length + word.length = text.length := by
  fun_induction dropAscii? word text with
  | case1 => simp_all
  | case2 => simp at h
  | case3 w word c text _ ih => simp only [List.length_cons]; have := ih h; omega
  | case4 => simp at h

/-! ### Searching -/

/-- The text before the first place where `drop?` succeeds, and what it leaves there. -/
def splitBy? (drop? : List Char → Option (List Char)) : List Char → Option (List Char × List Char)
  | [] => (drop? []).map fun rest => ([], rest)
  | c :: cs =>
    match drop? (c :: cs) with
    | some rest => some ([], rest)
    | none => (splitBy? drop? cs).map fun r => (c :: r.1, r.2)

/-- The text before the first occurrence of `pattern`, and the text after it. -/
def splitAt? (pattern text : List Char) : Option (List Char × List Char) :=
  splitBy? pattern.isPrefixOf? text

/-- The same up to ASCII case, for a pattern in small letters. -/
def splitAscii? (pattern text : List Char) : Option (List Char × List Char) :=
  splitBy? (dropAscii? pattern) text

def contains (pattern text : List Char) : Bool := (splitAt? pattern text).isSome

/-- `t` occurs in `s`. -/
def includes (s t : String) : Bool := contains t.toList s.toList

/-- The first occurrence of `pattern`, if any, becomes `image`. -/
def replaceFirst (pattern image text : List Char) : List Char :=
  match splitAt? pattern text with
  | some (before, after) => before ++ image ++ after
  | none => text

/-- Every occurrence of the character becomes the given text. -/
def replaceChar (c : Char) (image : List Char) (text : List Char) : List Char :=
  text.flatMap fun d => if d == c then image else [d]

end Text
end SheetAudit
