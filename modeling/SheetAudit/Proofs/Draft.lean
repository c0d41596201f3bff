import SheetAudit.Proofs.Blank
import SheetAudit.Sheet.Reading

/-!
# Written style sheets

A style sheet as its author sees it: a tree of rules and media queries with declarations inside
the rules, written down with blanks and comments between the tokens.

## Main definitions

* `Filler`, `Gap` — what stands between two tokens.
* `Phrase`, `SelectorText`, `QueryText`, `PropertyName`, `VariableName` — the tokens with a text
  of their own; each carries the proof that it is well formed.
* `Item` — a declaration, a rule or a media query, with the gaps around its tokens.
* `Item.write` — the text of an item; comments are written out or blanked.
* `Draft` — a whole style sheet, with declarations inside rules only.
* `Draft.text` — how it is written.
-/

namespace SheetAudit
namespace Draft

open Text

/-! ### Gaps -/

/-- One blank, or one block comment. -/
inductive Filler where
  | blank (c : Char) (isSpace : isSpace c = true)
  | comment (text : List Char) (unclosed : ¬ ['*', '/'] <:+: text)

namespace Filler

/-- As it is written. -/
def written : Filler → List Char
  | blank c _ => [c]
  | comment text _ => '/' :: '*' :: (text ++ ['*', '/'])

/-- As many spaces as the character has bytes; a newline stays. -/
def spaces (c : Char) : List Char := if c == '\n' then [c] else List.replicate c.utf8Size ' '

/-- As it is left when comments make way for spaces. -/
def blanked (g : Filler) : List Char :=
  match g with
  | blank c _ => [c]
  | comment _ _ => g.written.flatMap spaces

end Filler

/-- What stands between two tokens. -/
abbrev Gap := List Filler

/-! ### Tokens -/

/-- Quotes, backslashes, slashes, braces and semicolons. -/
def isReserved (c : Char) : Bool :=
  c == '"' || c == '\'' || c == '\\' || c == '/' || c == '{' || c == '}' || c == ';'

/-- Parentheses and brackets are properly nested; `awaited` holds the closing ones that are still
to come, the next one first. -/
def nested (awaited : List Char) : List Char → Bool
  | [] => awaited.isEmpty
  | c :: cs =>
    if c == '(' then nested (')' :: awaited) cs
    else if c == '[' then nested (']' :: awaited) cs
    else if c == ')' || c == ']' then
      match awaited with
      | [] => false
      | d :: rest => c == d && nested rest cs
    else nested awaited cs

/-- A comma stands outside all parentheses and brackets; `depth` of these are open already. -/
def hasTopComma (depth : Nat) : List Char → Bool
  | [] => false
  | c :: cs =>
    (c == ',' && depth == 0) ||
      hasTopComma
        (if c == '(' || c == '[' then depth + 1
          else if c == ')' || c == ']' then depth - 1 else depth)
        cs

/-- The text of a value. -/
structure Phrase where
  chars : List Char
  ne_nil : chars ≠ []
  trimmed : trim chars = chars
  plain : ∀ c ∈ chars, isReserved c = false
  nested : nested [] chars = true

/-- The text of a media query. -/
structure QueryText extends Phrase where
  spaced : singleSpaced chars = true

/-- The text of one selector. -/
structure SelectorText extends Phrase where
  spaced : singleSpaced chars = true
  single : hasTopComma 0 chars = false
  noParent : '&' ∉ chars
  noAt : '@' ∉ chars

/-- Small letters, digits and hyphens, a letter first. -/
structure PropertyName where
  chars : List Char
  initial : ∃ c cs, chars = c :: cs ∧ isAlphabetic c = true
  plain : ∀ c ∈ chars, isAlphanumeric c = true ∨ c = '-'
  small : ∀ c ∈ chars, c.isUpper = false

/-- Two hyphens, then letters, digits, hyphens and underscores. -/
structure VariableName where
  suffix : List Char
  plain : ∀ c ∈ suffix, isAlphanumeric c = true ∨ c = '-' ∨ c = '_'

def VariableName.chars (n : VariableName) : List Char := '-' :: '-' :: n.suffix

inductive Name where
  | property (name : PropertyName)
  | variable (name : VariableName)

def Name.chars : Name → List Char
  | property n => n.chars
  | «variable» n => n.chars

/-- A token and the gaps on its two sides. -/
structure Spaced (α : Type) where
  before : Gap
  token : α
  after : Gap

/-- The text of a token with its gaps, which are written by `gap`. -/
def Spaced.write {α : Type} (gap : Filler → List Char) (chars : α → List Char) (s : Spaced α) :
    List Char :=
  s.before.flatMap gap ++ (chars s.token ++ s.after.flatMap gap)

/-! ### Trees -/

/-- A declaration, a rule or a media query. -/
inductive Item where
  | declaration (name : Spaced Name) (value : Spaced Phrase)
  /-- The selectors, the body and the gap before the closing brace. -/
  | rule (first : Spaced SelectorText) (others : List (Spaced SelectorText)) (body : List Item)
      (last : Gap)
  /-- The gap before the keyword, the query, the body and the gap before the closing brace. -/
  | media (before : Gap) (query : Spaced QueryText) (apart : query.before ≠ []) (body : List Item)
      (last : Gap)

/-- Further selectors of a list, each after a comma. -/
def writeOthers (gap : Filler → List Char) (others : List (Spaced SelectorText)) : List Char :=
  others.flatMap fun s => ',' :: s.write gap fun t => t.chars

/-- The prelude of a rule. -/
def writeSelectors (gap : Filler → List Char) (first : Spaced SelectorText)
    (others : List (Spaced SelectorText)) : List Char :=
  first.write gap (fun t => t.chars) ++ writeOthers gap others

/-- A declaration without its semicolon. -/
def writeDeclaration (gap : Filler → List Char) (name : Spaced Name) (value : Spaced Phrase) :
    List Char :=
  name.write gap Name.chars ++ ':' :: value.write gap Phrase.chars

/-- The prelude of a media query. -/
def writeQuery (gap : Filler → List Char) (before : Gap) (query : Spaced QueryText) : List Char :=
  before.flatMap gap ++ ("@media".toList ++ query.write gap fun t => t.chars)

mutual

/-- The text of an item, whose gaps are written by `gap`. -/
def Item.write (gap : Filler → List Char) : Item → List Char
  | .declaration name value => writeDeclaration gap name value ++ [';']
  | .rule first others body last =>
    writeSelectors gap first others ++ '{' :: (Item.writeAll gap body last ++ ['}'])
  | .media before query _ body last =>
    writeQuery gap before query ++ '{' :: (Item.writeAll gap body last ++ ['}'])

/-- The text of a body with the gap after its last item. -/
def Item.writeAll (gap : Filler → List Char) : List Item → (last : Gap) → List Char
  | [], last => last.flatMap gap
  | i :: is, last => i.write gap ++ Item.writeAll gap is last

end

mutual

/-- Declarations stand inside rules only; `inRule` tells whether the item stands in one. -/
def Item.placed (inRule : Bool) : Item → Bool
  | .declaration _ _ => inRule
  | .rule _ _ body _ => Item.placedAll true body
  | .media _ _ _ body _ => Item.placedAll inRule body

def Item.placedAll (inRule : Bool) : List Item → Bool
  | [] => true
  | i :: is => i.placed inRule && Item.placedAll inRule is

end

end Draft

/-- A style sheet as it is written. -/
structure Draft where
  items : List Draft.Item
  /-- What stands after the last item. -/
  last : Draft.Gap
  placed : Draft.Item.placedAll false items = true

namespace Draft

/-- How a style sheet is written. -/
def text (d : Draft) : String := String.ofList (Item.writeAll Filler.written d.items d.last)

end Draft
end SheetAudit
