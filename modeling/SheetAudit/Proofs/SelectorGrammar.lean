import Mathlib.Data.Prod.Lex
import SheetAudit.Proofs.Respacing
import SheetAudit.Selector.Compound

/-!
# The grammar of selectors

Selectors as trees, with the text that each is written as and the weight that it has.  Every blank
that may stand between combinators is part of the tree, so that a tree stands for one text.

## Main definitions

* `Weight` — weights with their sum and their lexicographic order.
* `Ident`, `Plain`, `Attribute`, `Combinator` — the parts of a selector that hold no selectors.
* `Simple`, `Compound`, `Complex` — selectors, nested through the arguments of pseudo-classes.
* `Simple.write`, `Compound.write`, `Complex.write` — the text of a selector.
* `Simple.weight`, `Compound.weight`, `Complex.weight` — its ids, its classes and its elements.
-/

namespace SheetAudit
namespace Selector

open Text

/-! ### Weights -/

namespace Weight

/-- A weight for comparison: ids count before classes, and these before elements. -/
def key (w : Weight) : ℕ ×ₗ ℕ ×ₗ ℕ := toLex (w.ids, toLex (w.classes, w.elements))

theorem key_injective : Function.Injective key := fun _ _ h =>
  congrArg (fun k : ℕ ×ₗ ℕ ×ₗ ℕ =>
    (⟨(ofLex k).1, (ofLex (ofLex k).2).1, (ofLex (ofLex k).2).2⟩ : Weight)) h

instance : LinearOrder Weight := LinearOrder.lift' key key_injective

instance : Zero Weight := ⟨{}⟩

theorem add_eq (v w : Weight) :
    v + w = ⟨v.ids + w.ids, v.classes + w.classes, v.elements + w.elements⟩ := rfl

theorem zero_eq : (0 : Weight) = {} := rfl

theorem zero_add (w : Weight) : 0 + w = w := by
  simp [add_eq, zero_eq]

theorem add_zero (w : Weight) : w + 0 = w := by
  simp [add_eq, zero_eq]

theorem add_assoc (u v w : Weight) : u + v + w = u + (v + w) := by
  simp [add_eq, Nat.add_assoc]

theorem lt_iff_lex {v w : Weight} :
    v < w ↔ v.ids < w.ids ∨ v.ids = w.ids ∧
      (v.classes < w.classes ∨ v.classes = w.classes ∧ v.elements < w.elements) :=
  Prod.Lex.toLex_lt_toLex.trans (or_congr_right (and_congr_right' Prod.Lex.toLex_lt_toLex))

theorem lt_eq_true_iff {v w : Weight} : v.lt w = true ↔ v < w := by
  rw [lt_iff_lex, lt]
  simp

end Weight

/-- The heavier of two weights is the greater one. -/
theorem Weight.max_eq (v w : Weight) : v.max w = Max.max v w := by
  rw [Weight.max, max_def_lt]
  exact if_congr Weight.lt_eq_true_iff rfl rfl

theorem Weight.zero_le (w : Weight) : 0 ≤ w := by
  refine not_lt.1 fun h => ?_
  rw [Weight.lt_iff_lex] at h
  simp [Weight.zero_eq] at h

/-! ### The parts of a selector -/

/-- An identifier: a letter, then letters, digits, hyphens and underscores. -/
structure Ident where
  first : Char
  others : List Char
  isLetter : first.isAlpha = true
  isName : ∀ c ∈ others, isNameChar c = true

namespace Ident

def chars (n : Ident) : List Char := n.first :: n.others

/-- The identifier in small letters. -/
def word (n : Ident) : String := String.ofList (lowerAscii n.chars)

end Ident

/-- A text without quotes and brackets. -/
structure Plain where
  chars : List Char
  isPlain : ∀ c ∈ chars, isPlain true c = true

/-- Blank space. -/
structure Blanks where
  chars : List Char
  isBlank : ∀ c ∈ chars, isBlank c = true

/-- What stands between the brackets of an attribute. -/
inductive Attribute where
  /-- A name, maybe with a value that is not quoted. -/
  | bare (text : Plain)
  /-- A name with an operator, a quoted value, and what stands behind it. -/
  | quoted (name : Plain) (quote : Char) (isQuote : isQuote quote = true) (value : Plain)
    (flags : Plain)

def Attribute.chars : Attribute → List Char
  | bare text => text.chars
  | quoted name q _ value flags => name.chars ++ q :: (value.chars ++ q :: flags.chars)

/-- What joins two compounds. -/
inductive Combinator where
  | descendant (gap : Blanks) (ne_nil : gap.chars ≠ [])
  | sign (before : Blanks) (c : Char) (isSign : c = '>' ∨ c = '+' ∨ c = '~') (after : Blanks)

def Combinator.chars : Combinator → List Char
  | descendant gap _ => gap.chars
  | sign before c _ after => before.chars ++ c :: after.chars

/-- The name of an element, or the star that stands for any. -/
inductive TypeName where
  | named (name : Ident)
  | any

/-! ### Selectors -/

/-- The pseudo-elements that may be written with one colon. -/
def elementWords : List String := ["before", "after", "first-line", "first-letter"]

/-- The pseudo-classes that weigh as much as their heaviest argument. -/
def forwardingWords : List String := ["not", "is", "has", "matches"]

mutual

inductive Simple where
  | id (name : Ident)
  | cls (name : Ident)
  | attr (body : Attribute)
  | pseudoClass (name : Ident) (ordinary : name.word ∉ "where" :: elementWords ++ forwardingWords)
    (argument : Option Plain)
  | pseudoElement (name : Ident)
  /-- A pseudo-element with one colon. -/
  | legacyElement (name : Ident) (legacy : name.word ∈ elementWords)
  | forwarding (name : Ident) (forwards : name.word ∈ forwardingWords) (arguments : List Complex)
  | weightless (name : Ident) (isWhere : name.word = "where") (arguments : List Complex)

/-- Simple selectors behind a type name, if any.  A compound may be empty, so that a selector may
begin with a combinator, as arguments do. -/
inductive Compound where
  | mk (type : Option TypeName) (simples : List Simple)

inductive Complex where
  | last (compound : Compound)
  | join (compound : Compound) (combinator : Combinator) (rest : Complex)

end

/-! ### The text of a selector -/

def TypeName.write : TypeName → List Char
  | named name => name.chars
  | any => ['*']

/-- A pseudo-class with what stands between its parentheses. -/
def call (name : Ident) (inner : List Char) : List Char :=
  ':' :: (name.chars ++ '(' :: (inner ++ [')']))

mutual

def Simple.write : Simple → List Char
  | .id name => '#' :: name.chars
  | .cls name => '.' :: name.chars
  | .attr body => '[' :: (body.chars ++ [']'])
  | .pseudoClass name _ none => ':' :: name.chars
  | .pseudoClass name _ (some argument) => call name argument.chars
  | .pseudoElement name => ':' :: ':' :: name.chars
  | .legacyElement name _ => ':' :: name.chars
  | .forwarding name _ arguments => call name (writeList arguments)
  | .weightless name _ arguments => call name (writeList arguments)

def writeSimples : List Simple → List Char
  | [] => []
  | simple :: simples => simple.write ++ writeSimples simples

def Compound.write : Compound → List Char
  | .mk none simples => writeSimples simples
  | .mk (some type) simples => type.write ++ writeSimples simples

def Complex.write : Complex → List Char
  | .last compound => compound.write
  | .join compound combinator rest => compound.write ++ (combinator.chars ++ rest.write)

/-- Selectors with commas between them. -/
def writeList : List Complex → List Char
  | [] => []
  | [selector] => selector.write
  | selector :: next :: more => selector.write ++ ',' :: writeList (next :: more)

end

/-! ### The weight of a selector -/

def TypeName.weight : TypeName → Weight
  | named _ => ⟨0, 0, 1⟩
  | any => 0

mutual

def Simple.weight : Simple → Weight
  | .id _ => ⟨1, 0, 0⟩
  | .cls _ => ⟨0, 1, 0⟩
  | .attr _ => ⟨0, 1, 0⟩
  | .pseudoClass _ _ _ => ⟨0, 1, 0⟩
  | .pseudoElement _ => ⟨0, 0, 1⟩
  | .legacyElement _ _ => ⟨0, 0, 1⟩
  | .forwarding _ _ arguments => heaviest arguments
  | .weightless _ _ _ => 0

def weightSimples : List Simple → Weight
  | [] => 0
  | simple :: simples => simple.weight + weightSimples simples

def Compound.weight : Compound → Weight
  | .mk none simples => weightSimples simples
  | .mk (some type) simples => type.weight + weightSimples simples

def Complex.weight : Complex → Weight
  | .last compound => compound.weight
  | .join compound _ rest => compound.weight + rest.weight

/-- The greatest weight of some selectors. -/
def heaviest : List Complex → Weight
  | [] => 0
  | selector :: more => max selector.weight (heaviest more)

end

end Selector
end SheetAudit
