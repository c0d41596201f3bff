import SheetAudit.Text.Letter

/-!
# Quoted strings of TOML

Strings stand between double quotes, where a backslash begins an escape, or between single quotes,
where it means nothing.  Between three quotes of either kind a string may run over several lines; a
newline right after the opening quotes does not count.

## Main definitions

* `read?` — the string at the start of a text.
* `readLine?` — the same for a string on one line.
-/

namespace SheetAudit
namespace Toml
namespace Quoted

open Text

/-- May stand in a string or a comment as it is. -/
def isPlain (c : Char) : Bool := c == '\t' || (c ≥ ' ' && c != '\x7f')

def isSpaceOrTab (c : Char) : Bool := c == ' ' || c == '\t'

/-- The text begins with the end of a line. -/
def atLineEnd : List Char → Bool
  | '\n' :: _ => true
  | '\r' :: '\n' :: _ => true
  | _ => false

def hexValue (c : Char) : Nat :=
  if c.isDigit then c.toNat - '0'.toNat
  else if 'a' ≤ c then c.toNat - 'a'.toNat + 10
  else c.toNat - 'A'.toNat + 10

/-- The character with this code point in hexadecimal digits. -/
def scalar? (ds : List Char) : Option Char :=
  let n := ds.foldl (fun n d => 16 * n + hexValue d) 0
  if ds.all isHexDigit && n.isValidChar then some (Char.ofNat n) else none

/-- The character that an escape of one letter stands for. -/
def escaped? : Char → Option Char
  | 'b' => some '\x08'
  | 't' => some '\t'
  | 'n' => some '\n'
  | 'f' => some '\x0c'
  | 'r' => some '\r'
  | 'e' => some '\x1b'
  | '"' => some '"'
  | '\\' => some '\\'
  | _ => none

/-- A character before what was read. -/
def before (c : Char) (r : Option (List Char × List Char)) : Option (List Char × List Char) :=
  r.map fun (cs, rest) => (c :: cs, rest)

/-- What stands before the closing double quote, and what follows it. -/
def basic? : List Char → Option (List Char × List Char)
  | [] => none
  | '"' :: cs => some ([], cs)
  | '\\' :: 'x' :: a :: b :: cs => (scalar? [a, b]).bind fun c => before c (basic? cs)
  | '\\' :: 'u' :: a :: b :: c :: d :: cs =>
    (scalar? [a, b, c, d]).bind fun c => before c (basic? cs)
  | '\\' :: 'U' :: a :: b :: c :: d :: e :: f :: g :: h :: cs =>
    (scalar? [a, b, c, d, e, f, g, h]).bind fun c => before c (basic? cs)
  | '\\' :: c :: cs => (escaped? c).bind fun c => before c (basic? cs)
  | c :: cs => if isPlain c then before c (basic? cs) else none

/-- What stands before the three closing double quotes, and what follows them; up to two more quotes
belong to the string.  After a backslash at the end of a line, blanks and newlines are skipped. -/
def basicLines? (skipping : Bool) : List Char → Option (List Char × List Char)
  | [] => none
  | '"' :: '"' :: '"' :: '"' :: '"' :: cs => some (['"', '"'], cs)
  | '"' :: '"' :: '"' :: '"' :: cs => some (['"'], cs)
  | '"' :: '"' :: '"' :: cs => some ([], cs)
  | '\\' :: 'x' :: a :: b :: cs => (scalar? [a, b]).bind fun c => before c (basicLines? false cs)
  | '\\' :: 'u' :: a :: b :: c :: d :: cs =>
    (scalar? [a, b, c, d]).bind fun c => before c (basicLines? false cs)
  | '\\' :: 'U' :: a :: b :: c :: d :: e :: f :: g :: h :: cs =>
    (scalar? [a, b, c, d, e, f, g, h]).bind fun c => before c (basicLines? false cs)
  | '\\' :: c :: cs =>
    if atLineEnd ((c :: cs).dropWhile isSpaceOrTab) then basicLines? true (c :: cs)
    else (escaped? c).bind fun c => before c (basicLines? false cs)
  | '\r' :: '\n' :: cs =>
    if skipping then basicLines? true cs else before '\r' (before '\n' (basicLines? false cs))
  | '\n' :: cs => if skipping then basicLines? true cs else before '\n' (basicLines? false cs)
  | c :: cs =>
    if skipping && isSpaceOrTab c then basicLines? true cs
    else if isPlain c then before c (basicLines? false cs)
    else none

/-- What stands before the closing single quote, and what follows it. -/
def literal? : List Char → Option (List Char × List Char)
  | [] => none
  | '\'' :: cs => some ([], cs)
  | c :: cs => if isPlain c then before c (literal? cs) else none

/-- What stands before the three closing single quotes, and what follows them; up to two more quotes
belong to the string. -/
def literalLines? : List Char → Option (List Char × List Char)
  | [] => none
  | '\'' :: '\'' :: '\'' :: '\'' :: '\'' :: cs => some (['\'', '\''], cs)
  | '\'' :: '\'' :: '\'' :: '\'' :: cs => some (['\''], cs)
  | '\'' :: '\'' :: '\'' :: cs => some ([], cs)
  | '\r' :: '\n' :: cs => before '\r' (before '\n' (literalLines? cs))
  | '\n' :: cs => before '\n' (literalLines? cs)
  | c :: cs => if isPlain c then before c (literalLines? cs) else none

/-- Without the newline that the text begins with, if it does. -/
def dropLineEnd : List Char → List Char
  | '\n' :: cs => cs
  | '\r' :: '\n' :: cs => cs
  | cs => cs

/-- The string on one line at the start of a text, and what follows it. -/
def readLine? : List Char → Option (List Char × List Char)
  | '"' :: cs => basic? cs
  | '\'' :: cs => literal? cs
  | _ => none

/-- The string at the start of a text, and what follows it. -/
def read? : List Char → Option (List Char × List Char)
  | '"' :: '"' :: '"' :: cs => basicLines? false (dropLineEnd cs)
  | '\'' :: '\'' :: '\'' :: cs => literalLines? (dropLineEnd cs)
  | cs => readLine? cs

end Quoted
end Toml
end SheetAudit
