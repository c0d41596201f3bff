import SheetAudit.Offsets.Text
import SheetAudit.Selector.Compound

/-!
# Pseudo-classes with a count

The arguments of a pseudo-class are passed over with a count of the parentheses that are open.  The
count begins at the opening one, goes up and down with the others, and where it is back at zero the
arguments end.  It cannot be taken below zero without a fault.

## Main definitions

* `passArguments` — what follows the arguments that a text begins with.
* `passPseudo` — what follows a pseudo-class.
* `stripPseudo` — the selector without its pseudo-classes and pseudo-elements.
-/

namespace SheetAudit
namespace Offsets

open Selector Text

/-- What follows the parenthesis that takes the count back to zero. -/
def passArguments (depth : Nat) : List Char → Except Fault (List Char)
  | [] => .ok []
  | c :: cs =>
    if c == '(' then passArguments (depth + 1) cs
    else if c == ')' then do
      let depth ← minus depth 1
      if depth == 0 then return cs else passArguments depth cs
    else passArguments depth cs

/-- What follows a pseudo-class whose first colon has been read. -/
def passPseudo (cs : List Char) : Except Fault (List Char) :=
  let cs := match cs with | ':' :: rest => rest | _ => cs
  let rest := cs.dropWhile isNameChar
  if rest.head? == some '(' then passArguments 0 rest else .ok rest

theorem length_of_passArguments {depth : Nat} {cs rest : List Char}
    (h : passArguments depth cs = .ok rest) : rest.length ≤ cs.length := by
  induction cs generalizing depth with
  | nil =>
    obtain rfl := Except.ok.inj h
    exact Nat.le_refl 0
  | cons c cs ih =>
    have hrest {d : Nat} (h : passArguments d cs = .ok rest) : rest.length ≤ (c :: cs).length :=
      Nat.le_succ_of_le (ih h)
    unfold passArguments at h
    split at h
    · exact hrest h
    · split at h
      · obtain ⟨d, -, h⟩ := exists_of_bind_eq_ok h
        split at h
        · obtain rfl := Except.ok.inj h
          exact Nat.le_succ _
        · exact hrest h
      · exact hrest h

theorem length_of_passPseudo {cs rest : List Char} (h : passPseudo cs = .ok rest) :
    rest.length ≤ cs.length := by
  have hname (ds : List Char)
      (h : (if (ds.dropWhile isNameChar).head? == some '(' then
        passArguments 0 (ds.dropWhile isNameChar) else .ok (ds.dropWhile isNameChar)) = .ok rest) :
      rest.length ≤ ds.length := by
    have hdrop : (ds.dropWhile isNameChar).length ≤ ds.length :=
      (List.dropWhile_sublist _).length_le
    split at h
    · exact Nat.le_trans (length_of_passArguments h) hdrop
    · obtain rfl := Except.ok.inj h
      exact hdrop
  unfold passPseudo at h
  split at h
  · exact Nat.le_succ_of_le (hname _ h)
  · exact hname _ h

/-- `bracket` counts the square brackets that are open. -/
def stripFrom (bracket : Nat) (cs : List Char) : Except Fault (List Char) :=
  match cs with
  | [] => .ok []
  | c :: cs =>
    if c == '[' then return c :: (← stripFrom (bracket + 1) cs)
    else if c == ']' then return c :: (← stripFrom (bracket - 1) cs)
    else if c == ':' && bracket == 0 then
      match _h : passPseudo cs with
      | .error f => .error f
      | .ok rest => stripFrom bracket rest
    else return c :: (← stripFrom bracket cs)
termination_by cs.length
decreasing_by
  all_goals simp_wf
  have := length_of_passPseudo _h
  omega

/-- The selector without its pseudo-classes and pseudo-elements. -/
def stripPseudo (selector : List Char) : Except Fault (List Char) :=
  return collapse (← stripFrom 0 selector)

end Offsets
end SheetAudit
