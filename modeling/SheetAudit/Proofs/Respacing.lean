import SheetAudit.Proofs.Listings
import SheetAudit.Selector.Specificity

/-!
# Brackets, and texts with other blanks

The argument of a pseudo-class is found by its brackets, cut at its commas and collapsed before it
is weighed.  The readers of brackets do not look at blanks, so that what holds of a text with
well-nested brackets holds of it with its blanks collapsed.

Collapsing a text piece by piece needs to know what stands before the piece: a run of blanks is put
as one space before what follows it, so that the space is still due where a piece ends in blanks.

## Main definitions

* `Bracketed` — brackets are nested and closed, and strings hold none.
* `Spacing`, `respace` — how blanks are copied, and a text with its blanks copied so.

## Main results

* `takeGroup_append`, `splitTop_append` — the readers pass over a text with closed brackets.
* `Bracketed.respace` — brackets stay closed when blanks are collapsed.
* `words_respace`, `respace_due` — a respaced text has the same words.
-/

namespace SheetAudit
namespace Selector

open Text

/-! ### Closed brackets -/

def isQuote (c : Char) : Bool := c == '"' || c == '\''

/-- No quote and no bracket, and no comma unless those may stand here. -/
def isPlain (commas : Bool) (c : Char) : Bool :=
  !isQuote c && !opens c && !closes c && (commas || c != ',')

/-- Two brackets that belong together. -/
def IsPair (left right : Char) : Prop := left = '(' ∧ right = ')' ∨ left = '[' ∧ right = ']'

/-- All brackets are closed, and strings hold none.  Commas may stand inside brackets, and outside
of them if `commas` allows it. -/
inductive Bracketed : (commas : Bool) → List Char → Prop where
  | nil {commas : Bool} : Bracketed commas []
  | plain {commas : Bool} {c : Char} {cs : List Char} (isPlain : isPlain commas c = true)
      (rest : Bracketed commas cs) : Bracketed commas (c :: cs)
  | quoted {commas : Bool} {q : Char} {inner cs : List Char} (quote : isQuote q = true)
      (inside : ∀ c ∈ inner, Selector.isPlain commas c = true) (rest : Bracketed commas cs) :
      Bracketed commas (q :: (inner ++ q :: cs))
  | group {commas : Bool} {left right : Char} {inner cs : List Char} (pair : IsPair left right)
      (inside : Bracketed true inner) (rest : Bracketed commas cs) :
      Bracketed commas (left :: (inner ++ right :: cs))

theorem Bracketed.of_forall {commas : Bool} {cs : List Char}
    (h : ∀ c ∈ cs, isPlain commas c = true) : Bracketed commas cs := by
  induction cs with
  | nil => exact .nil
  | cons c cs ih =>
    obtain ⟨hc, hcs⟩ := List.forall_mem_cons.1 h
    exact .plain hc (ih hcs)

theorem Bracketed.append {commas : Bool} {cs ds : List Char} (h : Bracketed commas cs)
    (h' : Bracketed commas ds) : Bracketed commas (cs ++ ds) := by
  induction h with
  | nil => exact h'
  | plain hc _ ih => exact .plain hc (ih h')
  | quoted hq inside _ ih =>
    rw [List.cons_append, List.append_assoc, List.cons_append]
    exact .quoted hq inside (ih h')
  | group hpair inside _ _ ih =>
    rw [List.cons_append, List.append_assoc, List.cons_append]
    exact .group hpair inside (ih h')

theorem isPlain_true {commas : Bool} {c : Char} (h : isPlain commas c = true) :
    isPlain true c = true := by
  simp only [isPlain, Bool.and_eq_true] at h
  simp [isPlain, h.1]

theorem Bracketed.commas {commas : Bool} {cs : List Char} (h : Bracketed commas cs) :
    Bracketed true cs := by
  induction h with
  | nil => exact .nil
  | plain hc _ ih => exact .plain (isPlain_true hc) ih
  | quoted hq inside _ ih => exact .quoted hq (fun c hc => isPlain_true (inside c hc)) ih
  | group hpair inside _ _ ih => exact .group hpair inside ih

/-- A group on its own. -/
theorem Bracketed.single {commas : Bool} {left right : Char} {inner : List Char}
    (pair : IsPair left right) (inside : Bracketed true inner) :
    Bracketed commas (left :: (inner ++ [right])) :=
  .group pair inside .nil

/-! ### Reading groups -/

section Groups

variable {left right : Char} {depth : Nat} {rest : List Char}

/-- A character that does not close the group is taken into it. -/
theorem takeGroup_cons {quote : Option Char} {c : Char} {cs : List Char}
    (h : ¬ (c = right ∧ depth = 0 ∧ quote = none)) (hne : cs ≠ []) :
    takeGroup left right depth quote (c :: cs) =
      Prod.map (c :: ·) id (takeGroup left right (groupStep left right depth quote c).1
        (groupStep left right depth quote c).2 cs) := by
  have hclose : ¬ (c == right && depth == 0 && quote.isNone) = true := by
    simpa [and_assoc] using h
  have hempty : ¬ cs.isEmpty = true := by simpa using hne
  rw [takeGroup, if_neg hclose]
  dsimp only
  rw [if_neg hempty]
  rfl

theorem takeGroup_close : takeGroup left right 0 none (right :: rest) = ([], rest) := by
  rw [takeGroup, if_pos (by simp)]

/-- A string is passed over. -/
theorem takeGroup_quoted {q : Char} {inner : List Char} (hne : rest ≠ [])
    (hinner : ∀ c ∈ inner, c ≠ q) :
    takeGroup left right depth (some q) (inner ++ q :: rest) =
      Prod.map ((inner ++ [q]) ++ ·) id (takeGroup left right depth none rest) := by
  induction inner with
  | nil =>
    rw [List.nil_append, takeGroup_cons (by simp) hne, groupStep, if_pos (beq_self_eq_true q)]
    rfl
  | cons c inner ih =>
    obtain ⟨hc, hinner⟩ := List.forall_mem_cons.1 hinner
    rw [List.cons_append, takeGroup_cons (by simp) (by simp), groupStep,
      if_neg (by simpa using hc), ih hinner]
    rfl

/-- A character that is neither a quote nor one of the two brackets changes nothing. -/
theorem takeGroup_other {c : Char} {cs : List Char} (hquote : isQuote c = false)
    (hleft : c ≠ left) (hright : c ≠ right) (hne : cs ≠ []) :
    takeGroup left right depth none (c :: cs) =
      Prod.map (c :: ·) id (takeGroup left right depth none cs) := by
  rw [takeGroup_cons (fun h => hright h.1) hne, groupStep, ← isQuote, hquote,
    if_neg Bool.false_ne_true, if_neg (by simpa using hleft), if_neg (by simpa using hright)]

theorem IsPair.isBracket (h : IsPair left right) :
    isQuote left = false ∧ isQuote right = false ∧ left ≠ right := by
  rcases h with ⟨rfl, rfl⟩ | ⟨rfl, rfl⟩ <;> decide

/-- Two pairs of brackets are the same, or none is a bracket of the other pair. -/
theorem IsPair.eq_or_ne {l r : Char} (h : IsPair left right) (h' : IsPair l r) :
    (l = left ∧ r = right) ∨ l ≠ left ∧ l ≠ right ∧ r ≠ left ∧ r ≠ right := by
  rcases h with ⟨rfl, rfl⟩ | ⟨rfl, rfl⟩ <;> rcases h' with ⟨rfl, rfl⟩ | ⟨rfl, rfl⟩ <;> decide

/-- The search for the end of a group passes over a text with closed brackets. -/
theorem takeGroup_append (pair : IsPair left right) {commas : Bool} {cs : List Char}
    (h : Bracketed commas cs) (hne : rest ≠ []) :
    takeGroup left right depth none (cs ++ rest) =
      Prod.map (cs ++ ·) id (takeGroup left right depth none rest) := by
  induction h generalizing depth rest with
  | nil => rfl
  | @plain commas c cs hc _ ih =>
    simp only [isPlain, opens, closes, Bool.and_eq_true, Bool.not_eq_true', Bool.or_eq_false_iff,
      beq_eq_false_iff_ne] at hc
    have hleft : c ≠ left := by rcases pair with ⟨rfl, -⟩ | ⟨rfl, -⟩ <;> tauto
    have hright : c ≠ right := by rcases pair with ⟨-, rfl⟩ | ⟨-, rfl⟩ <;> tauto
    rw [List.cons_append, takeGroup_other hc.1.1.1 hleft hright (by simp [hne]), ih hne]
    rfl
  | @quoted commas q inner cs hq inside _ ih =>
    have hbracket : q ≠ right := fun heq => by
      rw [heq, pair.isBracket.2.1] at hq
      cases hq
    have hinner : ∀ c ∈ inner, c ≠ q := fun c hc heq => by
      have hplain := inside c hc
      rw [heq, isPlain, hq] at hplain
      cases hplain
    rw [List.cons_append, takeGroup_cons (fun h => hbracket h.1) (by simp), groupStep, ← isQuote,
      if_pos hq, List.append_assoc, List.cons_append, takeGroup_quoted (by simp [hne]) hinner,
      ih hne]
    simp [Prod.map]
  | @group commas l r inner cs hpair inside _ ihi ih =>
    rw [List.cons_append, List.append_assoc, List.cons_append]
    -- brackets of the same pair are counted, those of the other one are plain characters
    rcases pair.eq_or_ne hpair with ⟨rfl, rfl⟩ | ⟨h₁, h₂, h₃, h₄⟩
    · obtain ⟨hl, hr, hlr⟩ := pair.isBracket
      rw [takeGroup_cons (fun h => hlr h.1) (by simp), groupStep, ← isQuote, hl,
        if_neg Bool.false_ne_true, if_pos (beq_self_eq_true l), ihi (by simp),
        takeGroup_cons (by simp) (by simp [hne]), groupStep, ← isQuote, hr,
        if_neg Bool.false_ne_true, if_neg (by simpa using hlr.symm), if_pos (beq_self_eq_true r),
        Nat.add_sub_cancel, ih hne]
      simp [Prod.map]
    · obtain ⟨hl, hr, -⟩ := hpair.isBracket
      rw [takeGroup_other hl h₁ h₂ (by simp), ihi (by simp),
        takeGroup_other hr h₃ h₄ (by simp [hne]), ih hne]
      simp [Prod.map]

/-- A group holds what stands between its brackets. -/
theorem takeGroup_group (pair : IsPair left right) {inner : List Char}
    (h : Bracketed true inner) (rest : List Char) :
    takeGroup left right 0 none (inner ++ right :: rest) = (inner, rest) := by
  rw [takeGroup_append pair h (List.cons_ne_nil _ _), takeGroup_close]
  simp [Prod.map]

end Groups

/-! ### Splitting at commas -/

theorem deepen_of_isPlain {commas : Bool} {c : Char} (h : isPlain commas c = true) (depth : Nat) :
    deepen depth c = depth := by
  simp only [isPlain, Bool.and_eq_true, Bool.not_eq_true'] at h
  rw [deepen, h.1.1.2, h.1.2, if_neg Bool.false_ne_true, if_neg Bool.false_ne_true]

theorem deepen_of_isQuote {q : Char} (h : isQuote q = true) (depth : Nat) :
    deepen depth q = depth ∧ q ≠ ',' := by
  rcases Bool.or_eq_true_iff.1 h with h | h <;> obtain rfl := eq_of_beq h <;>
    exact ⟨rfl, by decide⟩

theorem splitTop_cons_of_isPlain {commas : Bool} {c : Char} {cs piece : List Char}
    {pieces : List (List Char)} {depth : Nat} (hc : isPlain commas c = true)
    (hdepth : commas = true → depth ≠ 0) (h : splitTop id depth cs = piece :: pieces) :
    splitTop id depth (c :: cs) = (c :: piece) :: pieces := by
  refine splitTop_cons ?_ (by rwa [id, deepen_of_isPlain hc])
  cases commas with
  | true => simp [hdepth rfl]
  | false =>
    simp only [isPlain, Bool.false_or, Bool.and_eq_true, bne_iff_ne] at hc
    simp [hc.2]

/-- A text of plain characters is passed over. -/
theorem splitTop_plain {commas : Bool} {cs rest piece : List Char} {pieces : List (List Char)}
    {depth : Nat} (h : ∀ c ∈ cs, isPlain commas c = true) (hdepth : commas = true → depth ≠ 0)
    (hrest : splitTop id depth rest = piece :: pieces) :
    splitTop id depth (cs ++ rest) = (cs ++ piece) :: pieces := by
  induction cs with
  | nil => exact hrest
  | cons c cs ih =>
    obtain ⟨hc, hcs⟩ := List.forall_mem_cons.1 h
    exact splitTop_cons_of_isPlain hc hdepth (ih hcs)

/-- The search for commas passes over a text with closed brackets. -/
theorem splitTop_append {commas : Bool} {cs rest piece : List Char} {pieces : List (List Char)}
    {depth : Nat} (h : Bracketed commas cs) (hdepth : commas = true → depth ≠ 0)
    (hrest : splitTop id depth rest = piece :: pieces) :
    splitTop id depth (cs ++ rest) = (cs ++ piece) :: pieces := by
  induction h generalizing depth rest piece with
  | nil => exact hrest
  | plain hc _ ih => exact splitTop_cons_of_isPlain hc hdepth (ih hdepth hrest)
  | @quoted commas q inner cs hq inside _ ih =>
    have hskip {xs p : List Char} {ps : List (List Char)} (h : splitTop id depth xs = p :: ps) :
        splitTop id depth (q :: xs) = (q :: p) :: ps := by
      obtain ⟨hdeepen, hcomma⟩ := deepen_of_isQuote hq depth
      exact splitTop_cons (by simp [hcomma]) (by rwa [id, hdeepen])
    have hall := hskip (splitTop_plain inside hdepth (hskip (ih hdepth hrest)))
    simpa using hall
  | @group commas l r inner cs hpair inside _ ihi ih =>
    have hleft : l ≠ ',' ∧ deepen depth l = depth + 1 := by
      rcases hpair with ⟨rfl, -⟩ | ⟨rfl, -⟩ <;> exact ⟨by decide, rfl⟩
    have hright : deepen (depth + 1) r = depth := by
      rcases hpair with ⟨-, rfl⟩ | ⟨-, rfl⟩ <;> rfl
    have hclose : splitTop id (depth + 1) (r :: (cs ++ rest)) = (r :: (cs ++ piece)) :: pieces :=
      splitTop_cons (by simp) (by rw [id, hright]; exact ih hdepth hrest)
    -- one level deeper no comma splits
    have hinner := ihi (fun _ => Nat.succ_ne_zero depth) hclose
    have hall : splitTop id depth (l :: (inner ++ r :: (cs ++ rest))) =
        (l :: (inner ++ r :: (cs ++ piece))) :: pieces :=
      splitTop_cons (by simp [hleft.1]) (by rw [id, hleft.2]; exact hinner)
    simpa using hall

theorem splitTop_eq_singleton {cs : List Char} (h : Bracketed false cs) :
    splitTop id 0 cs = [cs] := by
  have hnil : splitTop id 0 [] = [[]] := rfl
  have hsplit := splitTop_append h (fun h => by cases h) hnil
  rwa [List.append_nil] at hsplit

theorem splitTop_comma {cs : List Char} (h : Bracketed false cs) (rest : List Char) :
    splitTop id 0 (cs ++ ',' :: rest) = cs :: splitTop id 0 rest := by
  have hcomma : splitTop id 0 (',' :: rest) = [] :: splitTop id 0 rest := by
    rw [splitTop, if_pos (by rfl)]
  rw [splitTop_append h (fun h => by cases h) hcomma, List.append_nil]

/-! ### Blanks copied -/

/-- How the blanks of a text are copied. -/
inductive Spacing where
  /-- All of them. -/
  | kept
  /-- Runs of blanks as single spaces; no blank stands before the text. -/
  | tight
  /-- The same, with a space due before what comes next. -/
  | due

namespace Spacing

/-- What is put before the next character. -/
def lead : Spacing → List Char
  | due => [' ']
  | _ => []

/-- What is put for a blank. -/
def blank : Spacing → Char → List Char
  | kept, c => [c]
  | _, _ => []

/-- How blanks are copied behind a character that is none. -/
def firm : Spacing → Spacing
  | kept => kept
  | _ => tight

/-- How blanks are copied behind a blank. -/
def loose : Spacing → Spacing
  | kept => kept
  | _ => due

/-- How blanks are copied behind a text. -/
def behind (m : Spacing) (cs : List Char) : Spacing :=
  cs.foldl (fun m c => if isBlank c then m.loose else m.firm) m

@[simp] theorem firm_firm (m : Spacing) : m.firm.firm = m.firm := by cases m <;> rfl

@[simp] theorem firm_loose (m : Spacing) : m.loose.firm = m.firm := by cases m <;> rfl

@[simp] theorem lead_firm (m : Spacing) : m.firm.lead = [] := by cases m <;> rfl

theorem firm_behind (m : Spacing) (cs : List Char) : (m.behind cs).firm = m.firm := by
  induction cs generalizing m with
  | nil => rfl
  | cons c cs ih =>
    rw [behind, List.foldl_cons, ← behind, ih]
    split <;> simp

theorem eq_space_of_mem_lead {m : Spacing} {c : Char} (h : c ∈ m.lead) : c = ' ' := by
  cases m with
  | due => exact List.mem_singleton.1 h
  | kept => cases h
  | tight => cases h

end Spacing

/-- A text with its blanks copied. -/
def respace (m : Spacing) : List Char → List Char
  | [] => []
  | c :: cs =>
    if isBlank c then m.blank c ++ respace m.loose cs else m.lead ++ c :: respace m.firm cs

theorem respace_cons_of_isBlank {c : Char} (h : isBlank c = true) (m : Spacing)
    (cs : List Char) : respace m (c :: cs) = m.blank c ++ respace m.loose cs := by
  rw [respace, if_pos h]

theorem respace_cons_of_not {c : Char} (h : isBlank c = false) (m : Spacing)
    (cs : List Char) : respace m (c :: cs) = m.lead ++ c :: respace m.firm cs := by
  rw [respace, if_neg (by simp [h])]

@[simp] theorem respace_kept (cs : List Char) : respace .kept cs = cs := by
  induction cs with
  | nil => rfl
  | cons c cs ih =>
    rw [respace]
    split
    · exact congrArg (c :: ·) ih
    · exact congrArg (c :: ·) ih

theorem respace_append (m : Spacing) (cs ds : List Char) :
    respace m (cs ++ ds) = respace m cs ++ respace (m.behind cs) ds := by
  induction cs generalizing m with
  | nil => rfl
  | cons c cs ih =>
    rw [List.cons_append, respace, respace, ih, ih, Spacing.behind, Spacing.behind,
      Spacing.behind, List.foldl_cons]
    split <;> simp

/-- A text without blanks is copied as it is. -/
theorem respace_of_forall {cs : List Char} (h : ∀ c ∈ cs, isBlank c = false) (m : Spacing) :
    respace m.firm cs = cs ∧ m.firm.behind cs = m.firm := by
  induction cs with
  | nil => exact ⟨rfl, rfl⟩
  | cons c cs ih =>
    obtain ⟨hc, hcs⟩ := List.forall_mem_cons.1 h
    obtain ⟨hrespace, hbehind⟩ := ih hcs
    constructor
    · rw [respace_cons_of_not hc, Spacing.lead_firm, Spacing.firm_firm, hrespace]
      rfl
    · rw [Spacing.behind, List.foldl_cons, if_neg (by simp [hc]), Spacing.firm_firm]
      exact hbehind

/-- A word before a text is copied as it is. -/
theorem respace_word_append {c : Char} {cs : List Char} (hc : isBlank c = false)
    (h : ∀ d ∈ cs, isBlank d = false) (m : Spacing) (ds : List Char) :
    respace m (c :: cs ++ ds) = m.lead ++ (c :: cs ++ respace m.firm ds) := by
  obtain ⟨hrespace, hbehind⟩ := respace_of_forall h m
  rw [List.cons_append, respace_cons_of_not hc, respace_append, hrespace, hbehind]
  rfl

theorem mem_respace {m : Spacing} {c : Char} {cs : List Char} (h : c ∈ respace m cs) :
    c ∈ cs ∨ c = ' ' := by
  induction cs generalizing m with
  | nil => cases h
  | cons d cs ih =>
    rw [respace] at h
    split at h
    · rcases List.mem_append.1 h with h | h
      · cases m with
        | kept => exact .inl (List.mem_singleton.1 h ▸ List.mem_cons_self)
        | tight => cases h
        | due => cases h
      · exact (ih h).imp_left (List.mem_cons_of_mem d)
    · rcases List.mem_append.1 h with h | h
      · exact .inr (Spacing.eq_space_of_mem_lead h)
      rcases List.mem_cons.1 h with rfl | h
      · exact .inl List.mem_cons_self
      · exact (ih h).imp_left (List.mem_cons_of_mem d)

/-- What a group holds when its blanks are copied. -/
def held (m : Spacing) (inner : List Char) : List Char :=
  respace m.firm inner ++ (m.firm.behind inner).lead

theorem respace_group {left right : Char} (hleft : isBlank left = false)
    (hright : isBlank right = false) (m : Spacing) (inner rest : List Char) :
    respace m (left :: (inner ++ right :: rest)) =
      m.lead ++ left :: (held m inner ++ right :: respace m.firm rest) := by
  rw [respace_cons_of_not hleft, respace_append, respace_cons_of_not hright, Spacing.firm_behind,
    Spacing.firm_firm, held, List.append_assoc]

theorem mem_held {m : Spacing} {c : Char} {inner : List Char} (h : c ∈ held m inner) :
    c ∈ inner ∨ c = ' ' :=
  (List.mem_append.1 h).elim mem_respace fun h => .inr (Spacing.eq_space_of_mem_lead h)

/-! ### Brackets stay closed -/

theorem isBlank_of_isQuote {q : Char} (h : isQuote q = true) : isBlank q = false := by
  rcases Bool.or_eq_true_iff.1 h with h | h <;> obtain rfl := eq_of_beq h <;> decide

theorem IsPair.isBlank {left right : Char} (h : IsPair left right) :
    isBlank left = false ∧ isBlank right = false := by
  rcases h with ⟨rfl, rfl⟩ | ⟨rfl, rfl⟩ <;> decide

theorem isPlain_space (commas : Bool) : isPlain commas ' ' = true := by
  cases commas <;> decide

theorem Bracketed.lead (commas : Bool) (m : Spacing) : Bracketed commas m.lead :=
  .of_forall fun _ hc => Spacing.eq_space_of_mem_lead hc ▸ isPlain_space commas

theorem Bracketed.respace {commas : Bool} {cs : List Char} (h : Bracketed commas cs)
    (m : Spacing) : Bracketed commas (respace m cs) := by
  induction h generalizing m with
  | nil => exact .nil
  | @plain commas c cs hc _ ih =>
    rw [Selector.respace]
    split
    · refine Bracketed.append ?_ (ih _)
      cases m with
      | kept => exact .plain hc .nil
      | tight => exact .nil
      | due => exact .nil
    · exact (Bracketed.lead commas m).append (.plain hc (ih _))
  | @quoted commas q inner cs hq inside _ ih =>
    have hblank := isBlank_of_isQuote hq
    rw [respace_group hblank hblank]
    refine (Bracketed.lead commas m).append (.quoted hq (fun c hc => ?_) (ih _))
    rcases mem_held hc with hc | rfl
    · exact inside c hc
    · exact isPlain_space commas
  | @group commas l r inner cs hpair inside _ ihi ih =>
    rw [respace_group hpair.isBlank.1 hpair.isBlank.2]
    exact (Bracketed.lead commas m).append
      (.group hpair ((ihi _).append (Bracketed.lead true _)) (ih _))

theorem Bracketed.held {commas : Bool} {inner : List Char} (h : Bracketed commas inner)
    (m : Spacing) : Bracketed commas (held m inner) :=
  (h.respace _).append (.lead commas _)

/-! ### Words stay the same -/

/-- With a space due, a text is copied with one space before every word. -/
theorem respace_due (cs : List Char) : respace .due cs = (words cs).flatMap (' ' :: ·) := by
  induction cs with
  | nil => rfl
  | cons c cs ih =>
    cases hc : isBlank c with
    | true =>
      rw [respace_cons_of_isBlank hc, words_blank hc]
      exact ih
    | false =>
      rw [respace_cons_of_not hc]
      cases cs with
      | nil => rw [words_singleton hc]; rfl
      | cons d cs =>
        cases hd : isBlank d with
        | true =>
          rw [words_cons_of_blank hc hd, ← words_blank hd, List.flatMap_cons, ← ih,
            respace_cons_of_isBlank hd, respace_cons_of_isBlank hd]
          rfl
        | false =>
          obtain ⟨w, ws, hw, hcw⟩ := words_cons_of_not_blank hc hd cs
          rw [hw, respace_cons_of_not hd] at ih
          rw [hcw, respace_cons_of_not hd]
          simp only [Spacing.lead, Spacing.firm, List.flatMap_cons, List.cons_append,
            List.nil_append, List.cons.injEq, true_and] at ih ⊢
          exact ih

/-- One space before every word is a space before the words with spaces between them. -/
theorem flatMap_space (w : List Char) (ws : List (List Char)) :
    (w :: ws).flatMap (' ' :: ·) = ' ' :: [' '].intercalate (w :: ws) := by
  induction ws generalizing w with
  | nil => simp
  | cons v vs ih =>
    rw [List.flatMap_cons, ih v, List.intercalate_cons_cons]
    simp

/-- A blank or the end of the text after a character ends its word. -/
theorem words_cons_of_head {c : Char} (hc : isBlank c = false) {cs : List Char}
    (h : ∀ d ∈ cs.head?, isBlank d = true) : words (c :: cs) = [c] :: words cs := by
  cases cs with
  | nil => exact words_singleton hc
  | cons d cs => rw [words_cons_of_blank hc (h d rfl), words_blank (h d rfl)]

theorem head_respace_due (cs : List Char) : ∀ d ∈ (respace .due cs).head?, isBlank d = true := by
  rw [respace_due]
  cases words cs with
  | nil => exact fun d hd => by cases hd
  | cons w ws => exact fun d hd => Option.some.inj hd ▸ by decide

theorem words_respace_due (cs : List Char) : words (respace .due cs) = words cs := by
  induction cs with
  | nil => rfl
  | cons c cs ih =>
    cases hc : isBlank c with
    | true =>
      rw [respace_cons_of_isBlank hc, words_blank hc]
      exact ih
    | false =>
      rw [respace_cons_of_not hc]
      change words (' ' :: c :: respace .tight cs) = _
      rw [words_blank (by decide)]
      cases cs with
      | nil => rfl
      | cons d cs =>
        cases hd : isBlank d with
        | true =>
          have htight : respace .tight (d :: cs) = respace .due (d :: cs) := by
            rw [respace_cons_of_isBlank hd, respace_cons_of_isBlank hd]
            rfl
          rw [words_cons_of_blank hc hd, htight, words_cons_of_head hc (head_respace_due _), ih,
            words_blank hd]
        | false =>
          -- `c` is put in front of the same word on both sides
          rw [respace_cons_of_not hd] at ih ⊢
          change words (' ' :: d :: respace .tight cs) = _ at ih
          rw [words_blank (by decide)] at ih
          obtain ⟨w, ws, hw, hcw⟩ := words_cons_of_not_blank hc hd cs
          obtain ⟨v, vs, hv, hcv⟩ := words_cons_of_not_blank hc hd (respace .tight cs)
          obtain ⟨rfl, rfl⟩ : v = w ∧ vs = ws := by simpa [hw, hv] using ih
          exact hcv.trans hcw.symm

/-- A text with its blanks copied has the same words. -/
theorem words_respace (m : Spacing) (cs : List Char) : words (respace m cs) = words cs := by
  cases m with
  | kept => rw [respace_kept]
  | due => exact words_respace_due cs
  | tight =>
    rw [← words_respace_due cs]
    cases cs with
    | nil => rfl
    | cons c cs =>
      cases hc : isBlank c with
      | true => exact congrArg words ((respace_cons_of_isBlank hc .tight cs).trans
          (respace_cons_of_isBlank hc .due cs).symm)
      | false =>
        have htight := respace_cons_of_not hc .tight cs
        have hdue := respace_cons_of_not hc .due cs
        rw [htight, hdue]
        exact (words_blank (by decide) _).symm

end Selector
end SheetAudit
