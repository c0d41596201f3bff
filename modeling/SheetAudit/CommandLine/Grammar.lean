import SheetAudit.CommandLine.Basic

/-!
# Grammars of command lines

The words of a command line are options, values of options, an operand and at last the name of a
command, whose own words follow.  An option is written `--name`, with its value in the next word or
after `=`, or as a letter in a cluster `-abc`, whose last letter may have its value right behind
it or in the next word.  After the word `--` all words are operands.

What is given changes a state, which tells at the end what was given.  A value that is a word of
its own is taken up only when it is settled what follows it: if that is no option that there
is, the fault in it goes before a fault in the value.

## Main definitions

* `OptionUse`, `CommandOption`, `Grammar` — the options of a command and what they do to a state.
* `Given` — an option or an operand as it is given; `Given.apply` takes it up.
* `Grammar.read` — reads words up to the name of a command.
-/

namespace SheetAudit

/-- What an option does to the state. -/
inductive OptionUse (σ : Type) where
  /-- It stands for itself. -/
  | flag (set : σ → Except UsageError σ)
  /-- It has a value. -/
  | value (set : String → σ → Except UsageError σ)

structure CommandOption (σ : Type) where
  name : String
  letter : Option Char := none
  use : OptionUse σ

structure Grammar (σ : Type) where
  options : List (CommandOption σ)
  /-- What becomes of a word that belongs to no option; there may be one. -/
  operand : Option (String → σ → Except UsageError σ) := none
  /-- The names of commands. -/
  commands : List String := []

/-! ### Options that change part of a state -/

namespace OptionUse

variable {σ τ : Type}

/-- An option that may be given once. -/
def switch (isGiven : σ → Bool) (set : σ → σ) : OptionUse σ :=
  .flag fun s => if isGiven s then .error .repeatedOption else .ok (set s)

/-- An option with a value that may be given once. -/
def single {α : Type} (given : σ → Option α) (read : String → Except UsageError α)
    (set : α → σ → σ) : OptionUse σ :=
  .value fun word s =>
    if (given s).isSome then .error .repeatedOption else (read word).map fun x => set x s

/-- An option that ends the reading. -/
def stop (e : UsageError) : OptionUse σ := .flag fun _ => .error e

/-- The same option for a state that holds more. -/
def inside (get : τ → σ) (put : σ → τ → τ) : OptionUse σ → OptionUse τ
  | flag set => .flag fun t => (set (get t)).map fun s => put s t
  | value set => .value fun word t => (set word (get t)).map fun s => put s t

end OptionUse

/-- The same option for a state that holds more. -/
def CommandOption.inside {σ τ : Type} (get : τ → σ) (put : σ → τ → τ) (o : CommandOption σ) :
    CommandOption τ :=
  ⟨o.name, o.letter, o.use.inside get put⟩

/-! ### What is given -/

/-- An option or an operand as it is given. -/
inductive Given (σ : Type) where
  | flag (set : σ → Except UsageError σ)
  /-- With its value, if that has come. -/
  | value (set : String → σ → Except UsageError σ) (word : Option String)

namespace Given

variable {σ : Type}

def apply (s : σ) : Given σ → Except UsageError σ
  | flag set => set s
  | value _ none => .error .invalidValue
  | value set (some word) => set word s

/-- Takes up what is not settled yet. -/
def settle (s : σ) (pending : Option (Given σ)) : Except UsageError σ :=
  match pending with
  | some g => g.apply s
  | none => .ok s

/-- The next word is its value. -/
def awaitsValue : Given σ → Bool
  | value _ none => true
  | _ => false

end Given

/-! ### Reading words -/

/-- Where the reading ended. -/
structure Halt (σ : Type) where
  state : σ
  /-- What was given last, if it is not taken up in the state yet. -/
  pending : Option (Given σ)
  /-- The name of a command with the words that follow it. -/
  command : Option (String × List String) := none

/-- A word by its form. -/
inductive WordForm where
  /-- The word `--`. -/
  | separator
  /-- The form `--name` or `--name=value`. -/
  | named (name : String) (value : Option String)
  /-- The form `-abc`. -/
  | cluster (letters : List Char)
  | plain

def WordForm.of (word : String) : WordForm :=
  match word.toList with
  | ['-', '-'] => .separator
  | '-' :: '-' :: cs =>
    .named (String.ofList (cs.takeWhile (· != '=')))
      (match cs.dropWhile (· != '=') with
        | _ :: value => some (String.ofList value)
        | [] => none)
  | '-' :: c :: cs => .cluster (c :: cs)
  | _ => .plain

namespace Grammar

variable {σ : Type} (g : Grammar σ)

/-- The fault in a word that has no place. -/
def misplaced : UsageError := if g.commands.isEmpty then .unknownOption else .unknownCommand

/-- Reads the letters of a cluster; the last may leave an option that waits for its value. -/
def readCluster (s : σ) (pending : Option (Given σ)) :
    List Char → Except UsageError (σ × Option (Given σ))
  | [] => .ok (s, pending)
  | c :: cs => do
    match g.options.find? fun o => o.letter == some c with
    | none => throw .unknownOption
    | some o =>
      let s ← Given.settle s pending
      match o.use, cs with
      | .flag set, cs => readCluster (← set s) none cs
      | .value set, [] => return (s, some (.value set none))
      | .value set, '=' :: cs => return (← set (String.ofList cs) s, none)
      | .value set, cs => return (← set (String.ofList cs) s, none)

/-- Reads an option in its long form. -/
def readNamed (s : σ) (pending : Option (Given σ)) (name : String) (value : Option String) :
    Except UsageError (σ × Option (Given σ)) := do
  match g.options.find? fun o => o.name == name with
  | none => throw .unknownOption
  | some o =>
    match o.use, value with
    | .flag _, some _ => throw .unexpectedValue
    | .flag set, none => return (← set (← Given.settle s pending), none)
    | .value set, some word => return (← set word (← Given.settle s pending), none)
    | .value set, none => return (← Given.settle s pending, some (.value set none))

/-- Reads words that are operands all. -/
def readOperands (operand : Option (String → σ → Except UsageError σ)) (s : σ)
    (pending : Option (Given σ)) : List String → Except UsageError (Halt σ)
  | [] => .ok { state := s, pending }
  | word :: words => do
    match operand with
    | some set => readOperands none (← Given.settle s pending) (some (.value set (some word))) words
    | none => throw (if g.commands.contains word then .unknownOption else g.misplaced)

/-- Reads words up to the name of a command. -/
def readFrom (operand : Option (String → σ → Except UsageError σ)) (s : σ)
    (pending : Option (Given σ)) : List String → Except UsageError (Halt σ)
  | [] => .ok { state := s, pending }
  | word :: words => do
    if !pending.any Given.awaitsValue && g.commands.contains word then
      return { state := s, pending, command := some (word, words) }
    match WordForm.of word with
    | .separator => g.readOperands operand s pending words
    | .named name value =>
      let (s, pending) ← g.readNamed s pending name value
      readFrom operand s pending words
    | .cluster letters =>
      let (s, pending) ← g.readCluster s pending letters
      readFrom operand s pending words
    | .plain =>
      match pending, operand with
      | some (.value set none), operand => readFrom operand s (some (.value set (some word))) words
      | pending, some set =>
        readFrom none (← Given.settle s pending) (some (.value set (some word))) words
      | _, none => throw g.misplaced

/-- Reads words up to the name of a command. -/
def read (s : σ) (words : List String) : Except UsageError (Halt σ) :=
  g.readFrom g.operand s none words

end Grammar

/-- The state with all taken up. -/
def Halt.settled {σ : Type} (h : Halt σ) : Except UsageError σ := Given.settle h.state h.pending

end SheetAudit
