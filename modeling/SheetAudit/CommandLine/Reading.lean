import SheetAudit.CommandLine.Grammar

/-!
# Reading command lines

A command line names a command, with options that all commands share before or after the name and
with those of the command after it.

## Main definitions

* `SharedOptions`, `AuditOptions`, `InitOptions` — what was given of the options of each kind.
* `Invocation.read` — what a command line asks for.
-/

namespace SheetAudit

/-! ### Values -/

/-- A path, which has at least one character. -/
def readPath (word : String) : Except UsageError String :=
  if word.isEmpty then .error .invalidValue else .ok word

/-- One of a few words, in their exact form. -/
def readExact {α : Type} (choices : List (String × α)) (word : String) : Except UsageError α :=
  match choices.lookup word with
  | some choice => .ok choice
  | none => .error .invalidValue

/-- One of a few choices, in any letter case. -/
def readChoice {α : Type} (read : String → Except UnknownChoice α) (word : String) :
    Except UsageError α :=
  (read word).mapError fun _ => .rejectedValue

/-! ### Options of all commands -/

/-- What was given of the options that all commands share. -/
structure SharedOptions where
  verbosity : Nat := 0
  quiet : Bool := false
  color : Option ColorUse := none
  noSettings : Bool := false
  settings : Option String := none
  deriving Repr, DecidableEq

namespace SharedOptions

/-- Verbosity is counted up to here. -/
def maxVerbosity : Nat := 255

def options : List (CommandOption SharedOptions) :=
  [{ name := "help", letter := 'h', use := .stop .helpWanted },
    { name := "verbose", letter := 'v',
      use := .flag fun s => .ok { s with verbosity := min maxVerbosity (s.verbosity + 1) } },
    { name := "quiet", letter := 'q', use := .switch quiet fun s => { s with quiet := true } },
    { name := "color",
      use := .single color (readExact [("auto", .auto), ("always", .always), ("never", .never)])
        fun x s => { s with color := some x } },
    { name := "no-config", use := .switch noSettings fun s => { s with noSettings := true } },
    { name := "config", letter := 'c',
      use := .single settings readPath fun x s => { s with settings := some x } }]

/-- What is given after the name of a command goes before what is given ahead of it. -/
def orElse (inner outer : SharedOptions) : SharedOptions where
  verbosity := if inner.verbosity = 0 then outer.verbosity else inner.verbosity
  quiet := inner.quiet || outer.quiet
  color := inner.color <|> outer.color
  noSettings := inner.noSettings || outer.noSettings
  settings := inner.settings <|> outer.settings

def invocation (s : SharedOptions) (command : Command) : Invocation where
  verbosity := s.verbosity
  quiet := s.quiet
  color := s.color.getD .auto
  noSettings := s.noSettings
  settings := s.settings
  command := command

end SharedOptions

/-! ### The commands -/

/-- What was given after the name of a command. -/
structure CommandOptions (σ : Type) where
  shared : SharedOptions := {}
  own : σ

namespace CommandOptions

variable {σ : Type}

/-- The grammar of a command with options and an operand of its own. -/
def grammar (own : List (CommandOption σ))
    (operand : Option (String → σ → Except UsageError σ)) : Grammar (CommandOptions σ) where
  options :=
    SharedOptions.options.map (·.inside shared fun s t => { t with shared := s }) ++
      own.map (·.inside CommandOptions.own fun s t => { t with own := s })
  operand := operand.map fun set word t => (set word t.own).map fun s => { t with own := s }

end CommandOptions

/-- What was given of the options of an audit. -/
structure AuditOptions where
  path : Option String := none
  format : Option ReportFormat := none
  output : Option String := none
  plan : Bool := false
  planFormat : Option PlanFormat := none
  planOutput : Option String := none
  grouping : Option Grouping := none
  failOn : Option (Option Severity) := none
  sequential : Bool := false
  exclude : List String := []
  deriving Repr, DecidableEq

namespace AuditOptions

def options : List (CommandOption AuditOptions) :=
  [{ name := "format", letter := 'f',
      use := .single format (readChoice ReportFormat.read) fun x s => { s with format := some x } },
    { name := "output", letter := 'o',
      use := .single output readPath fun x s => { s with output := some x } },
    { name := "plan", use := .switch plan fun s => { s with plan := true } },
    { name := "plan-format",
      use := .single planFormat (readChoice PlanFormat.read)
        fun x s => { s with planFormat := some x } },
    { name := "plan-output",
      use := .single planOutput readPath fun x s => { s with planOutput := some x } },
    { name := "group-by",
      use := .single grouping (readChoice Grouping.read) fun x s => { s with grouping := some x } },
    { name := "fail-on",
      use := .single failOn
        (readExact [("critical", some .critical), ("moderate", some .moderate),
          ("minor", some .minor), ("never", none)])
        fun x s => { s with failOn := some x } },
    { name := "sequential",
      use := .switch sequential fun s => { s with sequential := true } },
    { name := "exclude", letter := 'x',
      use := .value fun word s => .ok { s with exclude := s.exclude ++ [word] } }]

def grammar : Grammar (CommandOptions AuditOptions) :=
  CommandOptions.grammar options
    (some fun word s => (readPath word).map fun x => { s with path := some x })

/-- The request, with the ordinary values where nothing was given. -/
def request (s : AuditOptions) : AuditRequest :=
  let d : AuditRequest := {}
  { path := s.path.getD d.path
    format := s.format.getD d.format
    output := s.output
    plan := s.plan
    planFormat := s.planFormat.getD d.planFormat
    planOutput := s.planOutput
    grouping := s.grouping.getD d.grouping
    failOn := s.failOn.getD d.failOn
    sequential := s.sequential
    exclude := s.exclude }

end AuditOptions

/-- What was given of the options of writing a settings file. -/
structure InitOptions where
  output : Option String := none
  force : Bool := false
  deriving Repr, DecidableEq

namespace InitOptions

def options : List (CommandOption InitOptions) :=
  [{ name := "output", letter := 'o',
      use := .single output readPath fun x s => { s with output := some x } },
    { name := "force", use := .switch force fun s => { s with force := true } }]

def grammar : Grammar (CommandOptions InitOptions) := CommandOptions.grammar options none

/-- The request, with the ordinary values where nothing was given. -/
def request (s : InitOptions) : InitRequest :=
  let d : InitRequest := {}
  { output := s.output.getD d.output, force := s.force }

end InitOptions

/-! ### Whole command lines -/

namespace Invocation

def commands : List String := ["audit", "init", "help"]

/-- The grammar of what stands before the name of a command. -/
def grammar : Grammar SharedOptions where
  options :=
    { name := "version", letter := 'V', use := .stop .versionWanted } :: SharedOptions.options
  commands := commands

/-- The answer to `help` with the names of commands, one inside the other; no command has any
inside. -/
def helpFor : List String → UsageError
  | [] => .helpWanted
  | [name] => if commands.contains name then .helpWanted else .unknownCommand
  | _ => .unknownCommand

/-- The words after the name of a command. -/
def readCommand {σ : Type} (g : Grammar (CommandOptions σ)) (start : σ) (make : σ → Command)
    (words : List String) : Except UsageError (SharedOptions × Command) := do
  let given ← (← g.read { own := start } words).settled
  return (given.shared, make given.own)

/-- What a command line asks for. -/
def read (words : List String) : Except UsageError Invocation := do
  let front ← grammar.read {} words
  match front.command with
  | none => throw (if (← front.settled) = {} then .nothingGiven else .noCommand)
  | some (name, words) =>
    let (inner, command) ←
      if name == "audit" then readCommand AuditOptions.grammar {} (.audit ·.request) words
      else if name == "init" then readCommand InitOptions.grammar {} (.init ·.request) words
      else throw (helpFor words)
    return (inner.orElse (← front.settled)).invocation command

end Invocation
end SheetAudit
