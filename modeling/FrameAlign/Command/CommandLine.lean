import FrameAlign.Command.Load
import FrameAlign.Command.Options

/-!
# The command line

Three commands: one that loads files, one that lists the relations and one that tells the version.
-/

namespace FrameAlign

/-- What the program can be told to do. -/
inductive Command where
  | load (command : LoadCommand)
  /-- Lists the relations with the gaps of a policy. -/
  | relations (policyPath : Option String)
  | version
deriving DecidableEq

namespace CommandLine

/-- The options that every command takes. -/
def commonOptions : List OptionSpec :=
  [{ name := "verbose", letter := some 'v', kind := .switch },
    { name := "help", letter := some 'h', kind := .help }]

/-- What may stand in front of a command. -/
def outer : Grammar :=
  { options := commonOptions ++ [{ name := "version", letter := some 'V', kind := .version }]
    operands := .stop }

/-- The option that names the file of a policy. -/
def policyOption : OptionSpec := { name := "config", letter := some 'c', kind := .value }

/-- What loading takes. -/
def load : Grammar :=
  { options := commonOptions ++
      [{ name := "output", letter := some 'o', kind := .value },
        { name := "export", kind := .value }, policyOption,
        { name := "summary", kind := .switch }]
    operands := .collect }

/-- What listing the relations takes. -/
def relations : Grammar := { options := commonOptions ++ [policyOption] }

/-- What telling the version takes. -/
def version : Grammar := { options := commonOptions }

/-- The commands by name. -/
def commandNames : List String := ["load", "relations", "version"]

/-- The command to load what was given; the policy may also come from the environment. -/
def loadCommand (given : Given) (envPolicy : Option String) : Except Interruption LoadCommand :=
  let policyPath := given.value? "config" <|> envPolicy
  if given.operands.isEmpty || policyPath = some "" then .error .misuse
  else
    .ok {
      inputs := given.operands
      reportPath := given.value? "output"
      exportRoot := given.value? "export"
      policyPath
      summary := given.has "summary" }

/-- The command that words name and describe. -/
def parseCommand (envPolicy : Option String) : List String → Except Interruption Command
  | "load" :: words => do return .load (← loadCommand (← load.read words).1 envPolicy)
  | "relations" :: words => do return .relations ((← relations.read words).1.value? "config")
  | "version" :: words => do
    discard (version.read words)
    return .version
  | ["help"] => .error .help
  | ["help", name] =>
    .error (if name = "help" || commandNames.contains name then .help else .misuse)
  | _ => .error .misuse

/-- The command that a command line asks for. -/
def parse (words : List String) (envPolicy : Option String) : Except Interruption Command := do
  let (_, rest) ← outer.read words
  parseCommand envPolicy rest

end CommandLine

end FrameAlign
