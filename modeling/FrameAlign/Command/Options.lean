/-!
# Options and operands

A command line is read from left to right, and the first word that breaks the rules or asks for
help ends it. An option has a long name, and some have a letter; letters can be written together.
Options come at most once. The word `--` makes operands of all words after it.
-/

namespace FrameAlign

/-- What an option is for. -/
inductive OptionKind where
  | switch
  /-- An option with a value, which is in the same word or the next one. -/
  | value
  | help
  | version
deriving DecidableEq

/-- An option that a command knows. -/
structure OptionSpec where
  name : String
  letter : Option Char := none
  kind : OptionKind
deriving DecidableEq

/-- What a command does with words that are no options. -/
inductive OperandRule where
  | refuse
  | collect
  /-- Leaves the first one and all words after it to others. -/
  | stop
deriving DecidableEq

/-- What a command takes. -/
structure Grammar where
  options : List OptionSpec
  operands : OperandRule := .refuse

/-- Why a command line is not followed. -/
inductive Interruption where
  | help
  | version
  | misuse
deriving DecidableEq

/-- What was read of a command line. -/
structure Given where
  /-- The names of the options with their values; a switch has an empty one. -/
  options : List (String × String) := []
  operands : List String := []

namespace Given

/-- Whether an option was given. -/
def has (g : Given) (name : String) : Bool := (g.options.lookup name).isSome

/-- The value of an option. -/
def value? (g : Given) (name : String) : Option String := g.options.lookup name

/-- Takes an option in; it must be new, and if it has a value that must not be empty. -/
def add (g : Given) (spec : OptionSpec) (value : String) : Except Interruption Given :=
  match spec.kind with
  | .help => .error .help
  | .version => .error .version
  | .switch | .value =>
    if g.has spec.name || (spec.kind = .value && value.isEmpty) then .error .misuse
    else .ok { g with options := g.options ++ [(spec.name, value)] }

/-- Takes an operand in, which must not be empty. -/
def addOperand (g : Given) (word : String) : Except Interruption Given :=
  if word.isEmpty then .error .misuse else .ok { g with operands := g.operands ++ [word] }

end Given

/-- How a word is spelled. -/
inductive Spelling where
  | operand
  /-- Two dashes. -/
  | separator
  /-- Two dashes, a name and maybe an equals sign with a value. -/
  | long (name : String) (value : Option String)
  /-- A dash and letters, behind which a value may stand. -/
  | letters (cs : List Char)

/-- How a word is spelled; a single dash is an operand. -/
def Spelling.of (word : String) : Spelling :=
  match word.toList with
  | ['-', '-'] => .separator
  | '-' :: '-' :: rest =>
    let value :=
      match rest.dropWhile (· ≠ '=') with
      | [] => none
      | _ :: value => some (String.ofList value)
    .long (String.ofList (rest.takeWhile (· ≠ '='))) value
  | '-' :: c :: rest => .letters (c :: rest)
  | _ => .operand

namespace Grammar

/-- Reads letters. If the last one stands for an option whose value is yet to come, says which. -/
def readLetters (g : Grammar) (given : Given) :
    List Char → Except Interruption (Given × Option OptionSpec)
  | [] => .ok (given, none)
  | c :: rest =>
    match g.options.find? (·.letter = some c) with
    | none => .error .misuse
    | some spec =>
      if spec.kind = .value then
        match rest with
        | [] => .ok (given, some spec)
        | '=' :: value => return (← given.add spec (String.ofList value), none)
        | value => return (← given.add spec (String.ofList value), none)
      else do
        readLetters g (← given.add spec "") rest

/-- Reads a long name, in the same way. -/
def readLong (g : Grammar) (given : Given) (name : String) (value : Option String) :
    Except Interruption (Given × Option OptionSpec) :=
  match g.options.find? (·.name = name) with
  | none => .error .misuse
  | some spec =>
    match decide (spec.kind = .value), value with
    | true, none => .ok (given, some spec)
    | true, some value => return (← given.add spec value, none)
    | false, none => return (← given.add spec "", none)
    | false, some _ => .error .misuse

/-- Reads words; `awaited` is an option whose value must come next. Says which words are left. -/
def readFrom (g : Grammar) (given : Given) (awaited : Option OptionSpec) :
    List String → Except Interruption (Given × List String)
  | [] => if awaited.isSome then .error .misuse else .ok (given, [])
  | word :: rest => do
    match Spelling.of word, awaited with
    | .operand, some spec => readFrom g (← given.add spec word) none rest
    | _, some _ => .error .misuse
    | .long name value, none =>
      let (given, next) ← g.readLong given name value
      readFrom g given next rest
    | .letters cs, none =>
      let (given, next) ← g.readLetters given cs
      readFrom g given next rest
    | .separator, none =>
      match g.operands with
      | .collect => return (← rest.foldlM Given.addOperand given, [])
      | .refuse => if rest.isEmpty then return (given, []) else .error .misuse
      | .stop => .error .misuse
    | .operand, none =>
      match g.operands with
      | .collect => readFrom g (← given.addOperand word) none rest
      | .refuse => .error .misuse
      | .stop => return (given, word :: rest)

/-- Reads words. Says what they give and which of them are left. -/
def read (g : Grammar) (words : List String) : Except Interruption (Given × List String) :=
  g.readFrom {} none words

end Grammar

end FrameAlign
