import FrameAlign.Command.CommandLine

/-!
# The program

What the program shows for a command line and which code it ends with: 0 if it could do what it was
told, 1 if that failed, and 2 if it could not tell what to do.
-/

namespace FrameAlign

/-- The name of the program. -/
def programName : String := "trace-frames"

/-- The version of the program. -/
def programVersion : String := "0.1.0"

/-- The lines about the version. -/
def versionListing : List String :=
  [programName ++ " v" ++ programVersion, "Report Schema: v" ++ reportVersion, "",
    "Merges UI traces from several recordings and correlates them by display frame."]

/-- The lines about how the program is used. -/
def usageListing : List String :=
  ["Usage: " ++ programName ++ " [-v] load <PATH>... [-o <FILE>] [--export <DIR>] [-c <FILE>]" ++
      " [--summary]",
    "       " ++ programName ++ " [-v] relations [-c <FILE>]",
    "       " ++ programName ++ " [-v] version"]

variable {m : Type → Type} [Monad m] [FileStore m] [Screen m]

/-- Runs a command and says in words why it failed. -/
def Command.run (now : Int) : Command → ExceptT String m Unit
  | .load command => do
    match ← ExceptT.lift command.fault?.run with
    | some fault => throw fault.message
    | none => discard ((command.run now).adapt LoadError.message)
  | .relations policyPath => do
    let policy ← (readPolicyIfAny policyPath).adapt PolicyError.message
    ExceptT.lift (printLines (relationListing policy.relations))
  | .version => ExceptT.lift (printLines versionListing)

/-- Runs the program, `now` nanoseconds after the start of 1970, and gives its exit code. -/
def runProgram (words : List String) (envPolicy : Option String) (now : Int) : m UInt32 := do
  match CommandLine.parse words envPolicy with
  | .error .help =>
    printLines usageListing
    return 0
  | .error .version =>
    printLines [programName ++ " " ++ programVersion]
    return 0
  | .error .misuse =>
    Screen.complain (String.join (usageListing.map (· ++ "\n")))
    return 2
  | .ok command =>
    match ← (command.run now).run with
    | .ok () => return 0
    | .error message =>
      Screen.complain ("Error: " ++ message ++ "\n")
      return 1

end FrameAlign
