import FrameAlign.Command.Summary
import FrameAlign.Files.Output
import FrameAlign.Policy.Reader

/-!
# Loading files

The command that loads files and directories into an empty workspace, and then reports on the
traces and exports them. What can be checked beforehand is checked without reading any file.
-/

namespace FrameAlign

/-- What to load and what to do with it. -/
structure LoadCommand where
  /-- Files and directories, in the order in which they are loaded. -/
  inputs : List String
  /-- The file for the report, which is printed otherwise. -/
  reportPath : Option String := none
  /-- The directory for the files behind the traces in use. -/
  exportRoot : Option String := none
  policyPath : Option String := none
  /-- Whether a summary is printed. -/
  summary : Bool := false
deriving DecidableEq

/-- Why a command cannot work. -/
inductive LoadFault where
  | noInput
  | missingInput (path : String)
  | reportIsDirectory (path : String)
  | exportIsFile (path : String)
  | missingPolicy (path : String)
deriving DecidableEq

/-- A fault in words. -/
def LoadFault.message : LoadFault → String
  | .noInput => "At least one input path is required"
  | .missingInput path => "Input does not exist: " ++ path
  | .reportIsDirectory path => "Report path is a directory: " ++ path
  | .exportIsFile path => "Export directory is a file: " ++ path
  | .missingPolicy path => "Policy file not found: " ++ path

/-- Why a command broke off. -/
inductive LoadError where
  | policy (path : String) (cause : PolicyError)
  | inputs
  | report (cause : OutputError)
  | archive (root : String) (cause : OutputError)
deriving DecidableEq

/-- An error in words. -/
def LoadError.message : LoadError → String
  | .policy path _ => "Failed to load policy from " ++ path
  | .inputs => "Failed to read input files"
  | .report _ => "Failed to write report JSON"
  | .archive root _ => "Failed to export traces to " ++ root

variable {m : Type → Type} [Monad m] [FileStore m]

/-- The policy in a file. -/
def readPolicy (path : String) : ExceptT PolicyError m Policy := do
  match ← ExceptT.lift (FileStore.read? path) with
  | some bytes => ExceptT.mk (pure (Policy.ofBytes bytes))
  | none => throw .unreadable

/-- The policy in a file, or the usual one. -/
def readPolicyIfAny (path : Option String) : ExceptT PolicyError m Policy :=
  match path with
  | some path => readPolicy path
  | none => return {}

namespace LoadCommand

/-- Every path has fewer parts than this. -/
def maxPathParts : Nat := 4096

/--
The files at or below a path, directories in the order of the names in them. What lies deeper than
any path can reach is left out.
-/
def filesBelow (path : String) : Nat → m (List String)
  | 0 => return []
  | depth + 1 => do
    if (← FileStore.kind? path) = some .directory then
      let names := (← FileStore.names path).mergeSort fun a b => decide (a ≤ b)
      let lists ← names.mapM fun name =>
        filesBelow (String.ofList (FilePath.join path.toList name.toList)) depth
      return lists.flatten
    else return [path]

/-- The file at a path as a container. -/
def readContainer (path : String) : ExceptT LoadError m TraceFile := do
  match ← ExceptT.lift (FileStore.read? path) with
  | some data => return { name := path, data }
  | none => throw .inputs

/-- The containers at and below some paths. -/
def readContainers (inputs : List String) : ExceptT LoadError m (List TraceFile) := do
  let lists ← ExceptT.lift (inputs.mapM fun path => filesBelow path maxPathParts)
  lists.flatten.mapM readContainer

/-- The fault of a path, if what it leads to is none of what it should. -/
def faultAt (isWrong : Option PathKind → Bool) (fault : String → LoadFault) (path : String) :
    OptionT m LoadFault := do
  if isWrong (← OptionT.lift (FileStore.kind? path)) then return fault path else failure

/-- The first fault that shows before the command runs. -/
def fault? (c : LoadCommand) : OptionT m LoadFault :=
  (if c.inputs.isEmpty then return .noInput else failure) <|>
    c.inputs.firstM (faultAt (· = none) .missingInput) <|>
    c.reportPath.toList.firstM (faultAt (· = some .directory) .reportIsDirectory) <|>
    c.exportRoot.toList.firstM (faultAt (· = some .file) .exportIsFile) <|>
    c.policyPath.toList.firstM (faultAt (· ≠ some .file) .missingPolicy)

variable [Screen m]

/-- Writes the report, or prints it if there is no file for it. -/
def putReport (c : LoadCommand) (report : Json.Value) : ExceptT LoadError m Unit :=
  match c.reportPath with
  | some path => (writeReport report path).adapt LoadError.report
  | none => ExceptT.lift (printLines [report.pretty])

/-- Runs the command, `now` nanoseconds after the start of 1970. -/
def run (c : LoadCommand) (now : Int) : ExceptT LoadError m LoadReport := do
  let policy ← (readPolicyIfAny c.policyPath).adapt (.policy (c.policyPath.getD ""))
  let containers ← readContainers c.inputs
  let outcome := Workspace.load { relations := policy.relations }
    (Workspace.withPolicy policy.merging) containers now
  c.putReport (outcome.workspace.report outcome.report now)
  if let some root := c.exportRoot then
    discard ((outcome.workspace.registry.archive.write root).adapt (.archive root))
  if c.summary then
    ExceptT.lift (printLines (loadSummary outcome.workspace outcome.report))
  return outcome.report

end LoadCommand

end FrameAlign
