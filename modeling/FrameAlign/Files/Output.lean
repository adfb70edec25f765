import FrameAlign.Archive.Basic
import FrameAlign.Files.Path
import FrameAlign.Files.Store
import FrameAlign.Loading.Report

/-!
# Writing archives and reports

An archive is written as a tree of files below a directory, and no path of it may lead out of that
directory. Directories that are missing are made. What was written before a failure stays.
-/

namespace FrameAlign

/-- Why nothing can be written at a path. -/
inductive PathFault where
  | empty
  | isDirectory (path : String)
  /-- The directory for an archive is a file. -/
  | targetIsFile (path : String)
  /-- A path of an archive may lead out of it. -/
  | leadsOut (path : String)
  /-- A directory on the way cannot be made. -/
  | noDirectory (path : String)
deriving DecidableEq

/-- A fault in words. -/
def PathFault.message : PathFault → String
  | .empty => "Path is empty"
  | .isDirectory path => "Path is a directory: " ++ path
  | .targetIsFile path => "Export target is a file: " ++ path
  | .leadsOut path => "Unsafe archive path: " ++ path
  | .noDirectory path => "Cannot create directory " ++ path

/-- Why an output was not written. -/
inductive OutputError where
  | invalidPath (fault : PathFault)
  | writeFailed
deriving DecidableEq

/-- An error in words. -/
def OutputError.message : OutputError → String
  | .invalidPath fault => "Invalid output path: " ++ fault.message
  | .writeFailed => "Failed to write file"

namespace Output

variable {m : Type → Type} [Monad m] [FileStore m]

/-- What a path leads to. -/
def kindOf? (path : String) : ExceptT OutputError m (Option PathKind) :=
  ExceptT.lift (FileStore.kind? path)

/-- Gives up with a fault. -/
def refuse {α : Type} (fault : PathFault) : ExceptT OutputError m α := throw (.invalidPath fault)

/-- Makes the directory that a path lies in, unless there is something in its place already. -/
def makeParent (path : String) : ExceptT OutputError m Unit := do
  match FilePath.parent? path.toList with
  | none | some [] => return
  | some parent =>
    let parent := String.ofList parent
    if (← kindOf? parent).isNone then
      unless ← ExceptT.lift (FileStore.makeDirectories parent) do
        refuse (.noDirectory parent)

/-- Writes a file and the directories above it. -/
def writeFile (path : String) (data : ByteArray) : ExceptT OutputError m Unit := do
  makeParent path
  unless ← ExceptT.lift (FileStore.write path data) do throw .writeFailed

/-- Writes a file of an archive below a directory and says where. -/
def writeEntry (root : String) (e : ArchiveEntry) : ExceptT OutputError m String := do
  if FilePath.isDownward e.path.toList then
    let path := String.ofList (FilePath.join root.toList e.path.toList)
    writeFile path e.data
    return path
  else refuse (.leadsOut e.path)

end Output

open Output

variable {m : Type → Type} [Monad m] [FileStore m]

/-- Writes the files of an archive below a directory, in order, and says where. -/
def Archive.write (a : Archive) (root : String) : ExceptT OutputError m (List String) := do
  if (← kindOf? root) = some .file then refuse (.targetIsFile root)
  else a.entries.mapM (writeEntry root)

/-- Writes a report to a file. -/
def writeReport (report : Json.Value) (path : String) : ExceptT OutputError m Unit := do
  if path.isEmpty then refuse .empty
  else if (← kindOf? path) = some .directory then refuse (.isDirectory path)
  else writeFile path report.pretty.toUTF8

end FrameAlign
