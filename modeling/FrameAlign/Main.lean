import Std.Time.DateTime.Timestamp
import FrameAlign.Command.Program

/-!
# Running the program

The program on real files, with the words of its command line, the environment and the clock.
-/

namespace FrameAlign

/-- The entry at a path, as file operations want it. -/
def entryAt (path : String) : IO.FS.DirEntry := { root := path, fileName := "" }

/-- What an action yields, unless it fails. -/
def attempt {α : Type} (action : IO α) : IO (Option α) :=
  try some <$> action catch _ => return none

/-- The files of the machine. What the system refuses is answered as if it were not there. -/
instance : FileStore IO where
  kind? path := do
    match ← attempt (entryAt path).root.metadata with
    | some data => return some (if data.type matches .dir then .directory else .file)
    | none => return none
  read? path := attempt (IO.FS.readBinFile path)
  names path := do
    return ((← attempt (entryAt path).root.readDir).getD #[]).toList.map (·.fileName)
  makeDirectories path := return (← attempt (IO.FS.createDirAll path)).isSome
  write path data := return (← attempt (IO.FS.writeBinFile path data)).isSome

/-- Text goes to the standard output and complaints to the standard error. -/
instance : Screen IO where
  print text := IO.print text
  complain text := IO.eprint text

end FrameAlign

open FrameAlign in
/-- Runs the program. -/
def main (words : List String) : IO UInt32 := do
  let envPolicy ← IO.getEnv "TRACE_FRAMES_CONFIG"
  let now ← Std.Time.Timestamp.now
  runProgram words envPolicy now.toNanosecondsSinceUnixEpoch.val
