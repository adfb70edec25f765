/-!
# File stores

What a command may do with files and with its reader's screen. Programs are written for any monad
that offers these operations, so that they run on real files as well as on a tree in memory.
-/

namespace FrameAlign

/-- What a path leads to. -/
inductive PathKind where
  | file
  | directory
deriving DecidableEq, Repr

/-- The operations on files. Those that can fail say whether they worked. -/
class FileStore (m : Type → Type) where
  /-- What a path leads to, if anything. -/
  kind? : String → m (Option PathKind)
  /-- The bytes of a file. -/
  read? : String → m (Option ByteArray)
  /-- The names in a directory in any order; none for what is no directory. -/
  names : String → m (List String)
  /-- Makes a directory and those above it, as far as they are missing. -/
  makeDirectories : String → m Bool
  /-- Writes a file, which must not be a directory and must lie in one. -/
  write : String → ByteArray → m Bool

/-- The operations on a screen. -/
class Screen (m : Type → Type) where
  /-- Shows a text that belongs to the answer. -/
  print : String → m Unit
  /-- Shows a text about a failure. -/
  complain : String → m Unit

/-- Shows lines that belong to the answer. -/
def printLines {m : Type → Type} [Screen m] (lines : List String) : m Unit :=
  Screen.print (String.join (lines.map (· ++ "\n")))

end FrameAlign
