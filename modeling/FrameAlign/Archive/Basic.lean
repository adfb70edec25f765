import FrameAlign.Registry.Basic

/-!
# Archives of the traces in use

The files behind the traces in use are laid out for a download: the session file at the top and
every single file in the directory of its category. A file whose extension is not recognized gets
one, and a path that is taken already is told apart by a number before its extension.
-/

namespace FrameAlign

/-- A file of an archive. -/
structure ArchiveEntry where
  /-- The path inside of the archive, its parts set off by `/`. -/
  path : String
  data : ByteArray

/-- Two entries are the same if they agree on the path and byte for byte, so what an archive holds
can be compared in tests. -/
instance : DecidableEq ArchiveEntry := fun a b =>
  letI := ByteArray.decEq a.data b.data
  decidable_of_iff (a.path = b.path ∧ a.data = b.data) (by cases a; cases b; simp)

/-- The files of an archive in order. -/
structure Archive where
  entries : List ArchiveEntry := []
deriving DecidableEq

namespace Archive

/-- The paths of the files. -/
def paths (a : Archive) : List String := a.entries.map (·.path)

/-- Whether there are no files. -/
def isEmpty (a : Archive) : Bool := a.entries.isEmpty

/-- The number of bytes of all files. -/
def totalSize (a : Archive) : Nat := a.entries.foldl (fun total e => total + e.data.size) 0

/-- The default extension of a session file. -/
def sessionExtension : String := ".perfetto-trace"

/-- The extensions that a session file may keep. -/
def sessionExtensions : List String := [".perfetto-trace", ".pftrace", ".perfetto", ".json"]

/-- The base name of a file, with the fallback behind it unless its extension is recognized. -/
def fileName (recognized : List String) (fallback : String) (f : TraceFile) : List Char :=
  match f.extension? with
  | some ext => if ext ∈ recognized then f.baseName else f.baseName ++ fallback.toList
  | none => f.baseName ++ fallback.toList

/-- The path that a file of a category should have. -/
def legacyPath (c : Category) (f : TraceFile) : List Char :=
  let name := fileName c.recognizedExtensions c.defaultExtension f
  match c.archiveDir? with
  | some dir => dir.toList ++ '/' :: name
  | none => name

/-- The path with a number in parentheses before the extension of its last part. -/
def numbered (path : List Char) (n : Nat) : List Char :=
  let last := (path.reverse.takeWhile (· ≠ '/')).reverse
  let front := (path.reverse.dropWhile (· ≠ '/')).reverse
  let (stem, ext) := FileName.split last
  front ++ stem ++ " (".toList ++ Nat.toDigits 10 n ++ ')' :: ext

/-- Different numbers make different paths. -/
theorem numbered_inj {path : List Char} {m n : Nat} (h : numbered path m = numbered path n) :
    m = n := by
  simp only [numbered, List.append_assoc, List.append_cancel_left_eq] at h
  have hdigits : Nat.toDigits 10 m = Nat.toDigits 10 n := List.append_cancel_right h
  have hvalue := congrArg (Nat.ofDigitChars 10 · 0) hdigits
  simpa using hvalue

/-- The taken paths other than the path with a number below `n`. -/
def untried (taken : List String) (path : List Char) (n : Nat) : List String :=
  taken.filter fun p => p ∉ (List.range n).map fun m => String.ofList (numbered path m)

/-- A number that is tried in vain uses up a taken path. -/
theorem length_untried_lt {taken : List String} {path : List Char} {n : Nat}
    (h : String.ofList (numbered path n) ∈ taken) :
    (untried taken path (n + 1)).length < (untried taken path n).length := by
  have hnew : String.ofList (numbered path n) ∈ untried taken path n := by
    refine List.mem_filter.mpr ⟨h, ?_⟩
    simp only [decide_eq_true_eq, List.mem_map, List.mem_range, not_exists, not_and]
    intro m hm heq
    have hsame := numbered_inj (String.ofList_injective heq)
    omega
  have hnext : untried taken path (n + 1) =
      (untried taken path n).filter (· ≠ String.ofList (numbered path n)) := by
    rw [untried, untried, List.filter_filter]
    apply List.filter_congr
    intro p _
    rw [List.range_succ, List.map_append]
    simp [and_comm]
  rw [hnext, List.length_filter_lt_length_iff_exists]
  exact ⟨_, hnew, by simp⟩

/--
The first free path among those with the numbers from `n` on. Only finitely many paths are taken
and each number makes another path, so there is one.
-/
def firstFree (taken : List String) (path : List Char) (n : Nat) : String :=
  let candidate := String.ofList (numbered path n)
  if candidate ∈ taken then firstFree taken path (n + 1) else candidate
termination_by (untried taken path n).length
decreasing_by exact length_untried_lt ‹_›

/-- The path itself if it is free, and otherwise the first numbered one that is. -/
def freePath (taken : List String) (path : List Char) : String :=
  if String.ofList path ∈ taken then firstFree taken path 1 else String.ofList path

/-- The archive with one file more. -/
def push (a : Archive) (path : List Char) (data : ByteArray) : Archive :=
  ⟨a.entries ++ [⟨freePath a.paths path, data⟩]⟩

/-- The archive of a session file, if any, and files of single categories. -/
def ofFiles (session : Option TraceFile) (legacy : List LoadedTrace) : Archive :=
  let top := session.toList.foldl
    (fun a f => a.push (fileName sessionExtensions sessionExtension f) f.data) {}
  legacy.foldl (fun a l => a.push (legacyPath l.category l.file) l.file.data) top

end Archive

/-- The archive of the traces in use. -/
def Registry.archive (r : Registry) : Archive :=
  Archive.ofFiles (r.modern.values.head?.map (·.file)) r.legacy.values

end FrameAlign
