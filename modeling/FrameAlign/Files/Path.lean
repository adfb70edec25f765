/-!
# Paths

The parts of a path are set off by slashes. Empty parts and single dots lead nowhere, except for a
dot at the start, and two dots lead up.
-/

namespace FrameAlign.FilePath

/-- The parts of a path, between its slashes. -/
def parts : List Char → List (List Char)
  | [] => [[]]
  | c :: rest =>
    if c = '/' then [] :: parts rest
    else
      match parts rest with
      | [] => [[c]]
      | first :: others => (c :: first) :: others

/-- The path with the given parts. -/
def ofParts (ps : List (List Char)) : List Char := ['/'].intercalate ps

/-- Whether a path starts at the root of all files. -/
def isAbsolute (path : List Char) : Bool := path.head? = some '/'

/-- Whether a path stays below every directory that it is looked up in. -/
def isDownward (path : List Char) : Bool :=
  !isAbsolute path && (parts path).head? ≠ some ['.'] && !(parts path).contains ['.', '.']

/-- The path to `path` from where `dir` starts. -/
def join (dir path : List Char) : List Char :=
  if isAbsolute path || dir.isEmpty then path
  else if dir.getLast? = some '/' then dir ++ path
  else dir ++ '/' :: path

/-- Parts in reverse without those at the end of the path that lead nowhere. -/
def trimEnd : List (List Char) → List (List Char)
  | last :: before :: rest =>
    if last = [] || last = ['.'] then trimEnd (before :: rest) else last :: before :: rest
  | ps => ps

/-- The path without its last part; the root and the empty path have none to leave out. -/
def parent? (path : List Char) : Option (List Char) :=
  match trimEnd (parts path).reverse with
  | [] | [[]] => none
  | _ :: above =>
    match trimEnd above with
    | [[]] => some ['/']
    | ps => some (ofParts ps.reverse)

/-- A path has a part even when it is empty, so its last part can be taken without a
case for none. -/
theorem parts_ne_nil (path : List Char) : parts path ≠ [] := by
  cases path with
  | nil => simp [parts]
  | cons c rest =>
    simp only [parts]
    split
    · simp
    · split <;> simp

/-- No part holds a slash. -/
theorem slash_not_mem_of_mem_parts {path part : List Char} (h : part ∈ parts path) :
    '/' ∉ part := by
  induction path generalizing part with
  | nil => simp_all [parts]
  | cons c rest ih =>
    simp only [parts] at h
    split at h
    · rcases List.mem_cons.1 h with rfl | h
      · simp
      · exact ih h
    · next hc =>
      split at h
      · next e => exact absurd e (parts_ne_nil rest)
      · next first others e =>
        rcases List.mem_cons.1 h with rfl | h
        · have : '/' ∉ first := ih (by simp [e])
          simpa [Ne.symm hc] using this
        · exact ih (by simp [e, h])

end FrameAlign.FilePath
