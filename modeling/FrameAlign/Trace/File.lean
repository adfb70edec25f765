/-!
# Files

A file that was loaded or taken out of a container. Its name may carry directories, set off by
either kind of slash; the part after the last slash is the base name, and the base name is cut
before its last dot into stem and extension.
-/

namespace FrameAlign

/-- A named sequence of bytes, and the container it was taken from, if any. -/
structure TraceFile where
  name : String
  parent : Option String := none
  data : ByteArray := ByteArray.empty

/-- Files are compared by name, parent and bytes. -/
instance : DecidableEq TraceFile := fun a b =>
  letI := ByteArray.decEq a.data b.data
  decidable_of_iff (a.name = b.name ∧ a.parent = b.parent ∧ a.data = b.data)
    (by cases a; cases b; simp)

namespace FileName

/-- Whether the character sets directories off. -/
def isSlash (c : Char) : Bool := c = '/' || c = '\\'

/-- The part of a name after its last slash. -/
def base (name : List Char) : List Char :=
  (name.reverse.takeWhile fun c => !isSlash c).reverse

/--
A base name cut before its last dot into stem and extension. A dot at the very start begins no
extension, so that the stem of a hidden file is its whole name.
-/
def split (base : List Char) : List Char × List Char :=
  match base.reverse.dropWhile (· ≠ '.') with
  | '.' :: c :: stem => ((c :: stem).reverse, '.' :: (base.reverse.takeWhile (· ≠ '.')).reverse)
  | _ => (base, [])

/-- The extension of a base name in lower case with its dot. -/
def extension? (base : List Char) : Option String :=
  match (split base).2 with
  | [] => none
  | ext => some (String.ofList (ext.map Char.toLower))

/-- The base name without its extension. -/
def stem (base : List Char) : List Char := (split base).1

/-- The two parts of a base name make up the name. -/
theorem split_append (base : List Char) : (split base).1 ++ (split base).2 = base := by
  unfold split
  split
  · next c stem h =>
    have key := List.takeWhile_append_dropWhile (p := (· ≠ '.')) (l := base.reverse)
    rw [h] at key
    have := congrArg List.reverse key
    simpa using this
  · simp

end FileName

namespace TraceFile

/-- The name, followed by the container in parentheses for a file taken out of one. -/
def descriptor (f : TraceFile) : String :=
  match f.parent with
  | some parent => f.name ++ " (" ++ parent ++ ")"
  | none => f.name

/-- The name without its directories. -/
def baseName (f : TraceFile) : List Char := FileName.base f.name.toList

/-- The extension in lower case with its dot. -/
def extension? (f : TraceFile) : Option String := FileName.extension? f.baseName

/-- The number of bytes. -/
def size (f : TraceFile) : Nat := f.data.size

end TraceFile

end FrameAlign
