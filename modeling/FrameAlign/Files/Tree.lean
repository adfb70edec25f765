import FrameAlign.Files.Path
import FrameAlign.Files.Store

/-!
# Trees of files

A tree of files in memory, and a file store that keeps one. Paths start at its top. Above the top
there are directories of which nothing is known, and absolute paths lead to nothing.
-/

namespace FrameAlign

/-- What stands at a place of a tree. -/
inductive FileNode where
  | directory
  | file (data : ByteArray)

/-- Files are compared by their bytes, so that trees of the tests can be decided equal. -/
instance : DecidableEq FileNode
  | .directory, .directory => isTrue rfl
  | .directory, .file _ => isFalse nofun
  | .file _, .directory => isFalse nofun
  | .file a, .file b =>
    match ByteArray.decEq a b with
    | isTrue h => isTrue (congrArg _ h)
    | isFalse h => isFalse fun e => h (FileNode.file.inj e)

/-- The names from the top of a tree down to a place, after two dots for each step up. -/
abbrev FileTree.Place := List String

/-- What a node is. -/
def FileNode.kind : FileNode → PathKind
  | .directory => .directory
  | .file _ => .file

/-- A tree of files. -/
structure FileTree where
  /-- What stands anywhere but at the top and straight above it. -/
  nodes : List (FileTree.Place × FileNode) := []

namespace FileTree

/-- What stands at a place; at the top and straight above it there are directories. -/
def at? (t : FileTree) (place : Place) : Option FileNode :=
  if place.all (· = "..") then some .directory else t.nodes.lookup place

/-- Whether a directory stands at a place. -/
def isDirectory (t : FileTree) (place : Place) : Bool := t.at? place = some .directory

/-- The tree with a node at a place. -/
def put (t : FileTree) (place : Place) (node : FileNode) : FileTree :=
  ⟨(place, node) :: t.nodes.filter (·.1 ≠ place)⟩

/-- Whether a name is one that a file may have. -/
def isName (name : String) : Bool := name.utf8ByteSize ≤ 255 && !name.toList.contains '\x00'

/-- The place that a part of a path leads to. -/
def step (place : Place) (part : List Char) : Place :=
  if part = [] || part = ['.'] then place
  else if part = ['.', '.'] then
    if place.all (· = "..") then place ++ [".."] else place.dropLast
  else place ++ [String.ofList part]

/-- The longest path that can be followed, in bytes. -/
def maxPathBytes : Nat := 4095

/-- The parts of a path, unless it is empty, absolute or too long. -/
def partsOf? (path : String) : Option (List (List Char)) :=
  let cs := path.toList
  if cs.isEmpty || FilePath.isAbsolute cs || maxPathBytes < path.utf8ByteSize then none
  else some (FilePath.parts cs)

/-- The place that a path leads to through directories, whether anything stands there or not. -/
def place? (t : FileTree) (path : String) : Option Place := do
  (← partsOf? path).foldlM
    (fun place part => if t.isDirectory place then some (step place part) else none) []

/-- What a path leads to. -/
def node? (t : FileTree) (path : String) : Option FileNode := do
  t.at? (← t.place? path)

/-- The names in a directory. -/
def names (t : FileTree) (path : String) : List String :=
  match t.place? path with
  | some place =>
    t.nodes.filterMap fun (p, _) => if p.dropLast = place then p.getLast? else none
  | none => []

/-- The files at or below a path with their paths; those below go on after a slash. -/
def filesAt (t : FileTree) (path : String) : List (String × ByteArray) :=
  match t.place? path with
  | none => []
  | some place =>
    t.nodes.filterMap fun (p, node) =>
      match node with
      | .directory => none
      | .file data =>
        let below := p.drop place.length
        if place.isPrefixOf p && below.head? ≠ some ".." then
          some ("/".intercalate (path :: below), data)
        else none

/-- The tree with a directory at the end of some parts of a path that start at a place. -/
def makeDirectoriesFrom? (t : FileTree) (place : Place) : List (List Char) → Option FileTree
  | [] => some t
  | part :: rest =>
    let next := step place part
    match t.at? next with
    | some .directory => makeDirectoriesFrom? t next rest
    | some (.file _) => none
    | none =>
      if isName (String.ofList part) then makeDirectoriesFrom? (t.put next .directory) next rest
      else none

/-- The tree with a directory at the end of a path. -/
def makeDirectories? (t : FileTree) (path : String) : Option FileTree := do
  t.makeDirectoriesFrom? [] (← partsOf? path)

/-- The tree with a file at the end of a path, whose directory must be there. -/
def write? (t : FileTree) (path : String) (data : ByteArray) : Option FileTree := do
  let last ← (← partsOf? path).getLast?
  let place ← t.place? path
  if t.isDirectory place || last = [] || last = ['.'] || !isName (String.ofList last) then none
  else t.put place (.file data)

end FileTree

/-- A tree of files and what a program has shown. -/
structure Desk where
  files : FileTree := {}
  printed : String := ""
  complaints : String := ""

namespace Desk

/-- Goes on with another tree, if there is one. -/
def adopt (change : FileTree → Option FileTree) : StateM Desk Bool := fun desk =>
  match change desk.files with
  | some files => (true, { desk with files })
  | none => (false, desk)

/-- The files of a desk answer as a file system does; what a write or a new directory makes of the
tree is adopted only where it succeeds. -/
instance : FileStore (StateM Desk) where
  kind? path := return ((← get).files.node? path).map FileNode.kind
  read? path := do
    match (← get).files.node? path with
    | some (.file data) => return some data
    | _ => return none
  names path := return (← get).files.names path
  makeDirectories path := adopt (·.makeDirectories? path)
  write path data := adopt (·.write? path data)

/-- What is printed is kept in the order of printing, apart from the complaints. -/
instance : Screen (StateM Desk) where
  print text := modify fun desk => { desk with printed := desk.printed ++ text }
  complain text := modify fun desk => { desk with complaints := desk.complaints ++ text }

end Desk

end FrameAlign
