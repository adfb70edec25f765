import FrameAlign.Capture.Decode
import FrameAlign.Diagnostic

/-!
# Sorting files by decoder

The files of a container are sorted into single traces, sessions and files that are neither. Of
several sessions the largest is kept, the first of those of one size.
-/

namespace FrameAlign

/-- Which decoder a file is for. -/
inductive FileKind where
  | trace
  | session
  | unsupported
deriving DecidableEq, Repr

/-- The files of a container by decoder, and what was left out. -/
structure SortedFiles where
  traces : List TraceFile := []
  session : Option TraceFile := none
  diagnostics : List Diagnostic := []

namespace SortedFiles

/-- Whether no file is for a decoder. -/
def isEmpty (s : SortedFiles) : Bool := s.traces.isEmpty && s.session.isNone

/-- Sorts files of the given kinds. -/
def ofKinds (kind : TraceFile → FileKind) (files : List TraceFile) : SortedFiles :=
  let unsupported := files.filter fun f => kind f = .unsupported
  let sessions := (files.filter fun f => kind f = .session).mergeSort fun a b => b.size ≤ a.size
  { traces := files.filter fun f => kind f = .trace
    session := sessions.head?
    diagnostics := unsupported.map (fun f => .unsupportedFile f.descriptor) ++
      sessions.tail.map fun f => .overridden f.descriptor none }

end SortedFiles

namespace Capture

/-- The kind of a file: an object with a list of sessions, or else one with a category. -/
def fileKind (f : TraceFile) : FileKind :=
  match (Json.Document.ofBytes f.data.toList).value? with
  | some v =>
    if (v.member? "session").any Json.Value.isArray then .session
    else if (v.member? "category").isSome then .trace
    else .unsupported
  | none => .unsupported

/-- Sorts files by their content. -/
def sortFiles (files : List TraceFile) : SortedFiles := SortedFiles.ofKinds fileKind files

end Capture

end FrameAlign
