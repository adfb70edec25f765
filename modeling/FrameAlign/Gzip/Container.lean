import FrameAlign.Gzip.Member
import FrameAlign.Trace.File

/-!
# Gzip containers

A gzip file holds one file, which takes its name from the container. Every other file is its own
content.
-/

namespace FrameAlign

namespace TraceFile

/-- Whether the file is to be decompressed: by its first bytes or by its extension. -/
def isGzip (f : TraceFile) : Bool :=
  Gzip.magic.isPrefixOf (f.data.extract 0 2).toList || f.extension? = some ".gz"

end TraceFile

namespace Gzip

/-- The name of a container's content: the base name without the ending `.gz`. -/
def contentName (base : List Char) : List Char :=
  if ".gz".toList.isSuffixOf base then base.take (base.length - 3) else base

/-- The content of a file, if it is intact: the file inside of a gzip file, or the file itself. -/
def unpack? (f : TraceFile) : Option (List TraceFile) :=
  if f.isGzip then
    (decompress? f.data).map fun data =>
      [{ name := String.ofList (contentName f.baseName)
         parent := some (String.ofList f.baseName)
         data }]
  else some [f]

end Gzip

end FrameAlign
