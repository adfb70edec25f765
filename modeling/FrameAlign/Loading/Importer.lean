import FrameAlign.Capture.Sorting
import FrameAlign.Gzip.Container

/-!
# Importers

What a load needs to know about formats: how a container is unpacked, how its files are sorted by
decoder, and how the decoders turn them into traces. A trace gets its timestamps only when the load
knows the epoch for all of them; how it gets them is up to its decoder.
-/

namespace FrameAlign

/-- A decoded trace that has not been dated. -/
structure UndatedTrace where
  /-- The offset between the clocks that its device reported. -/
  offset : Option Nanos
  /-- The trace as it is dated by an epoch, with the given serial number. -/
  date : Epoch → Nat → Trace
  /-- A trace keeps the serial number that it is given. -/
  serial_date : ∀ epoch serial, (date epoch serial).id.serial = serial

/-- A recording is dated value by value. -/
def Recording.toUndated (r : Recording) : UndatedTrace :=
  { offset := r.offset, date := r.date, serial_date := fun _ _ => rfl }

/-- The formats that a load can read. Decoders say in words why a file is no trace. -/
structure Importer where
  /-- The files of a container, unless it is corrupted. -/
  unpack? : TraceFile → Option (List TraceFile)
  sort : List TraceFile → SortedFiles
  decodeTrace : TraceFile → Except String UndatedTrace
  decodeSession : TraceFile → Except String (List UndatedTrace)

/-- The importer of trace files, plain or in gzip containers. -/
def Importer.standard : Importer :=
  { unpack? := Gzip.unpack?
    sort := Capture.sortFiles
    decodeTrace := fun f =>
      ((Capture.decodeTrace f).map Recording.toUndated).mapError Capture.DecodeError.message
    decodeSession := fun f =>
      ((Capture.decodeSession f).map fun rs => rs.map Recording.toUndated).mapError
        Capture.DecodeError.message }

end FrameAlign
