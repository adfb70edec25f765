import FrameAlign.Json.Printer
import FrameAlign.Loading.Workspace

/-!
# Reports

A report shows the traces in use after a load, what the load left out, and the entries of every
frame.
-/

namespace FrameAlign

/-- The version of the layout of reports. -/
def reportVersion : String := "1.0.0"

/-- The value of a trace in a report. -/
def Trace.toJson (t : Trace) : Json.Value :=
  let moment (ts : Option Timestamp) : Json.Value := (ts.map Timestamp.toJson).getD .null
  .object [("category", .string t.category.id), ("coarseness", .string t.coarseness.name),
    ("entries", .ofNat t.size), ("sources", .array (t.sources.map .string)),
    ("first", moment t.first?), ("last", moment t.last?)]

/-- The value of a frame in a report. -/
def Frame.toJson (f : Frame) : Json.Value :=
  let entries := f.entries.toList.map fun (c, list) =>
    (c.id, Json.Value.array (list.toList.map Json.Value.ofNat))
  .object [("index", .ofNat f.index), ("entries", .object entries)]

/-- The value of a table of frames in a report. -/
def FrameTable.toJson (t : FrameTable) : Json.Value :=
  .object [("categories", .array (t.categories.map fun c => .string c.id)),
    ("frames", .array (t.frames.toList.map Frame.toJson))]

/-- The report of a load, written `now` nanoseconds after the start of 1970. -/
def Workspace.report (w : Workspace) (load : LoadReport) (now : Int) : Json.Value :=
  .object [("version", .string reportVersion),
    ("generated_at", .string (CivilTime.ofNanos now).toOffsetText),
    ("archive_name", .string w.archiveName), ("traces", .array (w.traces.values.map Trace.toJson)),
    ("diagnostics", .array (load.diagnostics.map Diagnostic.toJson)),
    ("frames", w.frames.toJson)]

end FrameAlign
