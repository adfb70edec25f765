import FrameAlign.Category
import FrameAlign.Time.Timestamp
import FrameAlign.Json.Value

/-!
# Diagnostics

A load does not stop at an input that it cannot use. Everything that was left out is named in a
diagnostic, with the reason.
-/

namespace FrameAlign

/-- The value of a moment in reports. -/
def Timestamp.toJson (t : Timestamp) : Json.Value :=
  .object [("kind", .string t.clock.name), ("value_ns", .ofInt t.value.val)]

/-- The value of a span in reports. -/
def TimeRange.toJson (r : TimeRange) : Json.Value :=
  .object [("from", r.start.toJson), ("to", r.stop.toJson)]

/-- What a load left out, and why. -/
inductive Diagnostic where
  /-- A trace gave way to another one, of the dominant category if that is not its own. -/
  | overridden (source : String) (dominant : Option Category)
  /-- A trace is older than the others, by the gap if the decision came from one. -/
  | oldData (source : String) (gap : Option TimeRange)
  /-- A container could not be unpacked. -/
  | corruptedContainer (source : String)
  /-- There was nothing to load. -/
  | noInputFiles
  /-- A file is no trace. -/
  | unsupportedFile (source : String)
  /-- A trace could not be decoded. -/
  | invalidTrace (source reason : String)
deriving DecidableEq

namespace Diagnostic

/-- The diagnostic as a sentence. -/
def text : Diagnostic → String
  | .overridden source (some dominant) => source ++ " was overridden by " ++ dominant.title
  | .overridden source none => source ++ " was overridden by another trace of the same type"
  | .oldData source (some gap) =>
    source ++ " discarded because it contains old data (" ++ gap.durationText ++ " gap between " ++
      gap.start.text ++ " and " ++ gap.stop.text ++ ")"
  | .oldData source none =>
    source ++ " discarded because it only has elapsed timestamps while other traces have real ones"
  | .corruptedContainer source => source ++ " is corrupted and was skipped"
  | .noInputFiles => "Input has no valid trace files"
  | .unsupportedFile source => source ++ " is not a supported trace file"
  | .invalidTrace source reason => source ++ " could not be decoded: " ++ reason

/-- The diagnostic as an object whose first member is its kind; what is absent has no member. -/
def toJson : Diagnostic → Json.Value
  | .overridden source dominant =>
    .object ([("kind", .string "overridden"), ("source", .string source)] ++
      dominant.toList.map fun c => ("dominant", .string c.id))
  | .oldData source gap =>
    .object ([("kind", .string "old_data"), ("source", .string source)] ++
      gap.toList.map fun g => ("gap", g.toJson))
  | .corruptedContainer source =>
    .object [("kind", .string "corrupted_container"), ("source", .string source)]
  | .noInputFiles => .object [("kind", .string "no_input_files")]
  | .unsupportedFile source =>
    .object [("kind", .string "unsupported_file"), ("source", .string source)]
  | .invalidTrace source reason =>
    .object [("kind", .string "invalid_trace"), ("source", .string source),
      ("reason", .string reason)]

end Diagnostic

end FrameAlign
