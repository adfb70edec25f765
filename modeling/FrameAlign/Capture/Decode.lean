import FrameAlign.Capture.Record
import FrameAlign.Trace.Basic

/-!
# Decoding trace files

A record becomes a recording if it makes sense: its values ascend, it has no more entries than
values, and if it has display frames it has one for each value.
-/

namespace FrameAlign.Capture

/-- What is wrong with the record of a trace. -/
inductive FormatError where
  /-- The values do not ascend. -/
  | unordered
  /-- There are more entries than values. -/
  | surplusEntries (entries values : Nat)
  /-- There is not one display frame for each value. -/
  | vsyncCount (vsyncIds values : Nat)
deriving DecidableEq

/-- Why a file is no trace. -/
inductive DecodeError where
  /-- The file does not hold the expected record. -/
  | json (e : Json.ReadError)
  /-- The record of a trace of this category makes no sense. -/
  | format (category : Category) (e : FormatError)

namespace DecodeError

/-- The error in words. -/
def message : DecodeError → String
  | .json e => "JSON deserialization failed: " ++ e.message
  | .format category e =>
    "Invalid trace format: " ++ category.title ++
      match e with
      | .unordered => " timestamps are not in ascending order"
      | .surplusEntries entries values =>
        " has " ++ toString entries ++ " entries but only " ++ toString values ++ " timestamps"
      | .vsyncCount vsyncIds values =>
        " has " ++ toString vsyncIds ++ " vsync ids for " ++ toString values ++ " timestamps"

end DecodeError

/-- Whether no value is less than the one before it. -/
def isAscending : List Nanos → Bool
  | a :: b :: rest => a ≤ b && isAscending (b :: rest)
  | _ => true

namespace TraceRecord

/-- What is wrong with a record, the order of the values before the counts. -/
def formatError? (r : TraceRecord) : Option FormatError :=
  let size := r.values.length
  if !isAscending r.values then some .unordered
  else if size < r.entries.length then some (.surplusEntries r.entries.length size)
  else
    match r.vsyncIds with
    | some ids => if ids.length = size then none else some (.vsyncCount ids.length size)
    | none => none

/-- The recording of a record that makes sense. -/
def toRecording (r : TraceRecord) (coarseness : Coarseness) (source : String) :
    Except DecodeError Recording :=
  match r.formatError? with
  | some e => .error (.format r.category e)
  | none =>
    .ok
      { category := r.category
        coarseness
        sources := [source]
        clock := r.clock
        values := r.values
        offset := r.offset
        vsyncIds := r.vsyncIds
        entries := r.entries }

end TraceRecord

/-- The recordings of a session, each with the offset of the session unless it has its own. -/
def SessionRecord.toRecordings (s : SessionRecord) (source : String) :
    Except DecodeError (List Recording) :=
  s.traces.mapM fun t => { t with offset := t.offset <|> s.offset }.toRecording .modern source

/-- The recording in a file of one trace. -/
def decodeTrace (f : TraceFile) : Except DecodeError Recording := do
  let record ← (readDocument readTrace f.data.toList).mapError .json
  record.toRecording .legacy f.descriptor

/-- The recordings in a session file. -/
def decodeSession (f : TraceFile) : Except DecodeError (List Recording) := do
  let record ← (readDocument readSession f.data.toList).mapError .json
  record.toRecordings f.descriptor

end FrameAlign.Capture
