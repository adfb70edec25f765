import FrameAlign.Category
import FrameAlign.Time.Epoch
import FrameAlign.Trace.File
import FrameAlign.Json.Value

/-!
# Traces

A `Recording` is what a decoder makes of a file: raw values of some clock and the entries recorded
at them. A `Trace` is a recording whose values have become timestamps. A trace is recognized by
its identity, which names its category, so that traces of different categories are never the
same.
-/

namespace FrameAlign

/-- The kind of file a trace was read from. -/
inductive Coarseness where
  /-- A file that holds one category. -/
  | legacy
  /-- A session that holds several categories. -/
  | modern
deriving DecidableEq, Repr

/-- The name of a kind of file in reports. -/
def Coarseness.name : Coarseness → String
  | .legacy => "legacy"
  | .modern => "modern"

/-- The identity of a trace. -/
structure TraceId where
  category : Category
  serial : Nat
deriving DecidableEq

/-- A trace in use. -/
structure Trace where
  id : TraceId
  coarseness : Coarseness := .legacy
  /-- The files it was read from. -/
  sources : List String := []
  /-- The number of entries. -/
  size : Nat
  /-- The timestamps of the entries, which a trace gets when it is dated. -/
  timestamps : List Timestamp := []
  /-- The offset between the clocks that its device reported. -/
  offset : Option Nanos := none
  /-- The display frame of each entry, if recorded. -/
  vsyncIds : Option (List Int) := none
  /-- What was recorded at the first entries; nothing was at the others. -/
  entries : Array Json.Value := #[]
  /-- A trace is dated as a whole or not at all. -/
  dated : timestamps = [] ∨ timestamps.length = size := by simp

namespace Trace

/-- What the trace records. -/
def category (t : Trace) : Category := t.id.category

/-- Whether the trace has no entries. -/
def isEmpty (t : Trace) : Bool := t.size = 0

/-- The first timestamp. -/
def first? (t : Trace) : Option Timestamp := t.timestamps.head?

/-- The last timestamp. -/
def last? (t : Trace) : Option Timestamp := t.timestamps.getLast?

/-- Whether the trace is a single sample rather than a timeline. -/
def isDump (t : Trace) : Bool := t.timestamps.length = 1

/-- Whether some timestamp lies on the real clock. -/
def hasReal (t : Trace) : Bool := t.timestamps.any Timestamp.isReal

/-- Whether there are timestamps and all of them lie on the elapsed clock. -/
def isElapsedOnly (t : Trace) : Bool := !t.timestamps.isEmpty && !t.hasReal

/-- The duration from the first to the last timestamp. -/
def span (t : Trace) : Nanos :=
  match t.first?, t.last? with
  | some first, some last => last.value.satSub first.value
  | _, _ => Nanos.clamp 0

/-- The files of the trace in one line. -/
def source (t : Trace) : String := ", ".intercalate t.sources

/-- What was recorded at an entry; nothing for an index that is no entry. -/
def entry? (t : Trace) (i : Nat) : Option Json.Value :=
  if i < t.size then some (t.entries[i]?.getD .null) else none

/-- The message for an index that is no entry. -/
def outOfBounds (t : Trace) (i : Nat) : String :=
  "Entry index " ++ toString i ++ " out of bounds (trace has " ++ toString t.size ++ " entries)"

/-- Everything that was recorded, entry by entry. -/
def allEntries (t : Trace) : List Json.Value := (List.range t.size).filterMap t.entry?

/-- No timestamp counts less than one before it. A decoder hands timestamps over in this order,
though not strictly. Only their counts are compared: the clocks of a trace may differ from one
timestamp to the next. -/
def Ascending (t : Trace) : Prop := t.timestamps.Pairwise fun a b => a.value ≤ b.value

/-- Decided pair by pair, so a given trace can be shown to ascend by evaluation. -/
instance (t : Trace) : Decidable t.Ascending :=
  inferInstanceAs (Decidable (t.timestamps.Pairwise fun a b => a.value ≤ b.value))

/-- An ascending trace ends no earlier than it starts. -/
theorem Ascending.first?_le_last? {t : Trace} (h : t.Ascending) {start stop : Timestamp}
    (hstart : t.first? = some start) (hstop : t.last? = some stop) : start.value ≤ stop.value := by
  obtain ⟨rest, hrest⟩ := List.head?_eq_some_iff.mp hstart
  rw [Ascending, hrest, List.pairwise_cons] at h
  rw [last?, hrest] at hstop
  rcases List.mem_cons.mp (List.mem_of_getLast? hstop) with rfl | hmem
  · exact Int.le_refl _
  · exact h.1 stop hmem

end Trace

/-- What a decoder made of a file, before its values become timestamps. -/
structure Recording where
  category : Category
  coarseness : Coarseness := .legacy
  sources : List String := []
  /-- The clock of the values. -/
  clock : Clock := .elapsed
  /-- One value for each entry. -/
  values : List Nanos := []
  offset : Option Nanos := none
  vsyncIds : Option (List Int) := none
  entries : List Json.Value := []

namespace Recording

/-- The trace of a recording that has not been dated. -/
def undated (r : Recording) (serial : Nat) : Trace :=
  { id := ⟨r.category, serial⟩
    coarseness := r.coarseness
    sources := r.sources
    size := r.values.length
    offset := r.offset
    vsyncIds := r.vsyncIds
    entries := r.entries.toArray }

/-- The trace of a recording, dated by the epoch of a load. -/
def date (r : Recording) (epoch : Epoch) (serial : Nat) : Trace :=
  { r.undated serial with
    timestamps := r.values.map (epoch.timestamp r.clock r.offset)
    dated := Or.inr (by simp [undated]) }

end Recording

/-- A trace together with the file it was loaded from. -/
structure LoadedTrace where
  file : TraceFile
  trace : Trace

/-- What the trace of a loaded file records. -/
def LoadedTrace.category (l : LoadedTrace) : Category := l.trace.category

/-- All the traces that were read from one session file. -/
structure Session where
  file : TraceFile
  traces : List Trace

/-- The traces of a session, each with the session file. -/
def Session.loaded (s : Session) : List LoadedTrace := s.traces.map (⟨s.file, ·⟩)

end FrameAlign
