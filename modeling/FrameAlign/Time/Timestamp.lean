import FrameAlign.Time.Nanos
import FrameAlign.Time.Duration
import FrameAlign.Time.Calendar

/-!
# Timestamps

A timestamp counts nanoseconds on one of two clocks: the real clock, whose zero is the start of
1970, or the elapsed clock, which runs since the device started and names no date. Timestamps are
ordered by their count; of two equal counts the real one comes first.
-/

namespace FrameAlign

/-- The clock that a count of nanoseconds was read from. -/
inductive Clock where
  | real
  | elapsed
deriving DecidableEq, Repr

/-- The name of a clock in reports and recordings. -/
def Clock.name : Clock → String
  | .real => "real"
  | .elapsed => "elapsed"

/-- A moment on one of the clocks. -/
structure Timestamp where
  clock : Clock
  value : Nanos
deriving DecidableEq

namespace Timestamp

/-- A moment on the real clock. -/
def real (value : Nanos) : Timestamp := ⟨.real, value⟩

/-- A moment on the elapsed clock. -/
def elapsed (value : Nanos) : Timestamp := ⟨.elapsed, value⟩

/-- Whether the moment lies on the real clock. -/
def isReal (t : Timestamp) : Bool := t.clock = .real

/-- The place of a clock among equal counts. -/
def clockOrder : Clock → Nat
  | .real => 0
  | .elapsed => 1

/-- Times are compared first, and of two equal ones the clocks decide. -/
instance : Ord Timestamp :=
  ⟨fun a b => (compare a.value b.value).then (compare (clockOrder a.clock) (clockOrder b.clock))⟩

/-- The date of a real moment, the duration since the start of the device for an elapsed one. -/
def text (t : Timestamp) : String :=
  match t.clock with
  | .real => (CivilTime.ofNanos t.value.val).toText
  | .elapsed => Duration.text t.value

end Timestamp

/-- The span between two moments. -/
structure TimeRange where
  start : Timestamp
  stop : Timestamp
deriving DecidableEq

namespace TimeRange

/-- How long the span lasts, whatever the two clocks are. -/
def duration (r : TimeRange) : Nanos := r.stop.value.satSub r.start.value

/-- The written form of the duration. -/
def durationText (r : TimeRange) : String := Duration.text r.duration

end TimeRange

end FrameAlign
