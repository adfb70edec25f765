import FrameAlign.Trace.Basic

/-!
# Evidence against a trace

A trace left over from an earlier recording gives itself away: it ends long before another trace
starts, or it carries elapsed timestamps alone while another trace has real ones. Both rules
compare a trace with a pool of others.
-/

namespace FrameAlign

/-- The thresholds of a merge. -/
structure MergePolicy where
  /-- A trace that ends more than this before another one starts is left over. -/
  maxTimeGap : Nanos := Nanos.ofMillis 300000
deriving DecidableEq

namespace Trace

/-- Whether the trace covers a span of time: it has entries and at least two timestamps. -/
def isTimeline (t : Trace) : Bool := !t.isEmpty && 2 ≤ t.timestamps.length

/--
Whether the age of a trace says nothing. The timestamps of window manager transitions are replaced
when they are joined with those of the shell.
-/
def isAgeless (t : Trace) : Bool := t.category = .wmTransition

/-- The gap by which a timeline starts too long after `stop`. -/
def gapAfter? (policy : MergePolicy) (stop : Timestamp) (other : Trace) : Option TimeRange := do
  let start ← other.first?
  if policy.maxTimeGap < start.value.satSub stop.value then some ⟨stop, start⟩ else none

/--
The gap that shows a trace to be left over: the first in the pool that lies between its end and
the start of another timeline. Only a timeline can be left over.
-/
def oldDataGap? (policy : MergePolicy) (pool : List Trace) (t : Trace) : Option TimeRange := do
  if t.isAgeless || !t.isTimeline then none
  let stop ← t.last?
  (pool.filter fun other => other.id ≠ t.id && other.isTimeline).findSome? (gapAfter? policy stop)

/-- Whether another trace of the pool has real timestamps and this one has elapsed ones alone. -/
def isOutdated (pool : List Trace) (t : Trace) : Bool :=
  t.isElapsedOnly && pool.any fun other => other.id ≠ t.id && other.hasReal

end Trace

end FrameAlign
