import FrameAlign.Category.Map
import FrameAlign.Registry.Policy

/-!
# The registry of loaded traces

The registry holds the traces in use over any number of loads. Traces of single files and traces of
the current session are kept apart; for a category that both provide, the session counts.
-/

namespace FrameAlign

/-- The traces in use. -/
structure Registry where
  policy : MergePolicy := {}
  /-- Traces of files that hold one category. -/
  legacy : CategoryMap LoadedTrace := CategoryMap.empty
  /-- Traces of the current session. -/
  modern : CategoryMap LoadedTrace := CategoryMap.empty

namespace Registry

/-- A registry without traces, with a policy for its merges. -/
def withPolicy (policy : MergePolicy) : Registry := { policy }

/-- The trace in use for a category. -/
def get? (r : Registry) (c : Category) : Option LoadedTrace := r.modern.get? c <|> r.legacy.get? c

/-- Whether a category has a trace in use. -/
def contains (r : Registry) (c : Category) : Bool := (r.get? c).isSome

/-- All traces in the order of what they record, for one category the single file's first. -/
def loaded (r : Registry) : List LoadedTrace :=
  (r.legacy.values ++ r.modern.values).mergeSort fun a b => a.category.index ≤ b.category.index

/-- All traces in order of their categories. -/
def traces (r : Registry) : List Trace := r.loaded.map (·.trace)

/-- The number of traces. -/
def size (r : Registry) : Nat := r.legacy.size + r.modern.size

/-- Whether there are no traces. -/
def isEmpty (r : Registry) : Bool := r.legacy.isEmpty && r.modern.isEmpty

/-- Whether the trace with the given identity is in use. -/
def holds (r : Registry) (id : TraceId) : Bool := r.loaded.any fun l => l.trace.id = id

/-- The registry without the traces of a category. -/
def remove (r : Registry) (c : Category) : Registry :=
  { r with legacy := r.legacy.erase c, modern := r.modern.erase c }

/-- Takes the traces of a category out, and says whether there was one. -/
def take (r : Registry) (c : Category) : Bool × Registry :=
  ((r.legacy.get? c).isSome || (r.modern.get? c).isSome, r.remove c)

/-- The registry without any traces. -/
def clear (r : Registry) : Registry :=
  { r with legacy := CategoryMap.empty, modern := CategoryMap.empty }

/--
The largest offset between the clocks among those given and those of the traces in use. A load
dates all its traces with one offset, so that they line up.
-/
def latestOffset? (r : Registry) (offsets : List (Option Nanos)) : Option Nanos :=
  let known := offsets.filterMap id ++ r.traces.filterMap (·.offset)
  known.foldl (fun best n =>
    match best with
    | some b => if b < n then some n else some b
    | none => some n) none

/-- The policy and the categories in use. -/
def summary (r : Registry) : String :=
  let tags (m : CategoryMap LoadedTrace) : String :=
    "[" ++ ", ".intercalate (m.keys.map Category.tag) ++ "]"
  "MergeRegistry \x7b policy: MergePolicy \x7b max_time_gap_ns: " ++
    toString r.policy.maxTimeGap.val ++ " \x7d, legacy: " ++ tags r.legacy ++
    ", modern: " ++ tags r.modern ++ " \x7d"

end Registry

end FrameAlign
