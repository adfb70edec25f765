import FrameAlign.Frames.Relation
import FrameAlign.Frames.Table
import FrameAlign.Trace.Collection

/-!
# Correlation of traces by frame

The first trace with entries among the preferred categories is numbered, and frames then flow along
the relations in their order. A relation whose target trace has frames already changes nothing.
-/

namespace FrameAlign

namespace Trace

/-- The counts of the timestamps. -/
def times (t : Trace) : Array Nanos := (t.timestamps.map (·.value)).toArray

/-- The display frame of every entry, if there is exactly one for each. -/
def completeVsyncIds? (t : Trace) : Option (List Int) := t.vsyncIds.filter (·.length = t.size)

end Trace

/-- The frames that a target trace gets, if the link can be evaluated. -/
def Relation.propagate (r : Relation) (target source : Trace) (frames : FrameMap) :
    Option FrameMap :=
  match r.link with
  | .matchingVsync => do
    let targetKeys ← target.completeVsyncIds?
    let sourceKeys ← source.completeVsyncIds?
    return FrameMap.matchingKey targetKeys.toArray sourceKeys.toArray frames
  | .latestBefore => some (FrameMap.latestBefore target.times source.times frames r.maxGap)
  | .followingInterval =>
    some (FrameMap.followingInterval target.times source.times frames r.maxGap)
  | .precedingInterval =>
    some (FrameMap.precedingInterval target.times source.times frames r.maxGap)
  | .nearest => some (FrameMap.nearest target.times source.times frames r.maxGap)

namespace Traces

/-- The trace that frames are numbered from. -/
def root? (traces : Traces) : Option Trace :=
  (Relation.roots.filterMap traces.get?).find? fun t => !t.isEmpty

/-- Lets frames flow along one relation, if both traces are there and only one has frames. -/
def follow (traces : Traces) (maps : CategoryMap FrameMap) (r : Relation) : CategoryMap FrameMap :=
  if maps.contains r.target then maps
  else
    match traces.get? r.target, traces.get? r.source, maps.get? r.source with
    | some target, some source, some frames =>
      match r.propagate target source frames with
      | some map => maps.insert r.target (map.resize target.size)
      | none => maps
    | _, _, _ => maps

/-- The frames of all traces that the relations reach. -/
def frameMaps (traces : Traces) (relations : List Relation) : CategoryMap FrameMap :=
  match traces.root? with
  | none => CategoryMap.empty
  | some root =>
    relations.foldl traces.follow
      (CategoryMap.empty.insert root.category (FrameMap.root root.size root.vsyncIds))

/-- The table of the frames that the relations give to the traces. -/
def correlate (traces : Traces) (relations : List Relation) : FrameTable :=
  FrameTable.ofMaps (traces.frameMaps relations)

end Traces

end FrameAlign
