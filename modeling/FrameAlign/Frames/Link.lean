import Std.Data.HashMap
import FrameAlign.Frames.Bisect
import FrameAlign.Frames.Range
import FrameAlign.Time.Nanos

/-!
# Links between traces

Frames flow from a source trace, whose entries have them, to a target trace, whose entries get
them. A link says which source entries a target entry takes its frames from; the values of either
trace ascend. Entries that lie farther apart than a gap are never linked.
-/

namespace FrameAlign

/-- How the entries of a target trace find their source entries. -/
inductive Link where
  /-- Each source entry is caused by the last target entry before it. -/
  | latestBefore
  /-- Entries recorded for the same display frame belong together. -/
  | matchingVsync
  /-- A target entry takes the source entries up to the next target one. -/
  | followingInterval
  /-- A target entry takes the first source entry at or after it. -/
  | precedingInterval
  /-- A target entry takes the closest source entry, the earlier of two. -/
  | nearest
deriving DecidableEq, Repr

namespace Link

/-- The link in words. -/
def text : Link → String
  | .latestBefore => "latest upstream entry before each downstream entry"
  | .matchingVsync => "matching vsync id"
  | .followingInterval => "downstream entries until the next upstream entry"
  | .precedingInterval => "first downstream entry at or after"
  | .nearest => "nearest downstream entry"

end Link

namespace FrameMap

/-- Numbers a list of keys so that equal keys next to each other share a number. -/
def runNumbers (frame : Nat) : List Int → List Nat
  | [] => []
  | [_] => [frame]
  | a :: b :: rest => frame :: runNumbers (if a = b then frame else frame + 1) (b :: rest)

/--
The frames of the trace that the numbering starts from: one for each run of equal keys if every
entry has a key, and otherwise one for each entry.
-/
def root (size : Nat) (keys : Option (List Int)) : FrameMap :=
  let numbers :=
    match keys with
    | some ks => if ks.length = size then runNumbers 0 ks else List.range size
    | none => List.range size
  (numbers.map fun frame => some (FrameRange.single frame)).toArray

/-- The number of values before `t`. -/
def countBefore (values : Array Nanos) (t : Nanos) : Nat := bisect values fun v => decide (v < t)

/-- The last value before `t` and its index. -/
def lastBefore? (values : Array Nanos) (t : Nanos) : Option (Nat × Nanos) :=
  match countBefore values t with
  | 0 => none
  | i + 1 => values[i]?.map (i, ·)

/-- The first value at or after `t` and its index. -/
def firstFrom? (values : Array Nanos) (t : Nanos) : Option (Nat × Nanos) :=
  let i := countBefore values t
  values[i]?.map (i, ·)

/-- Each source entry hands its frames to the last target entry before it. -/
def latestBefore (target source : Array Nanos) (frames : FrameMap) (gap : Nanos) : FrameMap :=
  (source.zip frames).foldl (fun map s =>
    match lastBefore? target s.1 with
    | some (i, t) => if s.1.satSub t ≤ gap then map.modify i (FrameRange.join · s.2) else map
    | none => map) (Array.replicate target.size none)

/-- Each target entry takes the frames of all source entries with its key. -/
def matchingKey (target source : Array Int) (frames : FrameMap) : FrameMap :=
  let byKey : Std.HashMap Int FrameRange :=
    (source.zip frames).foldl (fun m s => m.alter s.1 (FrameRange.join · s.2)) ∅
  target.map fun key => byKey[key]?

/--
Each target entry takes the frames of the source entries from its own time up to the next target
entry, but only of those within the gap.
-/
def followingInterval (target source : Array Nanos) (frames : FrameMap) (gap : Nanos) :
    FrameMap :=
  target.mapIdx fun i start =>
    let limit := start.satAdd gap
    let stop :=
      match target[i + 1]? with
      | some next => if next < limit then next else limit
      | none => limit
    (frames.extract (countBefore source start) (countBefore source stop)).foldl
      FrameRange.join none

/-- Each target entry takes the frames of the first source entry at or after it. -/
def precedingInterval (target source : Array Nanos) (frames : FrameMap) (gap : Nanos) :
    FrameMap :=
  target.map fun t =>
    match firstFrom? source t with
    | some (j, s) => if s.satSub t ≤ gap then frames[j]?.join else none
    | none => none

/-- The closest source entry to `t` and its distance, the earlier of two. -/
def closest? (source : Array Nanos) (t : Nanos) : Option (Nat × Nanos) :=
  let before := (lastBefore? source t).map fun (i, s) => (i, t.satSub s)
  let after := (firstFrom? source t).map fun (i, s) => (i, s.satSub t)
  match before, after with
  | some b, some a => some (if b.2 ≤ a.2 then b else a)
  | some b, none => some b
  | none, a => a

/-- Each target entry takes the frames of the closest source entry. -/
def nearest (target source : Array Nanos) (frames : FrameMap) (gap : Nanos) : FrameMap :=
  target.map fun t =>
    match closest? source t with
    | some (i, distance) => if distance ≤ gap then frames[i]?.join else none
    | none => none

/-- The first entries of a map, or the map with frameless entries behind it. -/
def resize (map : FrameMap) (size : Nat) : FrameMap :=
  map.extract 0 size ++ Array.replicate (size - map.size) none

end FrameMap

end FrameAlign
