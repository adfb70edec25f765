import FrameAlign.Category.Map
import FrameAlign.Frames.Range

/-!
# The table of frames

Two views of the same facts: for every entry of a trace the frames it belongs to, and for every
frame the entries that belong to it.
-/

namespace FrameAlign

/-- The entries that belong to a frame, for every category that has frames. -/
structure Frame where
  index : Nat
  entries : CategoryMap (Array Nat)

/-- The frames of some traces. -/
structure FrameTable where
  /-- The frames of every entry. -/
  maps : CategoryMap FrameMap := CategoryMap.empty
  frames : Array Frame := #[]

namespace FrameTable

/-- The number of frames that the entries of a trace reach up to. -/
def reach (map : FrameMap) : Nat :=
  map.foldl (fun most range => max most ((range.map (·.stop)).getD 0)) 0

/-- Adds an entry to the lists of its frames. -/
def scatterEntry (lists : Array (Array Nat)) (entry : Nat) (range : Option FrameRange) :
    Array (Array Nat) :=
  match range with
  | none => lists
  | some r => r.frames.foldl (fun acc frame => acc.modify frame (·.push entry)) lists

/-- The entries of a trace for each of `count` frames. -/
def scatter (count : Nat) (map : FrameMap) : Array (Array Nat) :=
  map.toList.zipIdx.foldl (fun lists item => scatterEntry lists item.2 item.1)
    (Array.replicate count #[])

/-- The table in which the entries have the given frames. -/
def ofMaps (maps : CategoryMap FrameMap) : FrameTable :=
  let count := (maps.values.map reach).foldl max 0
  let lists := maps.map (scatter count)
  { maps
    frames := (Array.range count).map fun i => ⟨i, lists.map fun l => l[i]?.getD #[]⟩ }

/-- The number of frames. -/
def size (t : FrameTable) : Nat := t.frames.size

/-- Whether there are no frames. -/
def isEmpty (t : FrameTable) : Bool := t.frames.isEmpty

/-- The categories whose entries were looked for in frames, in order. -/
def categories (t : FrameTable) : List Category := t.maps.keys

/-- Whether the entries of a category were looked for in frames. -/
def isFramed (t : FrameTable) (c : Category) : Bool := t.maps.contains c

/-- The frame with the given number. -/
def frame? (t : FrameTable) (i : Nat) : Option Frame := t.frames[i]?

/-- The entries of a category that belong to a frame. -/
def entries (t : FrameTable) (i : Nat) (c : Category) : Array Nat :=
  ((t.frame? i).bind (·.entries.get? c)).getD #[]

/-- The frames that an entry of a category belongs to. -/
def framesOf (t : FrameTable) (c : Category) (entry : Nat) : List Nat :=
  match (t.maps.get? c).bind (·[entry]?) with
  | some (some range) => range.frames
  | _ => []

end FrameTable

end FrameAlign
