/-!
# Ranges of frames

Frames are numbered from zero. An entry of a trace belongs to a range of frames, or to none.
-/

namespace FrameAlign

/-- The frames from `start` up to but without `stop`. -/
structure FrameRange where
  start : Nat
  stop : Nat
deriving DecidableEq, Repr

namespace FrameRange

/-- The range of one frame. -/
def single (frame : Nat) : FrameRange := ⟨frame, frame + 1⟩

/-- The smallest range that covers both. -/
def hull (a b : FrameRange) : FrameRange := ⟨min a.start b.start, max a.stop b.stop⟩

/-- The frames of the range in order. -/
def frames (r : FrameRange) : List Nat := List.range' r.start (r.stop - r.start)

/-- The frames of a range are those from its start to just before its stop, which is how every user
of a range reads it. -/
theorem mem_frames {r : FrameRange} {i : Nat} : i ∈ r.frames ↔ r.start ≤ i ∧ i < r.stop := by
  simp only [frames, List.mem_range'_1]
  omega

/-- The smallest range that covers what there is of both. -/
def join : Option FrameRange → Option FrameRange → Option FrameRange
  | some a, some b => some (a.hull b)
  | some a, none => some a
  | none, b => b

end FrameRange

/-- The frames of every entry of a trace. -/
abbrev FrameMap := Array (Option FrameRange)

end FrameAlign
