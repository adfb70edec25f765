import FrameAlign.Time.Timestamp

/-!
# From recorded values to moments

A device may report how far its elapsed clock lies behind the real one. All traces of a load must
be shifted alike to line up, so an offset that the load has settled on takes the place of the
offset that a device reported.
-/

namespace FrameAlign

/-- The offset between the elapsed and the real clock that a load has settled on, if any. -/
structure Epoch where
  offset : Option Nanos := none
deriving DecidableEq

/--
The moment of a recorded value. A value of the real clock is the moment itself. A value of the
elapsed clock becomes real only where its device reported an offset, and the offset of the load
goes before the one reported.
-/
def Epoch.timestamp (epoch : Epoch) (clock : Clock) (reported : Option Nanos) (raw : Nanos) :
    Timestamp :=
  match clock, reported with
  | .real, _ => .real raw
  | .elapsed, some own => .real (raw.satAdd (epoch.offset.getD own))
  | .elapsed, none => .elapsed raw

/-- A larger value does not become an earlier moment, whatever the offsets are. -/
theorem Epoch.timestamp_mono (epoch : Epoch) (clock : Clock) (reported : Option Nanos)
    {a b : Nanos} (h : a ≤ b) :
    (epoch.timestamp clock reported a).value ≤ (epoch.timestamp clock reported b).value := by
  cases clock with
  | real => exact h
  | elapsed =>
    cases reported with
    | none => exact h
    | some own => exact Nanos.satAdd_mono_left _ h

/-- Whether a moment is real depends on the clock and on whether an offset was reported. -/
theorem Epoch.isReal_timestamp (epoch : Epoch) (clock : Clock) (reported : Option Nanos)
    (raw : Nanos) :
    (epoch.timestamp clock reported raw).isReal = (clock = .real || reported.isSome) := by
  cases clock with
  | real => rfl
  | elapsed => cases reported <;> rfl

end FrameAlign
