import FrameAlign.Time.Nanos

/-!
# The text of a duration

A duration is written as counts of hours, minutes, seconds, milliseconds and nanoseconds without
separators, `1h2m3s4ms5ns`. Units whose count is zero are left out.
-/

namespace FrameAlign.Duration

/-- A unit of the written form and its length in nanoseconds. -/
structure TimeUnit where
  symbol : String
  size : Nat
deriving DecidableEq

/-- The units from the longest to the shortest; each divides the one before it. -/
def units : List TimeUnit :=
  [⟨"h", 3600000000000⟩, ⟨"m", 60000000000⟩, ⟨"s", 1000000000⟩, ⟨"ms", 1000000⟩, ⟨"ns", 1⟩]

/-- The positive counts that `n` nanoseconds have in the given units, the longest first. -/
def counts : List TimeUnit → Nat → List (Nat × TimeUnit)
  | [], _ => []
  | unit :: rest, n =>
    let tail := counts rest (n % unit.size)
    if n / unit.size = 0 then tail else (n / unit.size, unit) :: tail

/-- The written form of a number of nanoseconds; `0ns` when there is nothing to count. -/
def textOfNat (n : Nat) : String :=
  if n = 0 then "0ns"
  else String.join ((counts units n).map fun (count, unit) => toString count ++ unit.symbol)

/-- The written form of a duration, with a leading `-` for a negative one. -/
def text (d : Nanos) : String :=
  if d.val < 0 then "-" ++ textOfNat d.val.natAbs else textOfNat d.val.natAbs

end FrameAlign.Duration
