/-!
# Nanoseconds

A count of nanoseconds fits a signed 64-bit word. Sums, differences and unit changes that would
leave that range stop at its nearer end, so that no operation wraps around.
-/

namespace FrameAlign

/-- A count of nanoseconds within the signed 64-bit range. -/
structure Nanos where
  val : Int
  min_le : -9223372036854775808 ≤ val
  le_max : val ≤ 9223372036854775807
deriving DecidableEq

namespace Nanos

/-- The number is a count of nanoseconds. -/
def Fits (n : Int) : Prop := -9223372036854775808 ≤ n ∧ n ≤ 9223372036854775807

/-- Whether a number fits is a comparison with two constants. -/
instance (n : Int) : Decidable (Fits n) :=
  inferInstanceAs (Decidable (-9223372036854775808 ≤ n ∧ n ≤ 9223372036854775807))

/-- A value in range is its number: the bounds are proofs and tell nothing apart. -/
@[ext] theorem ext {a b : Nanos} (h : a.val = b.val) : a = b := by
  cases a; cases b; simp_all

/-- The representable count nearest to `n`. -/
def clamp (n : Int) : Nanos :=
  ⟨max (-9223372036854775808) (min n 9223372036854775807), by omega, by omega⟩

/-- A number inside the range is its own nearest count. -/
theorem val_clamp_of_mem {n : Int} (lower : -9223372036854775808 ≤ n)
    (upper : n ≤ 9223372036854775807) : (clamp n).val = n := by
  simp only [clamp]
  omega

/-- Clamping keeps the order of numbers. -/
theorem val_clamp_mono {m n : Int} (h : m ≤ n) : (clamp m).val ≤ (clamp n).val := by
  simp only [clamp]
  omega

/-- Clamping changes nothing that fits already. -/
@[simp] theorem clamp_val (a : Nanos) : clamp a.val = a :=
  ext (val_clamp_of_mem a.min_le a.le_max)

instance : Inhabited Nanos := ⟨clamp 0⟩

instance : LE Nanos := ⟨fun a b => a.val ≤ b.val⟩

instance : LT Nanos := ⟨fun a b => a.val < b.val⟩

instance (a b : Nanos) : Decidable (a ≤ b) := inferInstanceAs (Decidable (a.val ≤ b.val))

instance (a b : Nanos) : Decidable (a < b) := inferInstanceAs (Decidable (a.val < b.val))

/-- The order is that of the numbers, so comparisons of times are arithmetic on integers. -/
theorem le_def {a b : Nanos} : a ≤ b ↔ a.val ≤ b.val := Iff.rfl

/-- The strict order is that of the numbers as well. -/
theorem lt_def {a b : Nanos} : a < b ↔ a.val < b.val := Iff.rfl

/-- The order is total: what is not before is the same or later. -/
theorem not_lt {a b : Nanos} : ¬a < b ↔ b ≤ a := Int.not_lt

instance : Ord Nanos := ⟨fun a b => compare a.val b.val⟩

/-- The sum, stopped at the ends of the range. -/
def satAdd (a b : Nanos) : Nanos := clamp (a.val + b.val)

/-- The difference `a - b`, stopped at the ends of the range. -/
def satSub (a b : Nanos) : Nanos := clamp (a.val - b.val)

/-- A number of milliseconds, stopped at the ends of the range. -/
def ofMillis (ms : Int) : Nanos := clamp (ms * 1000000)

/-- Whole milliseconds, rounded toward zero. -/
def toMillis (a : Nanos) : Int := a.val.tdiv 1000000

/-- A later start is not nearer to a fixed end. -/
theorem satSub_mono_left {a b : Nanos} (c : Nanos) (h : a ≤ b) : a.satSub c ≤ b.satSub c := by
  have h' : a.val ≤ b.val := h
  exact val_clamp_mono (by omega)

/-- A later end is not farther from a fixed start. -/
theorem satSub_anti_right {b c : Nanos} (a : Nanos) (h : b ≤ c) : a.satSub c ≤ a.satSub b := by
  have h' : b.val ≤ c.val := h
  exact val_clamp_mono (by omega)

/-- Adding a fixed count keeps the order. -/
theorem satAdd_mono_left {a b : Nanos} (c : Nanos) (h : a ≤ b) : a.satAdd c ≤ b.satAdd c := by
  have h' : a.val ≤ b.val := h
  exact val_clamp_mono (by omega)

end Nanos

end FrameAlign
