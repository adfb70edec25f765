/-!
# Bits of a compressed stream

The bits of a byte are read from the lowest to the highest, and numbers are packed with their
lowest bit first.
-/

namespace FrameAlign.Gzip.Bits

/-- The bits of a byte, the lowest first. -/
def ofByte (byte : UInt8) : List Bool := (List.range 8).map byte.toNat.testBit

/-- The bits of some bytes in the order in which they are read. -/
def ofBytes (bytes : List UInt8) : List Bool := bytes.flatMap ofByte

/-- The number in the next `n` bits and the bits after it. -/
def take? : Nat → List Bool → Option (Nat × List Bool)
  | 0, bits => some (0, bits)
  | _ + 1, [] => none
  | n + 1, b :: rest => do
    let (high, after) ← take? n rest
    return (2 * high + b.toNat, after)

/-- The bits from the next full byte on. -/
def align (bits : List Bool) : List Bool := bits.drop (bits.length % 8)

/-- Taking `n` bits uses up exactly `n`, from which the decoder's termination is counted. -/
theorem length_of_take? {n v : Nat} {bits rest : List Bool} (h : take? n bits = some (v, rest)) :
    rest.length + n = bits.length := by
  induction n generalizing bits v with
  | zero => simp_all [take?]
  | succ n ih =>
    cases bits with
    | nil => simp [take?] at h
    | cons b bits =>
      simp only [take?, Option.bind_eq_bind, Option.bind_eq_some_iff, Prod.exists, Option.pure_def,
        Option.some.injEq, Prod.mk.injEq] at h
      obtain ⟨high, after, h, -, rfl⟩ := h
      have := ih h
      simp only [List.length_cons]
      omega

end FrameAlign.Gzip.Bits
