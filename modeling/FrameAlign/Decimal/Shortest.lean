/-!
# Shortest decimals

The shortest decimal that reads back as a given double. A finite positive double is `m * 2 ^ q`; a
decimal reads back as it when it lies in the interval of the reals that round to it. For one
digit, two digits and so on, the two points next to the double on the grid of that many digits
are tried, and the first that lies in the interval is taken, the nearer one if both do.
-/

namespace FrameAlign

/-- The decimal `digits * 10 ^ exponent`. -/
structure Decimal where
  digits : Nat
  exponent : Int
deriving DecidableEq

/-- The same decimal with at most `fuel` trailing zeros of its digits moved into the exponent. -/
def Decimal.trim : Nat → Decimal → Decimal
  | 0, d => d
  | fuel + 1, d =>
    if d.digits ≠ 0 && d.digits % 10 = 0 then trim fuel ⟨d.digits / 10, d.exponent + 1⟩ else d

/-- The finite positive double `mantissa * 2 ^ exponent`. -/
structure Binary where
  mantissa : Nat
  exponent : Int
deriving DecidableEq

namespace Binary

/-- The finite double with the given bits, its sign aside. -/
def ofBits (bits : Nat) : Binary :=
  let fraction : Nat := bits % Nat.pow 2 52
  let biased : Nat := bits / Nat.pow 2 52 % Nat.pow 2 11
  if biased = 0 then ⟨fraction, -1074⟩ else ⟨fraction + Nat.pow 2 52, (biased : Int) - 1075⟩

/-- Twice the distance from the double down to the end of its interval, in quarters of the unit. -/
def lowerGap (b : Binary) : Nat :=
  if b.mantissa = Nat.pow 2 52 && -1074 < b.exponent then 1 else 2

/-- `n * 2 ^ two * 10 ^ ten` as a fraction. -/
def scaled (n : Nat) (two ten : Int) : Nat × Nat :=
  (n * Nat.pow 2 two.toNat * Nat.pow 10 ten.toNat,
    Nat.pow 2 (-two).toNat * Nat.pow 10 (-ten).toNat)

/-- Whether the decimal lies in the interval of reals that round to the double. -/
def readsBack (b : Binary) (d : Decimal) : Bool :=
  let (n, k) := scaled d.digits (2 - b.exponent) d.exponent
  let low := (4 * b.mantissa - b.lowerGap) * k
  let high := (4 * b.mantissa + 2) * k
  if b.mantissa % 2 = 0 then low ≤ n && n ≤ high else low < n && n < high

/-- The number of decimal places by which the double must be moved to reach at least one. -/
def places (n d : Nat) : Nat → Nat
  | 0 => 0
  | fuel + 1 => if d ≤ n then 0 else places (n * 10) d fuel + 1

/-- The exponent of the leading decimal digit of `n / d`. -/
def leadingExponent (n d : Nat) : Int :=
  if d ≤ n then ((Nat.toDigits 10 (n / d)).length : Int) - 1 else -(places n d 400 : Int)

/-- The point of the grid of multiples of `10 ^ exponent` that reads back, the nearer of two. -/
def onGrid? (b : Binary) (exponent : Int) : Option Decimal :=
  let (n, d) := scaled b.mantissa b.exponent (-exponent)
  let below : Decimal := ⟨n / d, exponent⟩
  let above : Decimal := ⟨n / d + 1, exponent⟩
  let rest := n % d
  let upper := d < 2 * rest || (d = 2 * rest && below.digits % 2 = 1)
  match b.readsBack below, b.readsBack above with
  | true, true => some (if upper then above else below)
  | true, false => some below
  | false, true => some above
  | false, false => none

/-- The decimal with the fewest digits that reads back as the double. -/
def shortest (b : Binary) : Decimal :=
  let (n, d) := scaled b.mantissa b.exponent 0
  let lead := leadingExponent n d
  let found := (List.range 17).findSome? fun (k : Nat) => b.onGrid? (lead - (k : Int))
  (found.getD ⟨n / d, 0⟩).trim 17

end Binary

end FrameAlign
