import FrameAlign.Decimal.Shortest

/-!
# Numbers of a JSON document

A number without fraction and exponent that fits 64 bits is a whole number. Every other number is
a double: the digits that fit an unsigned 64-bit word are taken as a whole number, which is then
multiplied or divided by a power of ten. A number beyond the largest double is no number.
-/

namespace FrameAlign.Json

/-- A number of a document. -/
inductive Number where
  /-- A whole number from `-2 ^ 63` to `2 ^ 64 - 1`. -/
  | whole (n : Int)
  /-- A double. -/
  | float (x : Float)
deriving Inhabited, BEq

namespace Number

/-- The value of a decimal digit. -/
def digitValue (c : UInt8) : Nat := c.toNat - 48

/-- The digits taken into a word as long as it holds them, and how many were left over. -/
def takeDigits (word : Nat) : List UInt8 → Nat × Nat
  | [] => (word, 0)
  | c :: rest =>
    let next := word * 10 + digitValue c
    if next < UInt64.size then takeDigits next rest else (word, rest.length + 1)

/-- `10 ^ n` as a double. -/
def powerOfTen (n : Nat) : Float := Float.ofScientific 1 false n

/-- `x / 10 ^ n`, in steps of the largest power of ten that a double holds. -/
def divideByPower (x : Float) (n : Nat) : Float :=
  if n ≤ 308 then x / powerOfTen n
  else if x == 0 then x
  else divideByPower (x / powerOfTen 308) (n - 308)
termination_by n

/-- The double `significand * 10 ^ exponent`, unless it lies beyond the largest double. -/
def scale? (significand : Nat) (exponent : Int) : Option Float :=
  let x := Float.ofNat significand
  if exponent < 0 then some (divideByPower x exponent.natAbs)
  else if significand = 0 then some x
  else if 308 < exponent then none
  else
    let y := x * powerOfTen exponent.toNat
    if y.isInf then none else some y

/-- The parts of a written number: sign, whole digits, fraction digits and signed exponent. -/
structure Parts where
  negative : Bool
  whole : List UInt8
  fraction : List UInt8
  exponent : Option Int
deriving DecidableEq

/-- The number with the given parts, unless it lies beyond the largest double. -/
def ofParts? (p : Parts) : Option Number :=
  let (word, dropped) := takeDigits 0 p.whole
  if p.fraction.isEmpty && p.exponent.isNone && dropped = 0 then
    if !p.negative then some (.whole word)
    else if word = 0 || Nat.pow 2 63 < word then some (.float (-(Float.ofNat word)))
    else some (.whole (-(word : Int)))
  else
    let (significand, unused) := takeDigits word p.fraction
    let shift := (dropped : Int) - (p.fraction.length - unused : Nat)
    let x := scale? significand (shift + p.exponent.getD 0)
    x.map fun x => .float (if p.negative then -x else x)

/--
The text of a finite double: the shortest digits that read back, positional while the exponent of
the leading digit is from -5 to 15, and with a signed exponent otherwise.
-/
def floatText (x : Float) : String :=
  let bits := x.toBits.toNat
  let sign := if Nat.pow 2 63 ≤ bits then "-" else ""
  let b := Binary.ofBits bits
  if b.mantissa = 0 then sign ++ "0.0"
  else
    let d := b.shortest
    let digits := Nat.toDigits 10 d.digits
    let lead := d.exponent + digits.length - 1
    let point (whole rest : List Char) : String :=
      String.ofList whole ++ "." ++ if rest.isEmpty then "0" else String.ofList rest
    sign ++
      if lead < -5 || 15 < lead then
        let mantissa :=
          match digits with
          | [c] => String.singleton c
          | _ => point (digits.take 1) (digits.drop 1)
        mantissa ++ (if lead < 0 then "e-" else "e+") ++ toString lead.natAbs
      else if lead < 0 then
        "0." ++ String.ofList (List.replicate (lead.natAbs - 1) '0') ++ String.ofList digits
      else
        let whole := lead.toNat + 1
        point (digits.take whole ++ List.replicate (whole - digits.length) '0') (digits.drop whole)

/-- The text of a number. -/
def text : Number → String
  | .whole n => toString n
  | .float x => floatText x

end Number

end FrameAlign.Json
