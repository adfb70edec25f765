import FrameAlign.Toml.Text
import FrameAlign.Toml.Value

/-!
# Numbers and points in time

Integers fit a signed 64-bit word and are written in base ten, two, eight or sixteen, with single
underscores between digits. Floats have a fraction part, an exponent or both; one that is larger
than every double is none. A point in time is a date, a time or both, with or without an offset.
-/

namespace FrameAlign.Toml

open Scanner

/-- Digits with single underscores between them. -/
def digits (p : Char → Bool) : Scanner (List Char) := do
  return (← char p) :: (← many (char p <|> (exactly ['_'] *> char p)))

/-- Whether there is a minus sign; a plus sign is taken as well. -/
def sign : Scanner Bool := do
  match ← maybe (char fun c => c = '+' || c = '-') with
  | some c => return c = '-'
  | none => return false

/-- The digits of a whole decimal number: a zero, or any that do not start with one. -/
def wholeDigits : Scanner (List Char) := do
  let all ← digits Char.isDigit
  if all.head? = some '0' && all.length ≠ 1 then failure else return all

/-- The number, if it fits a signed 64-bit word. -/
def fitting (n : Int) : Scanner Value :=
  if -9223372036854775808 ≤ n && n ≤ 9223372036854775807 then return .integer n else failure

/-- An integer in base ten. -/
def decimal : Scanner Value := do
  let negative ← sign
  let n := ofDigits 10 (← wholeDigits)
  fitting (if negative then -n else n)

/-- An integer in another base, which its first two characters name. -/
def based (mark : Char) (base : Nat) (p : Char → Bool) : Scanner Value := do
  exactly ['0', mark]
  fitting (ofDigits base (← digits p))

/-- An integer. -/
def integer : Scanner Value :=
  based 'x' 16 isHexDigit <|> based 'o' 8 (fun c => '0' ≤ c && c ≤ '7') <|>
    based 'b' 2 (fun c => c = '0' || c = '1') <|> decimal

/-- The exponent of a number. -/
def exponent : Scanner Int := do
  discard (char fun c => c = 'e' || c = 'E')
  let negative ← sign
  let n := ofDigits 10 (← digits Char.isDigit)
  return if negative then -n else n

/-- Everything from here on is rounded to infinity when it is made a double. -/
def doubleBound : Nat := Nat.pow 2 1024 - Nat.pow 2 970

/-- Whether the number `significand * 10 ^ exponent` lies beyond the largest double. -/
def isInfinite (significand : Nat) (exponent : Int) : Bool :=
  let top := (Nat.toDigits 10 significand).length + exponent
  if significand = 0 || top < 309 then false
  else if 309 < top then true
  else if exponent < 0 then doubleBound * Nat.pow 10 exponent.natAbs ≤ significand
  else doubleBound ≤ significand * Nat.pow 10 exponent.toNat

/-- A number with a fraction part, an exponent or both, or a word for a special one. -/
def float : Scanner Value :=
  (do
    let negative ← sign
    let whole ← wholeDigits
    let places ← maybe (exactly ['.'] *> digits Char.isDigit)
    let power ← maybe exponent
    let tail := places.getD []
    if places.isNone && power.isNone then failure
    else if !negative && isInfinite (ofDigits 10 (whole ++ tail)) (power.getD 0 - tail.length) then
      failure
    else return .float) <|>
  (do
    discard sign
    exactly ['i', 'n', 'f'] <|> exactly ['n', 'a', 'n']
    return .float)

/-- A number with two digits that is at most `most`. -/
def twoDigits (most : Nat) : Scanner Nat := do
  let n := ofDigits 10 (← count Char.isDigit 2)
  if n ≤ most then return n else failure

/-- The number of days of a month of a year. -/
def monthLength (year month : Nat) : Nat :=
  if month = 2 then
    if year % 4 = 0 && (year % 100 ≠ 0 || year % 400 = 0) then 29 else 28
  else if month = 4 || month = 6 || month = 9 || month = 11 then 30
  else 31

/-- A day of the calendar. -/
def date : Scanner Unit := do
  let year := ofDigits 10 (← count Char.isDigit 4)
  exactly ['-']
  let month ← twoDigits 12
  exactly ['-']
  let day ← twoDigits (monthLength year month)
  if month = 0 || day = 0 then failure

/-- Hours and minutes. -/
def hourMinute : Scanner Unit := do
  discard (twoDigits 23)
  exactly [':']
  discard (twoDigits 59)

/-- A time of day; the last minute may have a leap second. -/
def timeOfDay : Scanner Unit := do
  hourMinute
  exactly [':']
  discard (twoDigits 60)
  discard (maybe (exactly ['.'] *> span₁ Char.isDigit))

/-- The distance of a time zone from universal time. -/
def zoneOffset : Scanner Unit :=
  discard (char fun c => c = 'Z' || c = 'z') <|> do
    discard (char fun c => c = '+' || c = '-')
    hourMinute

/-- A point in time. -/
def dateTime : Scanner Value :=
  (do
    date
    discard (maybe do
      discard (char fun c => c = 'T' || c = 't' || c = ' ')
      timeOfDay
      maybe zoneOffset)
    return .dateTime) <|>
  (do
    timeOfDay
    return .dateTime)

/-- A number or a point in time. -/
def number : Scanner Value := dateTime <|> float <|> integer

end FrameAlign.Toml
