/-!
# Scanners

A scanner takes something off the front of a text or fails. Alternatives start over where the one
before them started, and repetitions take as much as they can.
-/

namespace FrameAlign.Toml

/-- Takes a value of `α` off the front of a text, or fails. -/
abbrev Scanner (α : Type) := StateT (List Char) Option α

namespace Scanner

/-- The next character, if it satisfies a condition. -/
def char (p : Char → Bool) : Scanner Char
  | [] => none
  | c :: rest => if p c then some (c, rest) else none

/-- The given text. -/
def exactly (word : List Char) : Scanner Unit := fun s =>
  if word.isPrefixOf s then some ((), s.drop word.length) else none

/-- All characters up to the first that does not satisfy a condition. -/
def span (p : Char → Bool) : Scanner (List Char) := fun s => some (s.takeWhile p, s.dropWhile p)

/-- Like `span`, but at least one character. -/
def span₁ (p : Char → Bool) : Scanner (List Char) := do
  return (← char p) :: (← span p)

/-- So many characters that satisfy a condition. -/
def count (p : Char → Bool) : Nat → Scanner (List Char)
  | 0 => return []
  | n + 1 => do return (← char p) :: (← count p n)

/-- The repetitions of a scanner, at most `limit` of them, added in reverse to those in front. -/
def repeatUpTo {α : Type} (p : Scanner α) (done : List α) : Nat → List Char → List α × List Char
  | 0, s => (done.reverse, s)
  | limit + 1, s =>
    match p s with
    | some (a, rest) => repeatUpTo p (a :: done) limit rest
    | none => (done.reverse, s)

/-- As many repetitions of a scanner as there are; each takes at least one character. -/
def many {α : Type} (p : Scanner α) : Scanner (List α) := fun s =>
  some (repeatUpTo p [] s.length s)

/-- At least one repetition of a scanner. -/
def many₁ {α : Type} (p : Scanner α) : Scanner (List α) := do
  return (← p) :: (← many p)

/-- One or more items with a separator between any two. -/
def separated₁ {α : Type} (separator : Scanner Unit) (item : Scanner α) : Scanner (List α) := do
  return (← item) :: (← many do separator; item)

/-- Goes on without a scanner where it fails. -/
def maybe {α : Type} (p : Scanner α) : Scanner (Option α) := (some <$> p) <|> pure none

/-- Succeeds at the end of the text. -/
def atEnd : Scanner Unit
  | [] => some ((), [])
  | _ :: _ => none

/-- The value that a scanner makes of a whole text. -/
def runAll? {α : Type} (p : Scanner α) (text : List Char) : Option α :=
  match p text with
  | some (a, []) => some a
  | _ => none

end Scanner

end FrameAlign.Toml
