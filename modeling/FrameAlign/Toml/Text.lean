import FrameAlign.Toml.Blank

/-!
# Strings and keys

A string stands in double quotes with escapes or in single quotes without. Three quotes instead of
one let it go over several lines; there, one or two quotes next to each other are content, also
right before the closing three. A key is a word or a string of one line.
-/

namespace FrameAlign.Toml

open Scanner

/-- Whether the character is a hexadecimal digit. -/
def isHexDigit (c : Char) : Bool := c.isDigit || ('a' ≤ c && c ≤ 'f') || ('A' ≤ c && c ≤ 'F')

/-- The value of a digit of any base up to sixteen. -/
def digitValue (c : Char) : Nat :=
  if c.isDigit then c.toNat - '0'.toNat
  else if 'a' ≤ c then c.toNat - 'a'.toNat + 10
  else c.toNat - 'A'.toNat + 10

/-- The number with the given digits. -/
def ofDigits (base : Nat) (digits : List Char) : Nat :=
  digits.foldl (fun n d => n * base + digitValue d) 0

/-- The character whose code point has so many hexadecimal digits. -/
def codePoint (digits : Nat) : Scanner Char := do
  let n := ofDigits 16 (← count isHexDigit digits)
  if n.isValidChar then return Char.ofNat n else failure

/-- An escape: a backslash and what names the character. -/
def escape : Scanner Char := do
  exactly ['\\']
  match ← char fun _ => true with
  | 'b' => return '\x08'
  | 't' => return '\t'
  | 'n' => return '\n'
  | 'f' => return '\x0c'
  | 'r' => return '\r'
  | '"' => return '"'
  | '\\' => return '\\'
  | 'u' => codePoint 4
  | 'U' => codePoint 8
  | _ => failure

/-- A character of a string in double quotes that stands for itself. -/
def basicChar : Scanner Char := char fun c => isPrintable c && c ≠ '"' && c ≠ '\\'

/-- A character of a string in single quotes. -/
def literalChar : Scanner Char := char fun c => isPrintable c && c ≠ '\''

/-- A string of one line between two quotes. -/
def inLine (quote : Char) (content : Scanner Char) : Scanner String := do
  exactly [quote]
  let text ← many content
  exactly [quote]
  return String.ofList text

/-- A run of so many quotes or fewer. -/
def quotes (quote : Char) (least most : Nat) : Scanner (List Char) := do
  let run ← span₁ (· = quote)
  if least ≤ run.length && run.length ≤ most then return run else failure

/-- A string of any number of lines between three quotes; a line end right at its start is none. -/
def inLines (quote : Char) (content : Scanner (List Char)) : Scanner String := do
  exactly [quote, quote, quote]
  discard (maybe lineEnd)
  let text ← many (content <|> (lineEnd *> pure ['\n']) <|> quotes quote 1 2)
  let closing ← quotes quote 3 5
  return String.ofList (text.flatten ++ closing.drop 3)

/-- A backslash at the end of a line, which joins the line with the next one that is not blank. -/
def lineJoin : Scanner (List Char) := do
  exactly ['\\']
  skipSpaces
  lineEnd
  discard (many (discard (span₁ isSpace) <|> lineEnd))
  return []

/-- A string of one line. -/
def lineString : Scanner String :=
  inLine '"' (basicChar <|> escape) <|> inLine '\'' literalChar

/-- A string. -/
def string : Scanner String :=
  inLines '"' (lineJoin <|> (([·]) <$> (basicChar <|> escape))) <|>
    inLines '\'' (([·]) <$> literalChar) <|> lineString

/-- Whether the character may stand in a key without quotes. -/
def isKeyChar (c : Char) : Bool := c.isAlphanum || c = '_' || c = '-'

/-- A key without dots outside of quotes. -/
def simpleKey : Scanner String := (String.ofList <$> span₁ isKeyChar) <|> lineString

/-- A path has fewer keys than this. -/
def maxPathLength : Nat := 80

/-- The keys along a path, each between blanks, set off by dots. -/
def keyPath : Scanner (List String) := do
  let keys ← separated₁ (exactly ['.']) do
    skipSpaces
    let key ← simpleKey
    skipSpaces
    return key
  if keys.length < maxPathLength then return keys else failure

end FrameAlign.Toml
