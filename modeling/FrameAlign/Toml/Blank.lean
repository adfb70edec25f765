import FrameAlign.Toml.Scanner

/-!
# Blanks, line ends and comments

Blanks are spaces and tabs. A line ends with a line feed, which a carriage return may precede, and
a comment goes on to the end of its line.
-/

namespace FrameAlign.Toml

open Scanner

/-- Whether the character is a space or a tab. -/
def isSpace (c : Char) : Bool := c = ' ' || c = '\t'

/-- Whether the character may stand in comments and strings: all but the ASCII controls. -/
def isPrintable (c : Char) : Bool := c = '\t' || (' ' ≤ c && c ≠ '\x7f')

/-- Blanks, if any. -/
def skipSpaces : Scanner Unit := discard (span isSpace)

/-- The end of a line. -/
def lineEnd : Scanner Unit := exactly ['\n'] <|> exactly ['\r', '\n']

/-- A comment without the end of its line. -/
def comment : Scanner Unit := do
  exactly ['#']
  discard (span isPrintable)

/-- Blanks and a comment, if any, up to the end of a line or of the text. -/
def restOfLine : Scanner Unit := do
  skipSpaces
  discard (maybe comment)
  lineEnd <|> atEnd

/-- Blanks, line ends and commented line ends, if any. -/
def skipLines : Scanner Unit :=
  discard (many (discard (span₁ isSpace) <|> lineEnd <|> do comment; lineEnd))

end FrameAlign.Toml
