import FrameAlign.Text.Unprintable
import FrameAlign.Text.GraphemeExtend

/-!
# Quoted text

A text within double quotes as messages show it: quotes and backslashes are escaped, the common
controls have short escapes, and every other character that has no glyph of its own is written
with its code point, `\u{7}`.
-/

namespace FrameAlign.Quoted

/-- Whether one of the ranges, both ends included, holds `n`. -/
def within (ranges : Array (Nat × Nat)) (n : Nat) : Bool :=
  ranges.any fun r => r.1 ≤ n && n ≤ r.2

/-- The Hangul fillers: letters that stand for a missing part of a syllable and show nothing. -/
def fillers : Array (Nat × Nat) := #[(0x115f, 0x1160), (0x3164, 0x3164), (0xffa0, 0xffa0)]

/-- Whether the character shows no glyph of its own. -/
def isGlyphless (c : Char) : Bool :=
  if 0x20 ≤ c.toNat && c.toNat < 0x7f then false
  else
    within Unprintable.ranges c.toNat || within GraphemeExtend.ranges c.toNat ||
      within fillers c.toNat

/-- A code point between braces, in hexadecimal without leading zeros. -/
def codePoint (c : Char) : String :=
  "\\u\x7b" ++ String.ofList (Nat.toDigits 16 c.toNat) ++ "\x7d"

/-- The written form of one character. -/
def escape (c : Char) : String :=
  if c = '\x00' then "\\0"
  else if c = '\t' then "\\t"
  else if c = '\n' then "\\n"
  else if c = '\r' then "\\r"
  else if c = '"' then "\\\""
  else if c = '\\' then "\\\\"
  else if isGlyphless c then codePoint c
  else String.singleton c

/-- The text between double quotes. -/
def text (s : String) : String :=
  "\"" ++ String.join (s.toList.map escape) ++ "\""

end FrameAlign.Quoted
