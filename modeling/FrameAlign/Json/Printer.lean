import FrameAlign.Json.Value

/-!
# The text of a JSON value

Values are laid out over lines, two blanks deeper for each array or object around them. An empty
array or object stays on its line.
-/

namespace FrameAlign.Json.Printer

/-- A hexadecimal digit in lower case. -/
def hexDigit (n : Nat) : Char := Nat.digitChar (n % 16)

/-- The written form of a character inside a string. -/
def escape (c : Char) : String :=
  if c = '"' then "\\\""
  else if c = '\\' then "\\\\"
  else if c = '\n' then "\\n"
  else if c = '\r' then "\\r"
  else if c = '\t' then "\\t"
  else if c.toNat = 8 then "\\b"
  else if c.toNat = 12 then "\\f"
  else if c.toNat < 0x20 then
    "\\u00" ++ String.ofList [hexDigit (c.toNat / 16), hexDigit c.toNat]
  else String.singleton c

/-- A string between quotes. -/
def string (s : String) : String := "\"" ++ String.join (s.toList.map escape) ++ "\""

/-- The start of a line at a depth. -/
def newline (depth : Nat) : String := "\n" ++ String.ofList (List.replicate (2 * depth) ' ')

/-- Lines between brackets, or the brackets alone when there are none. -/
def block (depth : Nat) (opening closing : String) (lines : List String) : String :=
  if lines.isEmpty then opening ++ closing
  else
    opening ++ newline (depth + 1) ++ (("," ++ newline (depth + 1)).intercalate lines) ++
      newline depth ++ closing

mutual

/-- The text of a value at a depth. -/
def text (depth : Nat) : Value → String
  | .null => "null"
  | .bool b => if b then "true" else "false"
  | .number n => n.text
  | .string s => string s
  | .array items => block depth "[" "]" (itemTexts (depth + 1) items)
  | .object members => block depth "\x7b" "\x7d" (memberTexts (depth + 1) members)

/-- The texts of the items of an array. -/
def itemTexts (depth : Nat) : List Value → List String
  | [] => []
  | v :: rest => text depth v :: itemTexts depth rest

/-- The texts of the members of an object. -/
def memberTexts (depth : Nat) : List (String × Value) → List String
  | [] => []
  | (name, v) :: rest => (string name ++ ": " ++ text depth v) :: memberTexts depth rest

end

end FrameAlign.Json.Printer

namespace FrameAlign.Json

/-- The text of a value over lines. -/
def Value.pretty (v : Value) : String := Printer.text 0 v

end FrameAlign.Json
