import FrameAlign.Json.Tree
import FrameAlign.Text.Quoted

/-!
# Reading records from a document

The causes for which a document is not the record that a reader expects, and the readers of single
values. A document that breaks off or breaks the grammar is malformed wherever the reader meets
the break; what the document has instead of the expected value is named otherwise.
-/

namespace FrameAlign.Json

/-- What a document has in a place. -/
inductive Found where
  | null
  | bool (b : Bool)
  | number (n : Number)
  | string (s : String)
  | sequence
  | map
deriving Inhabited, BEq

/-- What a document has in a place, in words. -/
def Found.text : Found → String
  | .null => "null"
  | .bool b => "boolean `" ++ (if b then "true" else "false") ++ "`"
  | .number (.whole n) => "integer `" ++ toString n ++ "`"
  | .number (.float x) => "floating point `" ++ Number.floatText x ++ "`"
  | .string s => "string " ++ Quoted.text s
  | .sequence => "sequence"
  | .map => "map"

/-- Why a document is not the expected record. -/
inductive ReadError where
  /-- The document is no JSON document. -/
  | malformed
  /-- The document has nothing that could name a choice. -/
  | noChoice
  /-- A record written as an array has too many items. -/
  | surplusItems
  /-- The document has a value of another type. -/
  | invalidType (found : Found) (expected : String)
  /-- The document has a value outside of the expected range. -/
  | invalidValue (found : Found) (expected : String)
  /-- A record written as an array has too few items. -/
  | invalidLength (length : Nat) (expected : String)
  /-- The document has a name that is none of the expected ones. -/
  | unknownVariant (name : String) (expected : List String)
  /-- A record lacks a field. -/
  | missingField (name : String)
  /-- A record has a field twice. -/
  | duplicateField (name : String)
deriving Inhabited, BEq

namespace ReadError

/-- A name between grave accents. -/
def ticked (name : String) : String := "`" ++ name ++ "`"

/-- The names that could have stood in a place. -/
def alternatives : List String → String
  | [] => "there are no variants"
  | [a] => "expected " ++ ticked a
  | [a, b] => "expected " ++ ticked a ++ " or " ++ ticked b
  | names => "expected one of " ++ ", ".intercalate (names.map ticked)

/-- The error in words. -/
def message : ReadError → String
  | .malformed => "malformed document"
  | .noChoice => "expected value"
  | .surplusItems => "trailing characters"
  | .invalidType found expected => "invalid type: " ++ found.text ++ ", expected " ++ expected
  | .invalidValue found expected => "invalid value: " ++ found.text ++ ", expected " ++ expected
  | .invalidLength length expected =>
    "invalid length " ++ toString length ++ ", expected " ++ expected
  | .unknownVariant name expected =>
    "unknown variant " ++ ticked name ++ ", " ++ alternatives expected
  | .missingField name => "missing field " ++ ticked name
  | .duplicateField name => "duplicate field " ++ ticked name

end ReadError

/-- A reader's result. -/
abbrev Read := Except ReadError

namespace Tree

/-- The error of a reader that expects something else than what the tree has. -/
def mismatch (expected : String) : Tree → ReadError
  | .missing | .number none | .string none => .malformed
  | .null => .invalidType .null expected
  | .bool b => .invalidType (.bool b) expected
  | .number (some n) => .invalidType (.number n) expected
  | .string (some s) => .invalidType (.string s) expected
  | .array _ _ => .invalidType .sequence expected
  | .object _ _ => .invalidType .map expected

/-- A signed 64-bit number. -/
def readInt (t : Tree) : Read Int :=
  match t with
  | .number (some (.whole n)) =>
    if n ≤ 9223372036854775807 then .ok n else .error (.invalidValue (.number (.whole n)) "i64")
  | _ => .error (t.mismatch "i64")

/-- A closed array, each of whose items is read in turn. -/
def readArray {α : Type} (read : Tree → Read α) (t : Tree) : Read (List α) :=
  match t with
  | .array items closed => do
    let list ← items.mapM read
    if closed then return list else .error .malformed
  | _ => .error (t.mismatch "a sequence")

/-- Nothing for null, and otherwise what the tree has. -/
def readOptional {α : Type} (read : Tree → Read α) (t : Tree) : Read (Option α) :=
  match t with
  | .null => .ok none
  | _ => some <$> read t

/-- Any value in which arrays and objects lie at most `depth` deep. -/
def readValue (depth : Nat) (t : Tree) : Read Value :=
  match t.value? depth with
  | some v => .ok v
  | none => .error .malformed

/-- The choice with the given name. -/
def choose {α : Type} (choices : List (String × α)) (name : String) : Read α :=
  match choices.lookup name with
  | some a => .ok a
  | none => .error (.unknownVariant name (choices.map (·.1)))

/-- One of some named choices: a name, or an object with this name alone and the value null. -/
def readChoice {α : Type} (choices : List (String × α)) (t : Tree) : Read α :=
  match t with
  | .string (some name) => choose choices name
  | .object ((key, value) :: rest) closed => do
    let a ←
      match key with
      | some name => choose choices name
      | none => .error .malformed
    match value with
    | .null => if rest.isEmpty && closed then .ok a else .error .noChoice
    | other => .error (other.mismatch "unit")
  | _ => .error .noChoice

end Tree

end FrameAlign.Json
