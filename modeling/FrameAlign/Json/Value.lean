import FrameAlign.Json.Number

/-!
# JSON values

The members of an object keep the order in which they were written; of two members with one name
the later value stays.
-/

namespace FrameAlign.Json

/-- A JSON value. -/
inductive Value where
  | null
  | bool (b : Bool)
  | number (n : Number)
  | string (s : String)
  | array (items : List Value)
  | object (members : List (String × Value))
deriving Inhabited, BEq

namespace Value

/-- A whole number as a value. -/
def ofInt (n : Int) : Value := .number (.whole n)

/-- A natural number as a value. -/
def ofNat (n : Nat) : Value := .number (.whole n)

/-- The members in which `name` has the value `v`. -/
def putMember (name : String) (v : Value) : List (String × Value) → List (String × Value)
  | [] => [(name, v)]
  | (other, w) :: rest =>
    if other = name then (name, v) :: rest else (other, w) :: putMember name v rest

/-- The object of the given members, where the last of a name counts. -/
def ofMembers (members : List (String × Value)) : Value :=
  .object (members.foldl (fun acc m => putMember m.1 m.2 acc) [])

/-- The value of a member of an object. -/
def member? (name : String) : Value → Option Value
  | .object members => (members.find? fun m => m.1 = name).map (·.2)
  | _ => none

/-- Whether the value is an array. -/
def isArray : Value → Bool
  | .array _ => true
  | _ => false

end Value

end FrameAlign.Json
