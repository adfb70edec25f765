/-!
# Values and tables

A table arises in one of four ways, which decide what may be added to it later: it has a header of
its own, it lies on the way to another header, it lies on the way to a dotted key, or it is written
out in one place.
-/

namespace FrameAlign.Toml

/-- How a table arose. -/
inductive Origin where
  /-- From its own header. -/
  | header
  /-- On the way to a header further down. -/
  | passed
  /-- On the way to a dotted key. -/
  | dotted
  /-- In one place, as a value. -/
  | inPlace
deriving DecidableEq, Repr

/-- A value. Floats and points in time are told apart from the rest, but are not kept. -/
inductive Value where
  | string (text : String)
  | integer (n : Int)
  | float
  | bool (b : Bool)
  | dateTime
  | array (items : List Value)
  | table (origin : Origin) (members : List (String × Value))
  /-- The tables that share a header, the last one first. -/
  | tables (newest : List (String × Value)) (older : List (List (String × Value)))
deriving Inhabited

/-- The members of a table in the order in which their keys were first met. -/
abbrev Members := List (String × Value)

namespace Members

/-- Sets the value of a key, which may depend on the one that it has. -/
def alter? (f : Option Value → Option Value) (key : String) : Members → Option Members
  | [] => (f none).map fun v => [(key, v)]
  | (k, v) :: rest =>
    if k = key then (f (some v)).map fun v => (k, v) :: rest
    else (alter? f key rest).map ((k, v) :: ·)

/-- The members with a value at a key that is new. -/
def insert? (key : String) (v : Value) : Members → Option Members :=
  alter? (fun old => if old.isNone then some v else none) key

/--
The members with a value at the end of a dotted path. The tables on the way must have arisen from
paths, and the last of them from a dotted one.
-/
def insertAt? (key : String) (v : Value) : List String → Members → Option Members
  | [] => insert? key v
  | k :: path =>
    alter? (fun
      | none => (insertAt? key v path []).map (.table .dotted)
      | some (.table origin inner) =>
        if origin = .dotted || (origin = .passed && !path.isEmpty) then
          (insertAt? key v path inner).map (.table origin)
        else none
      | some (.tables newest older) =>
        if path.isEmpty then none
        else (insertAt? key v path newest).map (.tables · older)
      | some _ => none) k

/-- The members with those of the table at a path of headers changed. -/
def changeAt? (f : Members → Option Members) : List String → Members → Option Members
  | [] => f
  | k :: path =>
    alter? (fun
      | none => (changeAt? f path []).map (.table .passed)
      | some (.table origin inner) =>
        if origin = .inPlace then none else (changeAt? f path inner).map (.table origin)
      | some (.tables newest older) => (changeAt? f path newest).map (.tables · older)
      | some _ => none) k

/-- Gives the table at a key its header; it may lie on the way to others that have theirs. -/
def openTable? (fill : Members → Option Members) (key : String) : Members → Option Members :=
  alter? (fun
    | none => (fill []).map (.table .header)
    | some (.table .passed inner) => (fill inner).map (.table .header)
    | some _ => none) key

/-- Adds a table to those that share the header of a key. -/
def addTable? (fill : Members → Option Members) (key : String) : Members → Option Members :=
  alter? (fun
    | none => (fill []).map (.tables · [])
    | some (.tables newest older) => (fill []).map (.tables · (newest :: older))
    | some _ => none) key

end Members

/-- A dotted key with its value. -/
structure Entry where
  path : List String
  key : String
  value : Value

/-- The members with those of some entries, in order. -/
def Members.insertAll? (entries : List Entry) (members : Members) : Option Members :=
  entries.foldlM (fun ms e => ms.insertAt? e.key e.value e.path) members

end FrameAlign.Toml
