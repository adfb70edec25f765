import FrameAlign.Json.ReadError
import FrameAlign.Time.Timestamp
import FrameAlign.Category

/-!
# Records of a trace file

A trace file holds one trace record, a session file a list of them. Records are objects whose
unknown members are passed over, or arrays of their fields in order. A document is read from left
to right, and the first failure counts.
-/

namespace FrameAlign.Capture

open Json

/-- A trace as a file holds it. -/
structure TraceRecord where
  category : Category
  values : List Nanos := []
  clock : Clock := .elapsed
  offset : Option Nanos := none
  vsyncIds : Option (List Int) := none
  entries : List Value := []

/-- A session as a file holds it. -/
structure SessionRecord where
  traces : List TraceRecord
  /-- The offset of the traces that do not have their own. -/
  offset : Option Nanos := none

/-- The categories by name. -/
def categoryChoices : List (String × Category) := Category.all.map fun c => (c.id, c)

/-- The clocks by name. -/
def clockChoices : List (String × Clock) := [("elapsed", .elapsed), ("real", .real)]

/-- A count of nanoseconds. -/
def readNanos (t : Tree) : Read Nanos := Nanos.clamp <$> t.readInt

/-- What has been read of a trace record; a field that has not been met is absent. -/
structure TraceFields where
  category : Option Category := none
  values : Option (List Nanos) := none
  clock : Option Clock := none
  offset : Option (Option Nanos) := none
  vsyncIds : Option (Option (List Int)) := none
  entries : Option (List Value) := none

namespace TraceFields

/-- A record as messages call it. -/
def title : String := "struct JsonTrace"

/-- The names of the fields in the order in which an array has them. -/
def names : List String :=
  ["category", "timestamps_ns", "time_base", "real_to_elapsed_offset_ns", "vsync_ids", "entries"]

/-- Whether the field with the given name has been met. -/
def has (f : TraceFields) (name : String) : Bool :=
  match name with
  | "category" => f.category.isSome
  | "timestamps_ns" => f.values.isSome
  | "time_base" => f.clock.isSome
  | "real_to_elapsed_offset_ns" => f.offset.isSome
  | "vsync_ids" => f.vsyncIds.isSome
  | "entries" => f.entries.isSome
  | _ => false

/-- Reads the field with the given name; values of entries lie at most `depth` deep. -/
def readField (depth : Nat) (f : TraceFields) (name : String) (t : Tree) : Read TraceFields :=
  match name with
  | "category" => return { f with category := some (← t.readChoice categoryChoices) }
  | "timestamps_ns" => return { f with values := some (← t.readArray readNanos) }
  | "time_base" => return { f with clock := some (← t.readChoice clockChoices) }
  | "real_to_elapsed_offset_ns" => return { f with offset := some (← t.readOptional readNanos) }
  | "vsync_ids" =>
    return { f with vsyncIds := some (← t.readOptional (Tree.readArray Tree.readInt)) }
  | "entries" => return { f with entries := some (← t.readArray (Tree.readValue depth)) }
  | _ => return f

/-- The record of the fields; only the category must have been met. -/
def toRecord (f : TraceFields) : Option TraceRecord :=
  f.category.map fun category =>
    { category
      values := f.values.getD []
      clock := f.clock.getD .elapsed
      offset := f.offset.join
      vsyncIds := f.vsyncIds.join
      entries := f.entries.getD [] }

end TraceFields

/-- What has been read of a session record; a field that has not been met is absent. -/
structure SessionFields where
  traces : Option (List TraceRecord) := none
  offset : Option (Option Nanos) := none

namespace SessionFields

/-- A record as messages call it. -/
def title : String := "struct JsonSession"

/-- The names of the fields in the order in which an array has them. -/
def names : List String := ["session", "real_to_elapsed_offset_ns"]

end SessionFields

/-- Reads the members of an object. A name that is met again is an error before its value is. -/
def readMembers {φ : Type} (has : φ → String → Bool) (readField : φ → String → Tree → Read φ)
    (closed : Bool) : φ → List (Option String × Tree) → Read φ
  | fields, [] => if closed then .ok fields else .error .malformed
  | fields, (some name, value) :: rest =>
    if has fields name then .error (.duplicateField name)
    else do readMembers has readField closed (← readField fields name value) rest
  | _, _ :: _ => .error .malformed

/--
Reads the items of an array as the named fields. A field whose item is missing is left out if it
may be, and otherwise the array is too short by it.
-/
def readPositions {φ : Type} (readField : φ → String → Tree → Read φ) (mayLack : String → Bool)
    (expected : String) (closed : Bool) : φ → Nat → List String → List Tree → Read φ
  | fields, _, [], [] => if closed then .ok fields else .error .malformed
  | _, _, [], _ :: _ => .error .surplusItems
  | fields, i, name :: names, [] =>
    if !closed then .error .malformed
    else if mayLack name then
      readPositions readField mayLack expected closed fields (i + 1) names []
    else .error (.invalidLength i expected)
  | fields, i, name :: names, item :: items => do
    readPositions readField mayLack expected closed (← readField fields name item) (i + 1) names
      items

/-- A record as a message about its length calls it. -/
def titleWithLength (title : String) (names : List String) : String :=
  title ++ " with " ++ toString names.length ++ " elements"

/-- Reads a trace record in which arrays and objects lie at most `depth` deep. -/
def readTrace (depth : Nat) (t : Tree) : Read TraceRecord := do
  let readField := TraceFields.readField (depth - 2)
  let fields ←
    match t with
    | .object members closed => readMembers TraceFields.has readField closed {} members
    | .array items closed =>
      readPositions readField ["timestamps_ns", "time_base", "entries"].contains
        (titleWithLength TraceFields.title TraceFields.names) closed {} 0 TraceFields.names items
    | _ => .error (t.mismatch TraceFields.title)
  match fields.toRecord with
  | some record => return record
  | none => .error (.missingField "category")

namespace SessionFields

/-- Whether the field with the given name has been met. -/
def has (f : SessionFields) (name : String) : Bool :=
  match name with
  | "session" => f.traces.isSome
  | "real_to_elapsed_offset_ns" => f.offset.isSome
  | _ => false

/-- Reads the field with the given name; traces lie at most `depth` deep. -/
def readField (depth : Nat) (f : SessionFields) (name : String) (t : Tree) : Read SessionFields :=
  match name with
  | "session" => return { f with traces := some (← t.readArray (readTrace depth)) }
  | "real_to_elapsed_offset_ns" => return { f with offset := some (← t.readOptional readNanos) }
  | _ => return f

end SessionFields

/-- Reads a session record in which arrays and objects lie at most `depth` deep. -/
def readSession (depth : Nat) (t : Tree) : Read SessionRecord := do
  let readField := SessionFields.readField (depth - 2)
  let fields ←
    match t with
    | .object members closed => readMembers SessionFields.has readField closed {} members
    | .array items closed =>
      readPositions readField (fun _ => false)
        (titleWithLength SessionFields.title SessionFields.names) closed {} 0 SessionFields.names
        items
    | _ => .error (t.mismatch SessionFields.title)
  match fields.traces with
  | some traces => return { traces, offset := fields.offset.join }
  | none => .error (.missingField "session")

/-- Reads a whole document. -/
def readDocument {α : Type} (read : Nat → Tree → Read α) (bytes : List UInt8) : Read α := do
  let document := Document.ofBytes bytes
  let a ← read maxDepth document.root
  if document.ended then return a else .error .malformed

end FrameAlign.Capture
