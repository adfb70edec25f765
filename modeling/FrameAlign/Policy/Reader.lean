import FrameAlign.Policy.Basic
import FrameAlign.Toml.Document

/-!
# Policy files

A policy file is a TOML document with the tables `merge` and `correlation`, either of which may be
missing. A table may also be an array of its fields in order, and unknown keys mean nothing.
-/

namespace FrameAlign

/-- Why a policy file yields no policy. -/
inductive PolicyError where
  /-- The file cannot be read or is no text. -/
  | unreadable
  /-- The text is no TOML document, or its values are not those of a policy. -/
  | malformed
  | invalid (fault : PolicyFault)
deriving DecidableEq

/-- An error in words. -/
def PolicyError.message : PolicyError → String
  | .unreadable => "IO error"
  | .malformed => "Policy TOML parse error"
  | .invalid fault => "Invalid policy configuration: " ++ fault.message

namespace Policy

open Toml

/-- The fields of a record, in one of the forms in which a document may hold them. -/
inductive Fields where
  | named (members : Members)
  | positional (items : List Value)

/-- The fields of a value. A point in time counts as a table without any member that is known. -/
def fieldsOf? : Value → Option Fields
  | .table _ members => some (.named members)
  | .dateTime => some (.named [])
  | .array items => some (.positional items)
  | .tables newest older =>
    some (.positional ((newest :: older).reverse.map (.table .header)))
  | _ => none

/-- The integer that a value is. -/
def integerOf? : Value → Option Int
  | .integer n => some n
  | _ => none

/-- The category that a value names: by its id, or by the only key of a table with no content. -/
def categoryOf? : Value → Option Category
  | .string id => Category.ofId? id
  | .table _ [(id, .table _ [])] | .table _ [(id, .array [])] => Category.ofId? id
  | _ => none

/-- What is read of a field that may be missing. -/
def optional? {α : Type} (read : Value → Option α) : Option Value → Option (Option α)
  | none => some none
  | some v => (read v).map some

/-- The override that a value describes. -/
def overrideOf? (v : Value) : Option GapOverride := do
  let (target, source, millis) ←
    match ← fieldsOf? v with
    | .named ms => do
      some (← ms.lookup "upstream", ← ms.lookup "downstream", ← ms.lookup "max_gap_ms")
    | .positional (a :: b :: c :: _) => some (a, b, c)
    | .positional _ => none
  return {
    target := ← categoryOf? target
    source := ← categoryOf? source
    millis := ← integerOf? millis }

/-- The overrides that a value lists. -/
def overridesOf? (v : Value) : Option (List GapOverride) := do
  match ← fieldsOf? v with
  | .positional items => items.mapM overrideOf?
  | .named _ => none

/-- The gap for merges in a value. -/
def mergeOf? (v : Value) : Option (Option Int) := do
  match ← fieldsOf? v with
  | .named ms => optional? integerOf? (ms.lookup "max_time_gap_ms")
  | .positional items => some <$> integerOf? (← items.head?)

/-- The gap for relations and the overrides in a value. -/
def correlationOf? (v : Value) : Option (Option Int × List GapOverride) := do
  match ← fieldsOf? v with
  | .named ms =>
    return (← optional? integerOf? (ms.lookup "max_gap_ms"),
      (← optional? overridesOf? (ms.lookup "edge")).getD [])
  | .positional items =>
    return (some (← integerOf? (← items.head?)), (← optional? overridesOf? items[1]?).getD [])

/-- The policy that the root table of a document describes. -/
def ofMembers? (root : Members) : Option Policy := do
  let merge ← optional? mergeOf? (root.lookup "merge")
  let correlation ← optional? correlationOf? (root.lookup "correlation")
  let (relationMillis, overrides) := correlation.getD (none, [])
  return { mergeMillis := merge.join, relationMillis, overrides }

/-- The policy in a file with the given bytes. -/
def ofBytes (bytes : ByteArray) : Except PolicyError Policy :=
  match String.fromUTF8? bytes with
  | none => .error .unreadable
  | some text =>
    match Toml.members? text.toList >>= ofMembers? with
    | none => .error .malformed
    | some p =>
      match p.fault? with
      | some fault => .error (.invalid fault)
      | none => .ok p

end Policy

end FrameAlign
