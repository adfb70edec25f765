import FrameAlign.Json.Token
import FrameAlign.Json.Value

/-!
# The tree of a JSON document

A document is read into a tree as far as its grammar holds. Arrays and objects say whether they
were closed, so that a reader which walks the tree from the left meets a failure at the place
where the document has it, after everything that stands in front of it. Duplicate names stay, and
nothing is looked into that the reader does not ask for.
-/

namespace FrameAlign.Json

/-- The tree of a document. Texts and names that are ill-formed and numbers out of range have
none. -/
inductive Tree where
  /-- A place that should hold a value and does not. -/
  | missing
  | null
  | bool (b : Bool)
  | number (value : Option Number)
  | string (text : Option String)
  | array (items : List Tree) (closed : Bool)
  | object (members : List (Option String × Tree)) (closed : Bool)
deriving Inhabited

namespace Tree

/-- An array or object that is still open, with what it holds so far in reverse. -/
inductive Opened where
  /-- An array. -/
  | array (items : List Tree)
  /-- An object whose members are complete. -/
  | object (members : List (Option String × Tree))
  /-- An object that waits for the value of a member. -/
  | member (members : List (Option String × Tree)) (name : Option String)

/-- What a place of the document may hold. -/
inductive Place where
  /-- A value. -/
  | value
  /-- The first item of an array, or its end. -/
  | firstItem
  /-- The name of the first member of an object, or its end. -/
  | firstName
  /-- The name of a member. -/
  | name
  /-- The colon after a name. -/
  | colon
  /-- A comma or the end of what is open. -/
  | separator
deriving DecidableEq

/-- The open array or object with one value more; between two members there is no place for one. -/
def Opened.put : Opened → Tree → Opened
  | .array items, t => .array (t :: items)
  | .object members, _ => .object members
  | .member members name, t => .object ((name, t) :: members)

/-- The tree of an array or object. -/
def Opened.toTree (closed : Bool) : Opened → Tree
  | .array items => .array items.reverse closed
  | .object members => .object members.reverse closed
  | .member members name => .object ((name, .missing) :: members).reverse closed

/-- The tree of a document that breaks off inside of the given arrays and objects. -/
def breakOff : List Opened → Tree
  | [] => .missing
  | inner :: outer => outer.foldl (fun t o => (o.put t).toTree false) (inner.toTree false)

/-- The leaf that a token stands for. -/
def ofToken? : Token → Option Tree
  | .null => some .null
  | .bool b => some (.bool b)
  | .number n => some (.number n)
  | .string s => some (.string s)
  | _ => none

end Tree

/-- A document: the tree of its value, and whether nothing follows the value. -/
structure Document where
  root : Tree
  ended : Bool

namespace Document

open FrameAlign.Json.Tree

/-- Reads on after a value: it goes into the innermost open array or object, or is the document. -/
def afterValue (stack : List Opened) (t : Tree) (tokens : List Token)
    (next : List Opened → Document) : Document :=
  match stack with
  | [] => ⟨t, tokens.isEmpty⟩
  | inner :: outer => next (inner.put t :: outer)

/-- Reads on at a place of the document, inside of the open arrays and objects. -/
def read (place : Place) (stack : List Opened) : List Token → Document
  | [] => ⟨breakOff stack, false⟩
  | token :: rest =>
    match place, stack, token with
    | .firstItem, .array items :: outer, .closeArray
    | .separator, .array items :: outer, .closeArray =>
      afterValue outer ((Opened.array items).toTree true) rest (read .separator · rest)
    | .firstName, .object members :: outer, .closeObject
    | .separator, .object members :: outer, .closeObject =>
      afterValue outer ((Opened.object members).toTree true) rest (read .separator · rest)
    | .separator, .array items :: outer, .comma => read .value (.array items :: outer) rest
    | .separator, .object members :: outer, .comma => read .name (.object members :: outer) rest
    | .colon, stack, .colon => read .value stack rest
    | .firstName, .object members :: outer, .string s
    | .name, .object members :: outer, .string s =>
      read .colon (.member members s :: outer) rest
    | .value, stack, .openArray | .firstItem, stack, .openArray =>
      read .firstItem (.array [] :: stack) rest
    | .value, stack, .openObject | .firstItem, stack, .openObject =>
      read .firstName (.object [] :: stack) rest
    | .value, stack, token | .firstItem, stack, token =>
      match ofToken? token with
      | some t => afterValue stack t rest (read .separator · rest)
      | none => ⟨breakOff stack, false⟩
    | _, stack, _ => ⟨breakOff stack, false⟩

/-- The document with the given bytes. -/
def ofBytes (bytes : List UInt8) : Document := read .value [] (Token.ofBytes bytes)

end Document

namespace Tree

/--
The value of a tree in which arrays and objects lie at most `depth` deep. Nothing if the document
breaks off inside of it, if one of its texts is ill-formed or one of its numbers out of range.
-/
def value? (depth : Nat) (t : Tree) : Option Value :=
  match t with
  | .missing => none
  | .null => some .null
  | .bool b => some (.bool b)
  | .number n => n.map .number
  | .string s => s.map .string
  | .array items closed =>
    match depth with
    | 0 => none
    | inner + 1 =>
      if closed then (items.mapM (value? inner)).map .array else none
  | .object members closed =>
    match depth with
    | 0 => none
    | inner + 1 =>
      if closed then
        (members.mapM fun (m : Option String × Tree) =>
          match m.1 with
          | some name => (value? inner m.2).map fun v => (name, v)
          | none => none).map Value.ofMembers
      else none

end Tree

/-- How deep the arrays and objects of a document may lie. -/
def maxDepth : Nat := 127

/-- The value of a whole document, if it is one. -/
def Document.value? (d : Document) : Option Value :=
  if d.ended then d.root.value? maxDepth else none

end FrameAlign.Json
