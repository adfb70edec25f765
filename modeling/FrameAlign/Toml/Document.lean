import FrameAlign.Toml.Number

/-!
# Documents

A document is a list of sections. The first has no header; every other one starts with the header
of a table, or of one more table of several that share a header. The lines of a section are the
entries of its table, and comments and blank lines may stand anywhere between them.
-/

namespace FrameAlign.Toml

open Scanner

/-- Between brackets, values of an array with blanks, line ends and comments around them. -/
def arrayOf (item : Scanner Value) : Scanner Value := do
  exactly ['[']
  let items ← maybe (separated₁ (exactly [',']) do
    skipLines
    let v ← item
    skipLines
    return v)
  if items.isSome then discard (maybe (exactly [',']))
  skipLines
  exactly [']']
  return .array (items.getD [])

/-- An entry: a dotted key and its value. -/
def entryOf (value : Scanner Value) : Scanner Entry := do
  let keys ← keyPath
  exactly ['=']
  skipSpaces
  let value ← value
  skipSpaces
  match keys.getLast? with
  | some key => return { path := keys.dropLast, key, value }
  | none => failure

/-- Between braces, the entries of a table that is written in one line. -/
def tableOf (value : Scanner Value) : Scanner Value := do
  exactly ['\x7b']
  let entries ← maybe (separated₁ (exactly [',']) (entryOf value))
  skipSpaces
  exactly ['\x7d']
  match Members.insertAll? (entries.getD []) [] with
  | some members => return .table .inPlace members
  | none => failure

/-- A value that holds no others. -/
def scalar : Scanner Value :=
  (.string <$> string) <|> number <|> (exactly "true".toList *> pure (.bool true)) <|>
    (exactly "false".toList *> pure (.bool false))

/-- A value in which arrays and tables lie at most so deep. -/
def value : Nat → Scanner Value
  | 0 => scalar
  | depth + 1 => scalar <|> arrayOf (value depth) <|> tableOf (value depth)

/-- How deep arrays and tables may lie in a value. -/
def maxDepth : Nat := 79

/-- The header of a section. -/
inductive Header where
  /-- The header of a single table. -/
  | single (path : List String) (key : String)
  /-- The header of one of several tables. -/
  | repeated (path : List String) (key : String)

/-- The path that stands in a header, between single or double brackets. -/
def header : Scanner Header := do
  exactly ['[']
  let double := (← maybe (exactly ['['])).isSome
  let keys ← keyPath
  exactly (if double then [']', ']'] else [']'])
  match keys.getLast? with
  | some key => return if double then .repeated keys.dropLast key else .single keys.dropLast key
  | none => failure

/-- A header with the entries below it; the entries in front of all headers have none. -/
structure Section where
  header : Option Header := none
  entries : List Entry := []

/-- A line with an entry, or one without. -/
def entryLine : Scanner (Option Entry) :=
  (do
    let e ← entryOf (value maxDepth)
    restOfLine
    return some e) <|>
  (do
    skipSpaces
    discard (maybe comment)
    lineEnd
    return none)

/-- The lines of a section below its header. -/
def sectionEntries : Scanner (List Entry) := do
  return (← many entryLine).filterMap id

/-- The sections of a document, which may begin with a byte order mark. -/
def sections : Scanner (List Section) := do
  discard (maybe (exactly ['\uFEFF']))
  let top ← sectionEntries
  let others ← many do
    skipSpaces
    let h ← header
    restOfLine
    return { header := some h, entries := ← sectionEntries : Section }
  restOfLine
  return { entries := top } :: others

/-- The members of the root with those of a section. -/
def Section.addTo? (root : Members) (s : Section) : Option Members :=
  let fill := Members.insertAll? s.entries
  match s.header with
  | none => fill root
  | some (.single path key) => root.changeAt? (Members.openTable? fill key) path
  | some (.repeated path key) => root.changeAt? (Members.addTable? fill key) path

/-- The members of the root table of a document. -/
def members? (text : List Char) : Option Members := do
  let sections ← runAll? sections text
  sections.foldlM Section.addTo? []

end FrameAlign.Toml
