import FrameAlign.Loading.Workspace

/-!
# Summaries and listings

The lines that commands print for their readers. They are set in columns: a field is padded with
blanks, and one that is already as wide as its column stays as it is.
-/

namespace FrameAlign

namespace Columns

/-- `text` followed by blanks up to `width` characters. -/
def left (width : Nat) (text : String) : String :=
  text ++ String.ofList (List.replicate (width - text.length) ' ')

/-- `text` after blanks up to `width` characters. -/
def right (width : Nat) (text : String) : String :=
  String.ofList (List.replicate (width - text.length) ' ') ++ text

end Columns

/-- The line above and below a heading. -/
def ruler : String := String.ofList (List.replicate 80 '=')

/-- The line for a trace: its category, its size and its files. -/
def Trace.summaryLine (t : Trace) : String :=
  Columns.left 24 t.category.title ++ " " ++ Columns.right 8 (toString t.size) ++ " entries  " ++
    t.source

/-- In how many frames a category has entries. -/
def FrameTable.coverage (t : FrameTable) (c : Category) : Nat :=
  t.frames.countP fun f => !((f.entries.get? c).getD #[]).isEmpty

/-- The line for a category: in how many of all frames it has entries. -/
def FrameTable.coverageLine (t : FrameTable) (c : Category) : String :=
  "  " ++ Columns.left 22 c.title ++ " in " ++ toString (t.coverage c) ++ "/" ++ toString t.size ++
    " frames"

/-- The lines about the traces in use after a load and about what it left out. -/
def loadSummary (w : Workspace) (load : LoadReport) : List String :=
  let coverage := w.frames.categories.map w.frames.coverageLine
  let left := load.diagnostics.map fun d => "  - " ++ d.text
  ["", ruler, "LOAD SUMMARY", ruler] ++ w.traces.values.map Trace.summaryLine ++
    ["", "Frames: " ++ toString w.frames.size] ++ (if coverage.isEmpty then [""] else coverage) ++
    (if left.isEmpty then [] else ["", "Diagnostics:"] ++ left) ++ [ruler]

/-- The line for a relation. -/
def Relation.line (r : Relation) : String :=
  "  " ++ Columns.left 22 r.target.title ++ " <- " ++ Columns.left 18 r.source.title ++ " " ++
    r.link.text ++ " (max gap " ++ toString r.maxGap.toMillis ++ " ms)"

/-- The line for a category: where an archive holds its files. -/
def Category.layoutLine (c : Category) : String :=
  "  " ++ Columns.left 26 c.title ++ " " ++ Columns.left 6 (c.archiveDir?.getD ".") ++ " " ++
    c.defaultExtension

/-- The lines about some relations and about the layout of archives. -/
def relationListing (relations : List Relation) : List String :=
  ["Frame relations (frames flow from downstream to upstream):", ""] ++
    relations.map Relation.line ++ ["", "Archive layout:"] ++ Category.all.map Category.layoutLine

end FrameAlign
