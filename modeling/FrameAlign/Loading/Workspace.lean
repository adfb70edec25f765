import FrameAlign.Archive.Basic
import FrameAlign.Archive.Name
import FrameAlign.Frames.Correlation
import FrameAlign.Loading.Importer
import FrameAlign.Loading.Progress
import FrameAlign.Registry.Merge

/-!
# The workspace

A workspace keeps the traces in use over any number of loads, together with their frames. A load
unpacks all containers first and then takes them in one after the other, so that a later container
counts as a later load. It never fails: what cannot be used is reported and the rest goes on.
-/

namespace FrameAlign

/-- What loads have in common. -/
structure Settings where
  importer : Importer := Importer.standard
  /-- The traces that are computed from those loaded. -/
  derive : Traces → List Trace := fun _ => []
  relations : List Relation := Relation.defaults
  /-- The name of downloads of several files. -/
  label : String := "files"

/-- The traces in use and their frames. -/
structure Workspace where
  registry : Registry := {}
  epoch : Epoch := {}
  /-- The serial number of the next trace. -/
  nextSerial : Nat := 0
  traces : Traces := CategoryMap.empty
  frames : FrameTable := {}
  downloadName : Option String := none

/-- What a load left out, and the categories in use after it. -/
structure LoadReport where
  diagnostics : List Diagnostic := []
  categories : List Category := []

/-- Whether a load left nothing out. -/
def LoadReport.isClean (r : LoadReport) : Bool := r.diagnostics.isEmpty

/-- The outcome of a load. -/
structure LoadOutcome where
  workspace : Workspace
  report : LoadReport
  progress : List Progress

namespace Workspace

/-- An empty workspace with a policy for its merges. -/
def withPolicy (policy : MergePolicy) : Workspace := { registry := .withPolicy policy }

/-- The name of a download of the traces in use. -/
def archiveName (w : Workspace) : String := w.downloadName.getD ArchiveName.fallback

/-- The traces and the number of frames, in words. -/
def summary (w : Workspace) : String :=
  "TracePipeline \x7b registry: " ++ w.registry.summary ++ ", traces: " ++ w.traces.summary ++
    ", frames: " ++ toString w.frames.size ++ " \x7d"

/-- What was decoded, each with its file, and the reports of the files that could not be. -/
def decodeAll {α : Type} (decode : TraceFile → Except String α) (files : List TraceFile) :
    List (TraceFile × α) × List Diagnostic :=
  let results := files.map fun f => (f, decode f)
  (results.filterMap fun (f, result) => result.toOption.map (f, ·),
    results.filterMap fun (f, result) =>
      match result with
      | .ok _ => none
      | .error reason => some (.invalidTrace f.descriptor reason))

/-- The traces that an epoch dates, numbered from a serial number on. -/
def dateAll (epoch : Epoch) (serial : Nat) (undated : List UndatedTrace) : List Trace :=
  undated.zipIdx.map fun (u, i) => u.date epoch (serial + i)

/--
Takes the files of one container in. All its traces are dated alike, with the largest offset that
any of them or any trace in use reports.
-/
def loadGroup (importer : Importer) (w : Workspace) (files : List TraceFile) :
    Workspace × List Diagnostic :=
  let sorted := importer.sort files
  if sorted.isEmpty then (w, sorted.diagnostics ++ [.noInputFiles])
  else
    let (singles, singleFaults) := decodeAll importer.decodeTrace sorted.traces
    let (sessions, sessionFaults) := decodeAll importer.decodeSession sorted.session.toList
    let undated := singles.map (·.2) ++ sessions.flatMap (·.2)
    let epoch : Epoch :=
      match w.registry.latestOffset? (undated.map (·.offset)) with
      | some offset => { offset := some offset }
      | none => w.epoch
    let traces := dateAll epoch w.nextSerial undated
    let candidates := (singles.map (·.1)).zipWith LoadedTrace.mk (traces.take singles.length)
    let session := sessions.head?.map fun s => ⟨s.1, traces.drop singles.length⟩
    let (registry, drops) := w.registry.merge candidates session
    ({ w with registry, epoch, nextSerial := w.nextSerial + undated.length },
      sorted.diagnostics ++ singleFaults ++ sessionFaults ++ drops.map Drop.diagnostic)

/-- The files of each intact container, and the reports of the others. -/
def unpackAll (importer : Importer) (containers : List TraceFile) :
    List (List TraceFile) × List Diagnostic :=
  let results := containers.map fun c => (c, importer.unpack? c)
  (results.filterMap (·.2),
    results.filterMap fun (c, files) =>
      if files.isSome then none else some (.corruptedContainer c.descriptor))

/-- Takes the files of several containers in, one container after the other. -/
def loadGroups (importer : Importer) (w : Workspace) (groups : List (List TraceFile)) :
    Workspace × List Diagnostic :=
  groups.foldl (fun (state : Workspace × List Diagnostic) files =>
    let (w, diagnostics) := loadGroup importer state.1 files
    (w, state.2 ++ diagnostics)) (w, [])

/-- The collection without the traces that joined ones make redundant. -/
def hideParts (traces : Traces) : Traces :=
  let traces :=
    if traces.contains .transitions then (traces.erase .wmTransition).erase .shellTransition
    else traces
  if traces.contains .cujs then traces.erase .eventLog else traces

/-- The workspace with its traces and frames computed anew from the registry. -/
def rebuild (settings : Settings) (w : Workspace) : Workspace :=
  let loaded := Traces.ofTraces w.registry.traces
  let traces := hideParts ((settings.derive loaded).foldl Traces.set loaded)
  { w with traces, frames := Traces.correlate traces settings.relations }

/-- The name of a download after a load: a workspace's first single container lends its own. -/
def nextDownloadName (settings : Settings) (w : Workspace) (containers : List TraceFile)
    (now : Int) : String :=
  let files :=
    match w.downloadName, containers with
    | none, [single] => [single]
    | _, _ => []
  ArchiveName.stamped files (some settings.label) now

/-- Loads some containers, `now` nanoseconds after the start of 1970. -/
def load (settings : Settings) (w : Workspace) (containers : List TraceFile) (now : Int) :
    LoadOutcome :=
  let named := { w with downloadName := some (nextDownloadName settings w containers now) }
  let (groups, corrupted) := unpackAll settings.importer containers
  let unpacking := Progress.ofStage .unpacking containers.length
  if groups.isEmpty then
    { workspace := named
      report :=
        { diagnostics := corrupted ++ [.noInputFiles], categories := named.traces.keys }
      progress := unpacking ++ [.finished] }
  else
    let (loaded, diagnostics) := loadGroups settings.importer named groups
    let rebuilt := loaded.rebuild settings
    { workspace := rebuilt
      report := { diagnostics := corrupted ++ diagnostics, categories := rebuilt.traces.keys }
      progress := unpacking ++ Progress.ofStage .decoding groups.length ++ [.finished] }

/-- Whether a category has a trace in the registry or in the collection. -/
def hasTrace (w : Workspace) (c : Category) : Bool := w.registry.contains c || w.traces.contains c

/-- The workspace without the traces of a category. -/
def remove (settings : Settings) (w : Workspace) (c : Category) : Workspace :=
  if w.hasTrace c then
    let traces := w.traces.erase c
    { w with
      registry := w.registry.remove c
      traces
      frames := Traces.correlate traces settings.relations }
  else w

/-- The workspace as it was before its first load. -/
def clear (w : Workspace) : Workspace :=
  { registry := w.registry.clear, nextSerial := w.nextSerial }

end Workspace

end FrameAlign
