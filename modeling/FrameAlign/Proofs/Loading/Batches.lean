import FrameAlign.Loading.Workspace

/-!
# Loads in batches

A load goes on from the registry, the epoch and the serial numbers of a workspace. It computes the
traces and the frames from the registry when all containers are in, and never reads them. So it
makes no difference whether containers come in one load or in two.
-/

namespace FrameAlign

/-- Whether a container can be unpacked. A load without one has nothing to load and takes
nothing in. -/
def Settings.unpacks (settings : Settings) (containers : List TraceFile) : Bool :=
  containers.any fun c => (settings.importer.unpack? c).isSome

/-- The traces that a workspace shows for a registry: those in use and those derived from them,
without the parts of joined ones. -/
def Settings.shown (settings : Settings) (r : Registry) : Traces :=
  let loaded := Traces.ofTraces r.traces
  Workspace.hideParts ((settings.derive loaded).foldl Traces.set loaded)

namespace Workspace

variable {importer : Importer} {settings : Settings}

/-- The part of a workspace that a load goes on from. What it shows and the name of its last
download are left out. -/
def source (w : Workspace) : Workspace :=
  { registry := w.registry, epoch := w.epoch, nextSerial := w.nextSerial }

/-- A load does not go on from the name of the last download, although it sets one first. -/
theorem source_named (w : Workspace) (name : Option String) :
    source { w with downloadName := name } = w.source := rfl

/-- Workspaces that go on alike have the same registry and the same epoch: what is said of the part
can be said of these. -/
theorem registry_epoch_eq_of_source_eq {w w' : Workspace} (h : w.source = w'.source) :
    w.registry = w'.registry ∧ w.epoch = w'.epoch :=
  ⟨congrArg (·.registry) h, congrArg (·.epoch) h⟩

/-! ## Containers one after the other -/

/-- Unpacking goes container by container, so the files and the reports of two lists stand one
behind the other. -/
theorem unpackAll_append (importer : Importer) (a b : List TraceFile) :
    unpackAll importer (a ++ b) =
      ((unpackAll importer a).1 ++ (unpackAll importer b).1,
        (unpackAll importer a).2 ++ (unpackAll importer b).2) := by
  simp only [unpackAll, List.map_append, List.filterMap_append]

/-- There is nothing to take in when no container can be unpacked. A container that unpacks to no
files at all counts as unpacked. -/
theorem unpackAll_fst_eq_nil_iff {containers : List TraceFile} :
    (unpackAll settings.importer containers).1 = [] ↔ settings.unpacks containers = false := by
  simp only [unpackAll, Settings.unpacks, List.filterMap_map, List.filterMap_eq_nil_iff,
    List.any_eq_false, Function.comp_apply, Option.isSome_iff_ne_none, ne_eq, Decidable.not_not]

/-- What a container makes of a workspace depends only on the part that a load goes on from. The
reports are part of what it makes. -/
theorem loadGroup_congr (importer : Importer) {w w' : Workspace} (h : w.source = w'.source)
    (files : List TraceFile) :
    (loadGroup importer w files).1.source = (loadGroup importer w' files).1.source ∧
      (loadGroup importer w files).2 = (loadGroup importer w' files).2 := by
  obtain ⟨registry, epoch, nextSerial, traces, frames, downloadName⟩ := w
  obtain ⟨registry', epoch', nextSerial', traces', frames', downloadName'⟩ := w'
  simp only [source, mk.injEq, and_true] at h
  obtain ⟨rfl, rfl, rfl⟩ := h
  by_cases hempty : (importer.sort files).isEmpty = true
  · simp only [loadGroup, if_pos hempty, source, and_self]
  · simp only [loadGroup, if_neg hempty, source, and_self]

/-- Reports stand behind those that are there before. The fold over containers carries them along,
and this takes them out of it. -/
theorem foldl_loadGroup (groups : List (List TraceFile)) (w : Workspace)
    (earlier : List Diagnostic) :
    groups.foldl (fun (state : Workspace × List Diagnostic) files =>
      ((loadGroup importer state.1 files).1, state.2 ++ (loadGroup importer state.1 files).2))
      (w, earlier) =
      ((loadGroups importer w groups).1, earlier ++ (loadGroups importer w groups).2) := by
  induction groups generalizing w earlier with
  | nil => simp [loadGroups]
  | cons files groups ih =>
    simp only [loadGroups, List.foldl_cons, List.nil_append] at ih ⊢
    rw [ih, ih _ (loadGroup importer w files).2, List.append_assoc]

/-- The first container comes in before all others, and its reports stand first. Inductions over
containers go by this equation. -/
theorem loadGroups_cons (w : Workspace) (files : List TraceFile) (groups : List (List TraceFile)) :
    loadGroups importer w (files :: groups) =
      ((loadGroups importer (loadGroup importer w files).1 groups).1,
        (loadGroup importer w files).2 ++
          (loadGroups importer (loadGroup importer w files).1 groups).2) :=
  foldl_loadGroup groups (loadGroup importer w files).1 (loadGroup importer w files).2

/-- Containers that come in two parts come in one part after the other, the second on what the
first has left. -/
theorem loadGroups_append (w : Workspace) (a b : List (List TraceFile)) :
    loadGroups importer w (a ++ b) =
      ((loadGroups importer (loadGroups importer w a).1 b).1,
        (loadGroups importer w a).2 ++ (loadGroups importer (loadGroups importer w a).1 b).2) := by
  induction a generalizing w with
  | nil => rfl
  | cons files a ih =>
    rw [List.cons_append, loadGroups_cons, ih, loadGroups_cons, List.append_assoc]

/-- What containers make of a workspace depends only on the part that a load goes on from. So the
second of two loads goes on where one load would. -/
theorem loadGroups_congr (importer : Importer) {w w' : Workspace} (h : w.source = w'.source)
    (groups : List (List TraceFile)) :
    (loadGroups importer w groups).1.source = (loadGroups importer w' groups).1.source ∧
      (loadGroups importer w groups).2 = (loadGroups importer w' groups).2 := by
  induction groups generalizing w w' with
  | nil => exact ⟨h, rfl⟩
  | cons files groups ih =>
    obtain ⟨hsource, hdiagnostics⟩ := loadGroup_congr importer h files
    obtain ⟨hsource', hdiagnostics'⟩ := ih hsource
    rw [loadGroups_cons, loadGroups_cons]
    exact ⟨hsource', by rw [hdiagnostics, hdiagnostics']⟩

/-! ## What a load leaves -/

section Load

variable (w : Workspace) {containers : List TraceFile} (now : Int)

/-- A load that can take nothing in only names the next download. It reports the containers that it
could not unpack and that there was nothing to load. -/
theorem load_of_unpacks_eq_false (h : settings.unpacks containers = false) :
    (w.load settings containers now).workspace =
        { w with downloadName := some (nextDownloadName settings w containers now) } ∧
      (w.load settings containers now).report.diagnostics =
        (unpackAll settings.importer containers).2 ++ [.noInputFiles] := by
  have hgroups := unpackAll_fst_eq_nil_iff.mpr h
  simp only [load, hgroups, List.isEmpty_nil, if_true, and_self]

/-- Any other load shows the traces and the frames of the registry that its containers leave, and
reports what they left out. -/
theorem load_of_unpacks (h : settings.unpacks containers = true) :
    (w.load settings containers now).workspace =
        (loadGroups settings.importer
          { w with downloadName := some (nextDownloadName settings w containers now) }
          (unpackAll settings.importer containers).1).1.rebuild settings ∧
      (w.load settings containers now).report.diagnostics =
        (unpackAll settings.importer containers).2 ++
          (loadGroups settings.importer w (unpackAll settings.importer containers).1).2 := by
  have hgroups : (unpackAll settings.importer containers).1.isEmpty = false := by
    rw [Bool.eq_false_iff, ne_eq, List.isEmpty_iff, unpackAll_fst_eq_nil_iff, h]
    decide
  simp only [load, hgroups, Bool.false_eq_true, if_false, true_and]
  rw [(loadGroups_congr settings.importer (source_named w _) _).2]

/-- A load takes in what it can unpack, whatever the workspace shows. This also holds of a load that
can take nothing in. -/
theorem source_load :
    (w.load settings containers now).workspace.source =
      (loadGroups settings.importer w (unpackAll settings.importer containers).1).1.source := by
  cases h : settings.unpacks containers with
  | false =>
    rw [(load_of_unpacks_eq_false w now h).1, unpackAll_fst_eq_nil_iff.mpr h]
    rfl
  | true =>
    rw [(load_of_unpacks w now h).1]
    exact (loadGroups_congr settings.importer (source_named w _) _).1

/-- A load that can take anything in shows the traces of the registry that it leaves. Any other
leaves them as they are, though the registry might show others by now. -/
theorem traces_load :
    (w.load settings containers now).workspace.traces =
      if settings.unpacks containers then
        settings.shown (w.load settings containers now).workspace.registry
      else w.traces := by
  cases h : settings.unpacks containers with
  | false => rw [(load_of_unpacks_eq_false w now h).1]; rfl
  | true => rw [(load_of_unpacks w now h).1]; rfl

/-- A load that can take anything in shows the frames of the traces that it shows; any other leaves
the frames as they are. -/
theorem frames_load :
    (w.load settings containers now).workspace.frames =
      if settings.unpacks containers then
        (w.load settings containers now).workspace.traces.correlate settings.relations
      else w.frames := by
  cases h : settings.unpacks containers with
  | false => rw [(load_of_unpacks_eq_false w now h).1]; rfl
  | true => rw [(load_of_unpacks w now h).1]; rfl

/-- A load reports what it could not unpack and what its containers left out, or nothing to load. -/
theorem diagnostics_load :
    (w.load settings containers now).report.diagnostics =
      (unpackAll settings.importer containers).2 ++
        if settings.unpacks containers then
          (loadGroups settings.importer w (unpackAll settings.importer containers).1).2
        else [.noInputFiles] := by
  cases h : settings.unpacks containers with
  | false => exact (load_of_unpacks_eq_false w now h).2
  | true => exact (load_of_unpacks w now h).2

end Load

/-! ## One load or two -/

/-- Workspaces with the same traces in use, which they date and show alike. The next serial number
and the name of the download are left out, as they say nothing about these traces. -/
structure Alike (w w' : Workspace) : Prop where
  /-- The same traces are in use, by the same rules. -/
  registry_eq : w.registry = w'.registry
  /-- The same offset is remembered. -/
  epoch_eq : w.epoch = w'.epoch
  /-- The same traces are shown. -/
  traces_eq : w.traces = w'.traces
  /-- The same frames are shown. -/
  frames_eq : w.frames = w'.frames

section Append

variable (settings : Settings) (w : Workspace) (a b : List TraceFile) (now now₁ now₂ : Int)

/-- Some container of two lists can be unpacked if one of either list can. -/
theorem unpacks_append : settings.unpacks (a ++ b) = (settings.unpacks a || settings.unpacks b) :=
  List.any_append

/-- One load leaves the registry and the epoch that two loads leave. What is shown between the two
plays no part. -/
theorem source_load_append :
    (w.load settings (a ++ b) now).workspace.source =
      ((w.load settings a now₁).workspace.load settings b now₂).workspace.source := by
  rw [source_load, source_load, unpackAll_append, loadGroups_append]
  exact (loadGroups_congr settings.importer (source_load w now₁).symm _).1

/-- One load leaves the traces and the frames that two loads leave. When only one of the two can
take something in, that one shows all there is. -/
theorem alike_load_append :
    (w.load settings (a ++ b) now).workspace.Alike
      ((w.load settings a now₁).workspace.load settings b now₂).workspace := by
  have hsource := source_load_append settings w a b now now₁ now₂
  obtain ⟨hregistry, hepoch⟩ := registry_epoch_eq_of_source_eq hsource
  cases hb : settings.unpacks b with
  | true =>
    have htraces : (w.load settings (a ++ b) now).workspace.traces =
        ((w.load settings a now₁).workspace.load settings b now₂).workspace.traces := by
      rw [traces_load, traces_load, unpacks_append, hb, Bool.or_true, if_pos rfl, if_pos rfl,
        hregistry]
    refine ⟨hregistry, hepoch, htraces, ?_⟩
    rw [frames_load, frames_load, unpacks_append, hb, Bool.or_true, if_pos rfl, if_pos rfl, htraces]
  | false =>
    -- The second load takes nothing in, and leaves what the first one shows.
    rw [(load_of_unpacks_eq_false _ now₂ hb).1] at hregistry hepoch ⊢
    have htraces : (w.load settings (a ++ b) now).workspace.traces =
        (w.load settings a now₁).workspace.traces := by
      rw [traces_load, traces_load, unpacks_append, hb, Bool.or_false, hregistry]
    refine ⟨hregistry, hepoch, htraces, ?_⟩
    change _ = (w.load settings a now₁).workspace.frames
    rw [frames_load, frames_load, unpacks_append, hb, Bool.or_false, htraces]

/-- Two loads report what one load reports, and once more that there is nothing to load unless both
of them could take something in. One load reports all containers that it cannot unpack before all
others, so the order differs. -/
theorem perm_diagnostics_load_append :
    ((w.load settings a now₁).report.diagnostics ++
      ((w.load settings a now₁).workspace.load settings b now₂).report.diagnostics).Perm
        ((w.load settings (a ++ b) now).report.diagnostics ++
          if settings.unpacks a && settings.unpacks b then [] else [.noInputFiles]) := by
  -- The second load makes of its containers what the single load makes of them.
  have hsource : (w.load settings a now₁).workspace.source =
      (loadGroups settings.importer w (unpackAll settings.importer a).1).1.source :=
    source_load w now₁
  have hsecond := (loadGroups_congr settings.importer hsource (unpackAll settings.importer b).1).2
  simp only [diagnostics_load, unpackAll_append, loadGroups_append, hsecond, unpacks_append]
  have hexchange (report report' : List Diagnostic) :
      ((unpackAll settings.importer a).2 ++ report ++
        ((unpackAll settings.importer b).2 ++ report')).Perm
          ((unpackAll settings.importer a).2 ++ (unpackAll settings.importer b).2 ++
            (report ++ report')) := by
    simp only [List.append_assoc]
    exact (List.perm_append_comm_assoc _ _ _).append_left _
  refine (hexchange _ _).trans ?_
  rw [List.append_assoc (_ ++ _)]
  refine List.Perm.append_left _ ?_
  cases ha : settings.unpacks a with
  | true => cases hb : settings.unpacks b with
    | true => simp
    | false =>
      -- The second load finds nothing to take in, and says so.
      have hnone := unpackAll_fst_eq_nil_iff.mpr hb
      simp [hnone, loadGroups]
  | false =>
    have hnone := unpackAll_fst_eq_nil_iff.mpr ha
    cases hb : settings.unpacks b with
    | true => simpa [hnone, loadGroups] using (List.perm_append_singleton _ _).symm
    | false => simp

end Append

/-- **Batches are transparent.** For every workspace, importer, derivation and relations, one load
of some containers leaves the registry, the epoch, the traces and the frames that are left if some
of them come in one load and the others in a second one. The two loads report what the one load
reports, each as often, if each of them could unpack a container; otherwise they report once more
that there was nothing to load. -/
theorem load_append (settings : Settings) (w : Workspace) (a b : List TraceFile)
    (now now₁ now₂ : Int) :
    let once := w.load settings (a ++ b) now
    let first := w.load settings a now₁
    let second := first.workspace.load settings b now₂
    once.workspace.Alike second.workspace ∧
      (first.report.diagnostics ++ second.report.diagnostics).Perm
        (once.report.diagnostics ++
          if settings.unpacks a && settings.unpacks b then [] else [.noInputFiles]) :=
  ⟨alike_load_append settings w a b now now₁ now₂,
    perm_diagnostics_load_append settings w a b now now₁ now₂⟩

end Workspace

end FrameAlign
