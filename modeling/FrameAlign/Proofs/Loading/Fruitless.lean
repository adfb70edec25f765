import FrameAlign.Proofs.Loading.Dating
import FrameAlign.Proofs.Registry.Idle

/-!
# Loads that bring nothing

A container whose files are for no decoder or cannot be decoded brings an empty batch. Its merge
still looks for evidence among the traces in use, but what a history leaves holds none. So a load of
such containers leaves the registry as it is and reports no more than what its files lack.
-/

namespace FrameAlign

/-- No file of a container can be decoded as what it is sorted as. Files that are for no decoder are
not asked. -/
structure Importer.Fruitless (importer : Importer) (files : List TraceFile) : Prop where
  /-- None of the files of single traces can be decoded. -/
  traces : ∀ f ∈ (importer.sort files).traces, (importer.decodeTrace f).isOk = false
  /-- The selected session file cannot be decoded either. -/
  session : ∀ f ∈ (importer.sort files).session, (importer.decodeSession f).isOk = false

/-- What has failed leaves nothing, whatever the error is. -/
theorem Importer.toOption_eq_none {ε α : Type} {x : Except ε α} (h : x.isOk = false) :
    x.toOption = none := by
  cases x with
  | error e => rfl
  | ok a => cases h

/-- Files that cannot be decoded bring an empty batch: no traces and no session. -/
theorem Importer.Fruitless.batch_eq {importer : Importer} {files : List TraceFile}
    (h : importer.Fruitless files) : importer.batch files = ⟨[], none⟩ := by
  have hsingles : (importer.batch files).singles = [] := by
    refine List.filterMap_eq_nil_iff.mpr fun f hf => ?_
    rw [Importer.toOption_eq_none (h.traces f hf), Option.map_none]
  have hsession : (importer.batch files).session = none := by
    refine Option.bind_eq_none_iff.mpr fun f hf => ?_
    rw [Importer.toOption_eq_none (h.session f hf), Option.map_none]
  rw [← hsingles, ← hsession]

/-! ## Files one by one -/

/-- Whether a file can be decoded as what its content makes it. It is asked of each file by itself,
before any selection. -/
def Capture.isDecodable (f : TraceFile) : Bool :=
  match fileKind f with
  | .trace => (decodeTrace f).isOk
  | .session => (decodeSession f).isOk
  | .unsupported => false

/-- What is decoded in other words succeeds alike, so the importer can be judged by its decoders. -/
theorem Importer.isOk_mapError_map {ε δ α β : Type} (x : Except ε α) (g : α → β)
    (describe : ε → δ) : ((x.map g).mapError describe).isOk = x.isOk := by
  cases x <;> rfl

/-- The session is chosen among the files that are for its decoder, so it is one of the files. -/
theorem SortedFiles.mem_of_mem_session {kind : TraceFile → FileKind} {files : List TraceFile}
    {f : TraceFile} (hf : f ∈ (ofKinds kind files).session) : f ∈ files ∧ kind f = .session := by
  have hsorted := List.mem_of_mem_head? hf
  simpa using (List.mergeSort_perm _ _).mem_iff.mp hsorted

/-- Trace files none of which can be decoded bring nothing. The condition is on all files, so that
it does not matter which session file is selected. -/
theorem Importer.fruitless_captures (unpack? : TraceFile → Option (List TraceFile))
    {files : List TraceFile} (h : ∀ f ∈ files, Capture.isDecodable f = false) :
    (captures unpack?).Fruitless files where
  traces := by
    intro f hf
    obtain ⟨hmem, hkind⟩ := List.mem_filter.mp hf
    have hfailed := h f hmem
    rw [Capture.isDecodable, of_decide_eq_true hkind] at hfailed
    exact (Importer.isOk_mapError_map _ _ _).trans hfailed
  session := by
    intro f hf
    obtain ⟨hmem, hkind⟩ := SortedFiles.mem_of_mem_session hf
    have hfailed := h f hmem
    rw [Capture.isDecodable, hkind] at hfailed
    exact (Importer.isOk_mapError_map _ _ _).trans hfailed

namespace Workspace

variable {importer : Importer} {w : Workspace}

/-- A container that brings nothing leaves the registry as it is and reports what its files lack, if
a merge of nothing has nothing to drop. The hypothesis on the registry holds after every history. -/
theorem loadGroup_of_fruitless (hidle : w.registry.merge [] none = (w.registry, []))
    {files : List TraceFile} (h : importer.Fruitless files) :
    (loadGroup importer w files).1.registry = w.registry ∧
      (loadGroup importer w files).2 = importer.faults files := by
  cases hfiles : (importer.sort files).isEmpty with
  | true =>
    have hloaded : loadGroup importer w files = (w, _) := loadGroup_of_isEmpty hfiles w
    rw [hloaded]
    exact ⟨rfl, rfl⟩
  | false =>
    have hloaded := loadGroup_of_not_isEmpty hfiles w
    simp only [h.batch_eq, Batch.candidates, Batch.loadedSession, List.map_nil, dateAll_nil,
      List.zipWith_nil_left, Option.map_none, hidle, List.append_nil] at hloaded
    rw [hloaded]
    exact ⟨rfl, rfl⟩

/-- Containers that bring nothing leave the registry as it is, one after the other. The hypothesis
goes along, as it is about the registry alone. -/
theorem loadGroups_of_fruitless (hidle : w.registry.merge [] none = (w.registry, []))
    {groups : List (List TraceFile)} (h : ∀ files ∈ groups, importer.Fruitless files) :
    (loadGroups importer w groups).1.registry = w.registry ∧
      (loadGroups importer w groups).2 = groups.flatMap importer.faults := by
  induction groups generalizing w with
  | nil => exact ⟨rfl, rfl⟩
  | cons files groups ih =>
    obtain ⟨hregistry, hfaults⟩ := loadGroup_of_fruitless hidle (h files (by simp))
    -- The next container finds the registry that this one found.
    have hidle' : (loadGroup importer w files).1.registry.merge [] none =
        ((loadGroup importer w files).1.registry, []) := by
      rw [hregistry, hidle]
    obtain ⟨hrest, hrest_faults⟩ := ih hidle' fun files hmem => h files (by simp [hmem])
    rw [loadGroups_cons, List.flatMap_cons, ← hfaults, ← hrest_faults]
    exact ⟨hrest.trans hregistry, rfl⟩

/-- **Fruitless loads do no harm.** After any sequence of loads, removals and clearings, with any
importer and any policy, a merge of nothing changes nothing and drops nothing. Therefore a load of
containers each of which is corrupted or holds no file that can be decoded leaves the registry and
with it the archive as they are. It reports the corrupted containers and what the files of the
others lack, and nothing else. -/
theorem run_load_fruitless (settings : Settings) (policy : MergePolicy) (calls : List Call)
    {containers : List TraceFile} (now : Int)
    (h : ∀ c ∈ containers, ∀ files, settings.importer.unpack? c = some files →
      settings.importer.Fruitless files) :
    let w := (withPolicy policy).run settings calls
    let outcome := w.load settings containers now
    let unpacked := unpackAll settings.importer containers
    w.registry.merge [] none = (w.registry, []) ∧
      outcome.workspace.registry = w.registry ∧
      outcome.workspace.registry.archive = w.registry.archive ∧
      outcome.report.diagnostics = unpacked.2 ++
        if settings.unpacks containers then unpacked.1.flatMap settings.importer.faults
        else [.noInputFiles] := by
  intro w outcome unpacked
  have hidle : w.registry.merge [] none = (w.registry, []) := by
    obtain ⟨registryCalls, hregistry⟩ := registry_run settings policy calls
    have hrun : w.registry = (Registry.withPolicy policy).run registryCalls := hregistry
    rw [hrun, Registry.merge_nil_run]
  have hgroups : ∀ files ∈ unpacked.1, settings.importer.Fruitless files := by
    intro files hfiles
    simp only [unpacked, unpackAll, List.filterMap_map, List.mem_filterMap] at hfiles
    obtain ⟨c, hc, hunpack⟩ := hfiles
    exact h c hc files hunpack
  obtain ⟨hkept, hfaults⟩ := loadGroups_of_fruitless hidle hgroups
  have hregistry : outcome.workspace.registry = w.registry :=
    (registry_epoch_eq_of_source_eq (source_load w now)).1.trans hkept
  refine ⟨hidle, hregistry, congrArg Registry.archive hregistry, ?_⟩
  rw [← hfaults]
  exact diagnostics_load w now

/-- A session file with one trace, whose timestamps are spelled out. -/
def sessionFile (c : Category) (timestamps : String) : TraceFile where
  name := "session.json"
  data := ("\x7b\"session\": [\x7b\"category\": \"" ++ c.id ++ "\", \"timestamps_ns\": " ++
    timestamps ++ "\x7d]\x7d").toUTF8

/-- A session stays when a session file follows whose timestamps do not ascend, together with a file
without content and a corrupted container. -/
theorem session_kept_of_broken_session :
    let calls := [.load [sessionFile .surfaceFlinger "[1, 2]"] 0]
    let containers : List TraceFile :=
      [sessionFile .surfaceFlinger "[2, 1]", { name := "empty.json" }, { name := "trace.gz" }]
    let w := (withPolicy {}).run {} calls
    w.registry.modern.contains .surfaceFlinger = true ∧
      (∀ c ∈ containers, ∀ files, Gzip.unpack? c = some files →
        Importer.standard.Fruitless files) ∧
      (w.load {} containers 0).workspace.registry = w.registry := by
  intro calls containers w
  have hheld : w.registry.modern.contains .surfaceFlinger = true := by decide +kernel
  have hdecodable : ∀ c ∈ containers, ∀ files ∈ Gzip.unpack? c,
      ∀ f ∈ files, Capture.isDecodable f = false := by
    decide +kernel
  have hfruitless : ∀ c ∈ containers, ∀ files, Gzip.unpack? c = some files →
      Importer.standard.Fruitless files := by
    intro c hc files hunpack
    exact Importer.fruitless_captures Gzip.unpack? (hdecodable c hc files hunpack)
  have hkept := run_load_fruitless {} {} calls 0 hfruitless
  exact ⟨hheld, hfruitless, hkept.2.1⟩

end Workspace

end FrameAlign
