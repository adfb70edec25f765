import FrameAlign.Proofs.Capture.Acceptance
import FrameAlign.Proofs.Loading.Dating

/-!
# What arrives in the registry

A container hands dated traces to a merge, and whatever is in use was handed over by some container.
So what holds of everything that is handed over holds of all traces in use after every history,
`run_forall_loaded`; and trace files hand over nothing but traces in good order.
-/

namespace FrameAlign

namespace Workspace

/-- The traces that a container hands to its merge, those of single files first. Some of them may
lose in the merge at once. -/
def arrivals (importer : Importer) (w : Workspace) (files : List TraceFile) : List LoadedTrace :=
  let b := importer.batch files
  b.candidates (w.epochFor b) w.nextSerial ++
    (b.loadedSession (w.epochFor b) w.nextSerial).elim [] Session.loaded

section Arrivals

variable {importer : Importer} {w : Workspace} {P : LoadedTrace → Prop}

/-- After a container only those traces are in use that it handed over or that were before. A merge
makes no traces of its own. -/
theorem loaded_loadGroup_subset (files : List TraceFile) :
    (loadGroup importer w files).1.registry.loaded ⊆
      arrivals importer w files ++ w.registry.loaded := by
  cases hfiles : (importer.sort files).isEmpty with
  | true =>
    have hloaded : loadGroup importer w files = (w, _) := loadGroup_of_isEmpty hfiles w
    rw [hloaded]
    exact List.subset_append_right _ _
  | false =>
    let b := importer.batch files
    have hregistry : (loadGroup importer w files).1.registry =
        (w.registry.merge (b.candidates (w.epochFor b) w.nextSerial)
          (b.loadedSession (w.epochFor b) w.nextSerial)).1 := by
      rw [loadGroup_of_not_isEmpty hfiles w]
    rw [hregistry]
    exact Registry.loaded_merge_subset _ _ _

/-- What holds of the traces in use and of those that containers hand over holds when the containers
are in. The hypothesis is about every workspace, as each container comes to another one. -/
theorem forall_loaded_loadGroups (harrivals : ∀ w files, ∀ l ∈ arrivals importer w files, P l)
    (h : ∀ l ∈ w.registry.loaded, P l) (groups : List (List TraceFile)) :
    ∀ l ∈ (loadGroups importer w groups).1.registry.loaded, P l := by
  induction groups generalizing w with
  | nil => exact h
  | cons files groups ih =>
    rw [loadGroups_cons]
    refine ih fun l hl => ?_
    rcases List.mem_append.mp (loaded_loadGroup_subset files hl) with hl | hl
    · exact harrivals w files l hl
    · exact h l hl

/-- Every call keeps what holds of all traces that are handed over. A removal and a clearing hand
nothing over. -/
theorem forall_loaded_answer {settings : Settings}
    (harrivals : ∀ w files, ∀ l ∈ arrivals settings.importer w files, P l)
    (h : ∀ l ∈ w.registry.loaded, P l) (call : Call) :
    ∀ l ∈ (w.answer settings call).registry.loaded, P l := by
  cases call with
  | load containers now =>
    have hsource : (w.load settings containers now).workspace.source =
        (loadGroups settings.importer w (unpackAll settings.importer containers).1).1.source :=
      source_load w now
    rw [answer, (registry_epoch_eq_of_source_eq hsource).1]
    exact forall_loaded_loadGroups harrivals h _
  | remove c =>
    intro l hl
    rw [answer, (remove_spec settings w c).1] at hl
    exact h l (Registry.loaded_subset_of_get?_le CategoryMap.get?_of_get?_erase
      CategoryMap.get?_of_get?_erase hl)
  | clear =>
    intro l hl
    simp [answer, clear, Registry.clear, Registry.mem_loaded] at hl

/-- What holds of all traces that are handed over holds of the traces in use after every history.
The property need not be known to the workspace. -/
theorem run_forall_loaded {settings : Settings}
    (harrivals : ∀ w files, ∀ l ∈ arrivals settings.importer w files, P l) (policy : MergePolicy)
    (calls : List Call) :
    ∀ l ∈ ((withPolicy policy).run settings calls).registry.loaded, P l := by
  refine run_induction (P := fun w => ∀ l ∈ w.registry.loaded, P l) ?_
    (fun call w h => forall_loaded_answer harrivals h call) calls
  intro l hl
  simp [withPolicy, Registry.withPolicy, Registry.mem_loaded] at hl

end Arrivals

end Workspace

/-! ## Trace files -/

namespace Capture

/-- The recordings in the files of a container become traces in good order, those of single files
and those of the session. -/
theorem sound_of_mem_batch {files : List TraceFile} {r : Recording}
    (hr : r ∈ (batch files).members) (epoch : Epoch) (serial : Nat) :
    (r.date epoch serial).Sound := by
  rcases List.mem_append.mp hr with hr | hr
  · obtain ⟨s, hs, rfl⟩ := List.mem_map.mp hr
    obtain ⟨f, -, hf⟩ := List.mem_filterMap.mp hs
    obtain ⟨r, hdecode, rfl⟩ := Option.map_eq_some_iff.mp hf
    exact sound_of_decodeTrace (eq_ok_of_toOption hdecode) epoch serial
  · cases hsession : (batch files).session with
    | none =>
      rw [hsession] at hr
      cases hr
    | some s =>
      rw [hsession] at hr
      obtain ⟨f, -, hf⟩ := Option.bind_eq_some_iff.mp hsession
      obtain ⟨rs, hdecode, rfl⟩ := Option.map_eq_some_iff.mp hf
      exact sound_of_decodeSession (eq_ok_of_toOption hdecode) hr epoch serial

end Capture

namespace Workspace

/-- Trace files hand over nothing but traces in good order, whatever they contain and however they
were packed. -/
theorem sound_of_mem_arrivals (unpack? : TraceFile → Option (List TraceFile)) (w : Workspace)
    (files : List TraceFile) : ∀ l ∈ arrivals (.captures unpack?) w files, l.trace.Sound := by
  intro l hl
  rw [arrivals, Importer.batch_captures] at hl
  let dated := (Capture.batch files).map Recording.toUndated
  have hdated : ∀ r ∈ (Capture.batch files).members, ∀ serial,
      (r.toUndated.date (w.epochFor dated) serial).Sound :=
    fun r hr serial => Capture.sound_of_mem_batch hr _ serial
  have hbecomes := Batch.becomes_dated (R := fun _ t => t.Sound) hdated w.nextSerial
  obtain ⟨-, -, hsound⟩ := hbecomes.exists_mem_members hl
  exact hsound

/-- **Only traces in good order.** A record is accepted exactly if its values ascend, it has no more
entries than values and, if it has display frames, one for each value. An accepted record becomes,
under every epoch, a trace with one timestamp for each entry, in ascending order even where sums
stop at an end of the range, and all on one clock: the real one if the values are real or there is
an offset, its own or the one that its session shares. Therefore whatever trace files hand over, and
whatever is in use after any history, can be correlated. -/
theorem run_accepts_sound :
    (∀ (record : Capture.TraceRecord) coarseness source,
      ((∃ r, record.toRecording coarseness source = .ok r) ↔ record.Sound) ∧
        ∀ r, record.toRecording coarseness source = .ok r → ∀ epoch serial,
          record.Dates none (r.date epoch serial)) ∧
      (∀ (session : Capture.SessionRecord) source,
        ((∃ rs, session.toRecordings source = .ok rs) ↔ ∀ record ∈ session.traces, record.Sound) ∧
          ∀ rs, session.toRecordings source = .ok rs →
            List.Forall₂ (fun record r => ∀ epoch serial,
              record.Dates session.offset (r.date epoch serial)) session.traces rs) ∧
      ∀ unpack?, (∀ w files, ∀ l ∈ arrivals (.captures unpack?) w files, l.trace.Sound) ∧
        ∀ (settings : Settings) policy calls,
          ∀ l ∈ ((withPolicy policy).run (settings.forCaptures unpack?) calls).registry.loaded,
            l.trace.Sound := by
  refine ⟨fun record coarseness source => ?_, fun session source => ?_, fun unpack? => ?_⟩
  · exact ⟨record.exists_toRecording_iff coarseness source,
      fun r hr epoch serial => Capture.TraceRecord.dates_of_toRecording hr epoch serial⟩
  · exact ⟨session.exists_toRecordings_iff source,
      fun rs hrs => Capture.SessionRecord.dates_of_toRecordings hrs⟩
  · exact ⟨sound_of_mem_arrivals unpack?, fun settings policy calls =>
      run_forall_loaded (sound_of_mem_arrivals unpack?) policy calls⟩

/-- Values at both ends of the range stay in order when an offset moves the first of them, whether
it is reported for the trace or for its session, and so does a trace that was loaded. -/
theorem run_accepts_sound_at_both_ends :
    let record : Capture.TraceRecord :=
      { category := .windowManager
        values := [.clamp (-9223372036854775808), .clamp 0, .clamp 9223372036854775807]
        offset := some (.clamp (-100))
        vsyncIds := some [1, 1, 2] }
    let session : Capture.SessionRecord :=
      { traces := [{ record with offset := none }], offset := record.offset }
    let w := (withPolicy {}).run (({} : Settings).forCaptures Gzip.unpack?)
      [.load [reporting .surfaceFlinger 50] 0]
    (∃ r, record.toRecording .legacy "wm.json" = .ok r ∧
        (r.date {} 0).first? = some (.real (.clamp (-9223372036854775808))) ∧
        record.Dates none (r.date {} 0)) ∧
      (∃ rs, session.toRecordings "session.json" = .ok rs ∧
        List.Forall₂ (fun record r => ∀ epoch serial,
          record.Dates session.offset (r.date epoch serial)) session.traces rs) ∧
      ∃ l ∈ w.registry.loaded, l.trace.size = 2 ∧ l.trace.Sound := by
  intro record session w
  obtain ⟨hrecords, hsessions, hcaptures⟩ := run_accepts_sound
  have hsound : record.Sound := ⟨by decide, by decide, by simp [record]⟩
  refine ⟨?_, ?_, ?_⟩
  · obtain ⟨haccepts, hdates⟩ := hrecords record .legacy "wm.json"
    obtain ⟨r, hr⟩ := haccepts.mpr hsound
    have hfirst : (record.toRecording .legacy "wm.json").toOption.bind
        (fun r => (r.date {} 0).first?) = some (.real (.clamp (-9223372036854775808))) := by
      decide
    rw [hr] at hfirst
    exact ⟨r, hr, hfirst, hdates r hr {} 0⟩
  · obtain ⟨haccepts, hdates⟩ := hsessions session "session.json"
    have hall : ∀ record ∈ session.traces, record.Sound := by
      intro other hother
      rw [List.mem_singleton.mp hother]
      exact (Capture.TraceRecord.sound_of_shared none).mpr hsound
    obtain ⟨rs, hrs⟩ := haccepts.mpr hall
    exact ⟨rs, hrs, hdates rs hrs⟩
  · have hheld : (w.registry.legacy.get? .surfaceFlinger).map (·.trace.size) = some 2 := by
      decide +kernel
    obtain ⟨l, hl, hsize⟩ := Option.map_eq_some_iff.mp hheld
    have hloaded := Registry.mem_loaded.mpr (Or.inl (CategoryMap.mem_values.mpr ⟨_, hl⟩))
    exact ⟨l, hloaded, hsize, (hcaptures Gzip.unpack?).2 {} {} _ l hloaded⟩

end Workspace

end FrameAlign
