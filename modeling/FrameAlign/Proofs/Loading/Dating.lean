import FrameAlign.Proofs.Capture.Recordings
import FrameAlign.Proofs.Loading.Decoding
import FrameAlign.Proofs.Loading.History
import FrameAlign.Proofs.Registry.Offsets

/-!
# One offset for all traces

A workspace remembers the offset that its last load dated traces with. A container does not date
with it: as soon as one of its traces reports an offset, the largest offset of those traces and of
the traces in use takes its place, and traces without an offset stay on the clock that they were
recorded with. What is remembered is never less than an offset of a trace in use.
-/

namespace FrameAlign

namespace Recording

/-- The trace of a recording next to others whose offsets are known. It says what each timestamp is
and does not mention an epoch. -/
structure DatedAmong (known : List Nanos) (r : Recording) (t : Trace) : Prop where
  /-- The trace is of the category of the recording. -/
  category_eq : t.category = r.category
  /-- The trace reports the offset that was recorded. -/
  offset_eq : t.offset = r.offset
  /-- Values of the real clock are moments. -/
  real : r.clock = .real → t.timestamps = r.values.map .real
  /-- Elapsed values stay elapsed without an offset. -/
  unshifted : r.clock = .elapsed → r.offset = none → t.timestamps = r.values.map .elapsed
  /-- With an offset they become real by the largest one. -/
  shifted : r.clock = .elapsed → r.offset ≠ none → ∃ offset, IsLargest known offset ∧
    t.timestamps = r.values.map fun raw => .real (raw.satAdd offset)

/-- The epoch matters only to a recording that reports an offset. All others keep the clock that
they were recorded with. -/
theorem date_congr {r : Recording} {epoch epoch' : Epoch} (h : r.offset ≠ none → epoch = epoch')
    (serial : Nat) : r.date epoch serial = r.date epoch' serial := by
  cases hoffset : r.offset with
  | none =>
    have htimestamp : epoch.timestamp r.clock none = epoch'.timestamp r.clock none := by
      cases r.clock <;> rfl
    simp only [date, hoffset, htimestamp]
  | some own => rw [h (by simp [hoffset])]

/-- A recording that is dated with the largest known offset is dated among those known. An epoch
without an offset does as well if the recording reports none. -/
theorem datedAmong_date {r : Recording} {epoch : Epoch} {known : List Nanos}
    (h : r.offset ≠ none → ∃ offset, epoch.offset = some offset ∧ IsLargest known offset)
    (serial : Nat) : r.DatedAmong known (r.date epoch serial) where
  category_eq := rfl
  offset_eq := rfl
  real := by
    intro hclock
    simp only [date, hclock]
    rfl
  unshifted := by
    intro hclock hoffset
    simp only [date, hclock, hoffset]
    rfl
  shifted := by
    intro hclock hoffset
    obtain ⟨offset, hepoch, hlargest⟩ := h hoffset
    obtain ⟨own, hown⟩ := Option.ne_none_iff_exists'.mp hoffset
    refine ⟨offset, hlargest, List.map_congr_left fun raw _ => ?_⟩
    simp only [hclock, hown, Epoch.timestamp, hepoch, Option.getD_some]

end Recording

/-! ## Batches of trace files -/

/-- The importer of trace files in containers of any kind. How they are unpacked is left open. -/
def Importer.captures (unpack? : TraceFile → Option (List TraceFile)) : Importer :=
  { Importer.standard with unpack? }

/-- The settings for trace files in containers of any kind, with all else as it was set. -/
def Settings.forCaptures (settings : Settings) (unpack? : TraceFile → Option (List TraceFile)) :
    Settings :=
  { settings with importer := .captures unpack? }

namespace Capture

/-- The recordings in the files of a container, before they are dated. -/
def batch (files : List TraceFile) : Batch Recording :=
  Batch.ofSorted decodeTrace decodeSession (sortFiles files)

/-- The recordings are those of the records in the files. So a statement about recordings is one
about the text of files. -/
structure Read (b : Batch Recording) : Prop where
  /-- A file of one trace holds the record of its recording. -/
  singles : ∀ s ∈ b.singles, ∃ record,
    readDocument readTrace s.1.data.toList = .ok record ∧ record.Yields none s.2
  /-- Traces of the session share its offset. -/
  session : ∀ s ∈ b.session, ∃ session,
    readDocument readSession s.1.data.toList = .ok session ∧
      List.Forall₂ (fun record r => record.Yields session.offset r) session.traces s.2

/-- What is decoded has succeeded: a batch keeps successes alone, and this leads back to
the decoder. -/
theorem eq_ok_of_toOption {ε α : Type} {x : Except ε α} {a : α} (h : x.toOption = some a) :
    x = .ok a := by
  cases x with
  | error e => cases h
  | ok b => cases h; rfl

/-- The recordings in the files of a container are those of the records in them, for all
containers. -/
theorem read_batch (files : List TraceFile) : Read (batch files) where
  singles := by
    intro s hs
    obtain ⟨f, -, hf⟩ := List.mem_filterMap.mp hs
    obtain ⟨r, hr, rfl⟩ := Option.map_eq_some_iff.mp hf
    exact exists_record_of_decodeTrace (eq_ok_of_toOption hr)
  session := by
    intro s hs
    obtain ⟨f, -, hf⟩ := Option.bind_eq_some_iff.mp hs
    obtain ⟨rs, hrs, rfl⟩ := Option.map_eq_some_iff.mp hf
    exact exists_record_of_decodeSession (eq_ok_of_toOption hrs)

end Capture

/-- The importer of trace files dates the recordings in them. It hides a recording behind the traces
it can become, and this uncovers it. -/
theorem Importer.batch_captures (unpack? : TraceFile → Option (List TraceFile))
    (files : List TraceFile) :
    (captures unpack?).batch files = (Capture.batch files).map Recording.toUndated :=
  Batch.ofSorted_map _ _ _ _ _

namespace Workspace

variable {unpack? : TraceFile → Option (List TraceFile)} {w : Workspace}

/-- The offsets that are reported by recordings and by the traces in use. A container is dated with
the largest of these. -/
def offsetsAmong (w : Workspace) (b : Batch Recording) : List Nanos :=
  w.registry.knownOffsets (b.members.map (·.offset))

/-- As soon as an offset is reported, recordings are dated with the largest one, whatever offset the
workspace was left with. -/
theorem exists_epochFor_eq {b : Batch Recording} {n : Nanos} (h : n ∈ w.offsetsAmong b) :
    ∃ offset, IsLargest (w.offsetsAmong b) offset ∧
      ∀ epoch,
        epochFor { w with epoch } (b.map Recording.toUndated) = { offset := some offset } := by
  obtain ⟨offset, hlatest, hlargest⟩ := Registry.exists_latestOffset? h
  refine ⟨offset, hlargest, fun epoch => ?_⟩
  have hoffsets :
      (b.map Recording.toUndated).members.map (·.offset) = b.members.map (·.offset) := by
    rw [Batch.members_map, List.map_map]
    rfl
  simp only [epochFor, hoffsets, hlatest]

/-- A recording that reports an offset makes it known, also to the other recordings of its
container. -/
theorem mem_offsetsAmong {b : Batch Recording} {r : Recording} (hr : r ∈ b.members) {n : Nanos}
    (hn : r.offset = some n) : n ∈ w.offsetsAmong b :=
  Registry.mem_knownOffsets_of_mem (List.mem_map.mpr ⟨r, hr, hn⟩)

/-- A batch of recordings is dated alike whatever offset the workspace was left with. If none of
them reports an offset the epochs may differ, but then no recording looks at them. -/
theorem dated_epochFor (w : Workspace) (b : Batch Recording) (epoch epoch' : Epoch) (serial : Nat) :
    let dated := b.map Recording.toUndated
    dated.candidates (epochFor { w with epoch } dated) serial =
        dated.candidates (epochFor { w with epoch := epoch' } dated) serial ∧
      dated.loadedSession (epochFor { w with epoch } dated) serial =
        dated.loadedSession (epochFor { w with epoch := epoch' } dated) serial := by
  refine Batch.dated_congr ?_ serial
  intro u hu serial
  rw [Batch.members_map] at hu
  obtain ⟨r, hr, rfl⟩ := List.mem_map.mp hu
  refine Recording.date_congr (fun hoffset => ?_) serial
  obtain ⟨own, hown⟩ := Option.ne_none_iff_exists'.mp hoffset
  obtain ⟨offset, -, hepoch⟩ := exists_epochFor_eq (mem_offsetsAmong (w := w) hr hown)
  rw [hepoch, hepoch]

/-- The recordings in a container are dated among all offsets that are known, which are those of the
container and of the traces in use. -/
theorem becomes_epochFor (w : Workspace) (b : Batch Recording) (serial : Nat) :
    b.Becomes (Recording.DatedAmong (w.offsetsAmong b))
      ((b.map Recording.toUndated).candidates (w.epochFor (b.map Recording.toUndated)) serial)
      ((b.map Recording.toUndated).loadedSession (w.epochFor (b.map Recording.toUndated))
        serial) := by
  refine Batch.becomes_dated (fun r hr serial => Recording.datedAmong_date ?_ serial) serial
  intro hoffset
  obtain ⟨own, hown⟩ := Option.ne_none_iff_exists'.mp hoffset
  obtain ⟨offset, hlargest, hepoch⟩ := exists_epochFor_eq (mem_offsetsAmong (w := w) hr hown)
  exact ⟨offset, congrArg (·.offset) (hepoch w.epoch), hlargest⟩

/-- The recordings in a container come in by one merge, if any file is for a decoder. The epoch that
is left is the one that they were dated with. -/
theorem loadGroup_captures (unpack? : TraceFile → Option (List TraceFile)) (w : Workspace)
    (files : List TraceFile) (hfiles : (Capture.sortFiles files).isEmpty = false) :
    let importer := Importer.captures unpack?
    let dated := (Capture.batch files).map Recording.toUndated
    let epoch := w.epochFor dated
    let merged := w.registry.merge (dated.candidates epoch w.nextSerial)
      (dated.loadedSession epoch w.nextSerial)
    loadGroup importer w files =
      ({ w with
          registry := merged.1
          epoch
          nextSerial := w.nextSerial + dated.members.length },
        importer.faults files ++ merged.2.map Drop.diagnostic) := by
  intro importer dated
  have hbatch : importer.batch files = dated := Importer.batch_captures unpack? files
  rw [← hbatch]
  exact loadGroup_of_not_isEmpty hfiles w

/-- **No stale offset.** For every registry, every container of trace files and any two offsets that
a workspace may be left with, the container leads to the same reports and the same registry. Its
recordings have the values and offsets of the records in the files, where a session shares its
offset, and they come in by one merge unless there are none. They are dated in the same way for both
offsets: what is elapsed and has an offset becomes real by the largest offset of all recordings and
of the traces in use, and what has none stays elapsed. -/
theorem loadGroup_eq_of_epoch (unpack? : TraceFile → Option (List TraceFile)) (w : Workspace)
    (files : List TraceFile) (epoch epoch' : Epoch) :
    let b := Capture.batch files
    let loaded := loadGroup (.captures unpack?) { w with epoch } files
    let loaded' := loadGroup (.captures unpack?) { w with epoch := epoch' } files
    loaded.2 = loaded'.2 ∧ loaded.1.registry = loaded'.1.registry ∧ Capture.Read b ∧
      ∃ candidates session, b.Becomes (Recording.DatedAmong (w.offsetsAmong b)) candidates session ∧
        loaded.1.registry =
          if (Capture.sortFiles files).isEmpty then w.registry
          else (w.registry.merge candidates session).1 := by
  intro b loaded loaded'
  obtain ⟨hcandidates, hsession⟩ := dated_epochFor w b epoch epoch' w.nextSerial
  have hbecomes := becomes_epochFor { w with epoch } b w.nextSerial
  cases hfiles : (Capture.sortFiles files).isEmpty with
  | true =>
    have hloaded (w : Workspace) : loadGroup (.captures unpack?) w files = (w, _) :=
      loadGroup_of_isEmpty hfiles w
    simp only [loaded, loaded', hloaded, true_and, if_true, and_true]
    exact ⟨Capture.read_batch files, _, _, hbecomes⟩
  | false =>
    have hloaded (w : Workspace) := loadGroup_captures unpack? w files hfiles
    simp only [loaded, loaded', hloaded]
    refine ⟨by rw [hcandidates, hsession], by rw [hcandidates, hsession],
      Capture.read_batch files, _, _, hbecomes, rfl⟩

/-! ## The offset that is remembered -/

/-- The offset that a workspace was left with is at least as large as each that a trace in use
reports. It may be larger, when the trace that reported it was removed. -/
def Covers (w : Workspace) : Prop :=
  ∀ l ∈ w.registry.loaded, ∀ n, l.trace.offset = some n →
    ∃ offset, w.epoch.offset = some offset ∧ n ≤ offset

/-- Fewer traces in use are covered as well, so a removal keeps the offset right. -/
theorem Covers.of_loaded_subset {w' : Workspace} (h : w.Covers)
    (hloaded : w'.registry.loaded ⊆ w.registry.loaded) (hepoch : w'.epoch = w.epoch) :
    w'.Covers := by
  intro l hl n hn
  rw [hepoch]
  exact h l (hloaded hl) n hn

/-- What a container leads to is covered by the offset that it is dated with, whether the traces
came with it or were in use before. All of them are among those of which the largest is taken. -/
theorem Covers.loadGroup (h : w.Covers) (files : List TraceFile) :
    (loadGroup (.captures unpack?) w files).1.Covers := by
  cases hfiles : (Capture.sortFiles files).isEmpty with
  | true =>
    have hloaded : Workspace.loadGroup (.captures unpack?) w files = (w, _) :=
      loadGroup_of_isEmpty hfiles w
    rw [hloaded]
    exact h
  | false =>
    let b := Capture.batch files
    let dated := b.map Recording.toUndated
    let merged := w.registry.merge (dated.candidates (w.epochFor dated) w.nextSerial)
      (dated.loadedSession (w.epochFor dated) w.nextSerial)
    have hbecomes := becomes_epochFor w b w.nextSerial
    have hloaded := loadGroup_captures unpack? w files hfiles
    have hregistry : (Workspace.loadGroup (.captures unpack?) w files).1.registry = merged.1 := by
      rw [hloaded]
    have hepoch : (Workspace.loadGroup (.captures unpack?) w files).1.epoch = w.epochFor dated := by
      rw [hloaded]
    intro l hl n hn
    rw [hregistry] at hl
    rw [hepoch]
    have hknown : n ∈ w.offsetsAmong b := by
      rcases List.mem_append.mp (Registry.loaded_merge_subset _ _ _ hl) with hl | hl
      · obtain ⟨r, hr, hdated⟩ := hbecomes.exists_mem_members hl
        exact mem_offsetsAmong hr (hdated.offset_eq.symm.trans hn)
      · exact Registry.mem_knownOffsets_of_mem_loaded hl hn
    obtain ⟨offset, hlargest, hlargest_epoch⟩ := exists_epochFor_eq hknown
    exact ⟨offset, congrArg (·.offset) (hlargest_epoch w.epoch), hlargest.le_of_mem n hknown⟩

/-- Containers that come in one after the other keep the traces in use covered. By induction on the
containers. -/
theorem Covers.loadGroups (h : w.Covers) (groups : List (List TraceFile)) :
    (loadGroups (.captures unpack?) w groups).1.Covers := by
  induction groups generalizing w with
  | nil => exact h
  | cons files groups ih =>
    rw [loadGroups_cons]
    exact ih (h.loadGroup files)

/-- Every call keeps the traces in use covered. A clearing leaves none to cover. -/
theorem Covers.answer (h : w.Covers) (settings : Settings) (call : Call) :
    (w.answer (settings.forCaptures unpack?) call).Covers := by
  cases call with
  | load containers now =>
    have hsource : (w.load (settings.forCaptures unpack?) containers now).workspace.source =
        (Workspace.loadGroups (.captures unpack?) w
          (unpackAll (.captures unpack?) containers).1).1.source := source_load w now
    obtain ⟨hregistry, hepoch⟩ := registry_epoch_eq_of_source_eq hsource
    intro l hl n hn
    rw [Workspace.answer, hregistry] at hl
    rw [Workspace.answer, hepoch]
    exact h.loadGroups _ l hl n hn
  | remove c =>
    obtain ⟨hregistry, -, hepoch⟩ := remove_spec (settings.forCaptures unpack?) w c
    refine h.of_loaded_subset ?_ hepoch
    rw [Workspace.answer, hregistry]
    exact Registry.loaded_subset_of_get?_le CategoryMap.get?_of_get?_erase
      CategoryMap.get?_of_get?_erase
  | clear =>
    intro l hl
    simp [Workspace.answer, clear, Registry.clear, Registry.mem_loaded] at hl

/-- **The offset covers all traces.** After any sequence of loads of trace files, removals and
clearings, with any containers and any policy, the offset that a workspace was left with is at least
as large as each offset that a trace in use reports. -/
theorem run_offset_le (unpack? : TraceFile → Option (List TraceFile)) (settings : Settings)
    (policy : MergePolicy) (calls : List Call) {l : LoadedTrace} {n : Nanos}
    (hl : l ∈ ((withPolicy policy).run (settings.forCaptures unpack?) calls).registry.loaded)
    (hn : l.trace.offset = some n) :
    ∃ offset, ((withPolicy policy).run (settings.forCaptures unpack?) calls).epoch.offset =
      some offset ∧ n ≤ offset := by
  refine run_induction (P := Covers) ?_ (fun call w h => h.answer settings call) calls l hl n hn
  intro l hl
  simp [withPolicy, Registry.withPolicy, Registry.mem_loaded] at hl

/-- A file that holds two entries of a category and reports an offset. -/
def reporting (c : Category) (offset : Nat) : TraceFile where
  name := c.id ++ ".json"
  data := ("\x7b\"category\": \"" ++ c.id ++ "\", \"timestamps_ns\": [1, 2], " ++
    "\"real_to_elapsed_offset_ns\": " ++ toString offset ++ "\x7d").toUTF8

/-- A trace stays covered when the one with the largest offset is removed. -/
theorem exists_offset_ge_after_removal :
    let unpack? (c : TraceFile) := some [reporting .windowManager 100, c]
    let calls := [.load [reporting .surfaceFlinger 50] 0, .remove .windowManager]
    let w := (withPolicy {}).run (({} : Settings).forCaptures unpack?) calls
    ∃ l ∈ w.registry.loaded, l.trace.offset = some (.clamp 50) ∧
      ∃ offset, w.epoch.offset = some offset ∧ Nanos.clamp 50 ≤ offset := by
  intro unpack? calls w
  have hheld : (w.registry.legacy.get? .surfaceFlinger).bind (·.trace.offset) =
      some (.clamp 50) := by
    decide +kernel
  obtain ⟨l, hl, hoffset⟩ := Option.bind_eq_some_iff.mp hheld
  have hloaded := Registry.mem_loaded.mpr (Or.inl (CategoryMap.mem_values.mpr ⟨_, hl⟩))
  exact ⟨l, hloaded, hoffset, run_offset_le unpack? {} {} calls hloaded hoffset⟩

end Workspace

end FrameAlign
