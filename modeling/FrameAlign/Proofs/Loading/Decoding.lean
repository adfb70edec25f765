import FrameAlign.Loading.Workspace
import FrameAlign.Proofs.Capture.Recordings

/-!
# What a container brings

The decoders make a batch of the files of a container: the traces of single files and those of the
session, each with its file. A load dates the whole batch with one epoch and hands it to a single
merge. What is true of a load is therefore true of a batch and a merge, and what its files lack is
reported before the merge and apart from it.
-/

namespace FrameAlign

/-- What decoders make of the files of a container. The traces may be recordings, or recordings that
wait for an epoch, so their type is left open. -/
structure Batch (α : Type) where
  /-- The files that hold one trace, with the trace. -/
  singles : List (TraceFile × α)
  /-- The session file, with its traces. -/
  session : Option (TraceFile × List α)

namespace Batch

variable {α β ε δ : Type}

/-- What is decoded of sorted files. Files that cannot be decoded bring nothing; they are reported
elsewhere. -/
def ofSorted (decodeTrace : TraceFile → Except ε α) (decodeSession : TraceFile → Except ε (List α))
    (sorted : SortedFiles) : Batch α where
  singles := sorted.traces.filterMap fun f => (decodeTrace f).toOption.map (f, ·)
  session := sorted.session.bind fun f => (decodeSession f).toOption.map (f, ·)

/-- The traces of a batch, those of single files first. This is the order in which they get their
serial numbers. -/
def members (b : Batch α) : List α := b.singles.map (·.2) ++ b.session.elim [] (·.2)

/-- There is one session at most, so going through all sessions is going through that one. -/
theorem append_flatMap_eq_members (b : Batch α) :
    b.singles.map (·.2) ++ b.session.toList.flatMap (·.2) = b.members := by
  rw [members]
  cases b.session <;> simp

/-- The batch with `g` applied to every trace. Files are kept. -/
def map (g : α → β) (b : Batch α) : Batch β where
  singles := b.singles.map fun s => (s.1, g s.2)
  session := b.session.map fun s => (s.1, s.2.map g)

/-- The traces change one by one, and none changes its place. -/
theorem members_map (g : α → β) (b : Batch α) : (b.map g).members = b.members.map g := by
  obtain ⟨singles, session⟩ := b
  cases session <;> simp [members, map]

/-- Decoders that differ in what they make of a recording and in how they call errors decode the
same files. So a batch of an importer is one of recordings with another name for each. -/
theorem ofSorted_map (g : α → β) (describe : ε → δ) (decodeTrace : TraceFile → Except ε α)
    (decodeSession : TraceFile → Except ε (List α)) (sorted : SortedFiles) :
    ofSorted (fun f => ((decodeTrace f).map g).mapError describe)
        (fun f => ((decodeSession f).map fun rs => rs.map g).mapError describe) sorted =
      (ofSorted decodeTrace decodeSession sorted).map g := by
  have htoOption {γ γ' : Type} (x : Except ε γ) (h : γ → γ') :
      ((x.map h).mapError describe).toOption = x.toOption.map h := by
    cases x <;> rfl
  simp only [ofSorted, map, htoOption, List.map_filterMap, Option.map_map, Option.map_bind,
    Function.comp_def]

/-- The traces of single files in a batch, dated and numbered from a serial number on, as a merge
takes them. -/
def candidates (b : Batch UndatedTrace) (epoch : Epoch) (serial : Nat) : List LoadedTrace :=
  (b.singles.map (·.1)).zipWith LoadedTrace.mk
    (Workspace.dateAll epoch serial (b.singles.map (·.2)))

/-- The session of a batch, dated and numbered behind the single files. -/
def loadedSession (b : Batch UndatedTrace) (epoch : Epoch) (serial : Nat) : Option Session :=
  b.session.map fun s => ⟨s.1, Workspace.dateAll epoch (serial + b.singles.length) s.2⟩

end Batch

/-- The batch that an importer makes of the files of a container: it sorts them and decodes what is
for its decoders. -/
def Importer.batch (importer : Importer) (files : List TraceFile) : Batch UndatedTrace :=
  Batch.ofSorted importer.decodeTrace importer.decodeSession (importer.sort files)

/-- The reports of the files of a container that are for no decoder or cannot be decoded. They do
not depend on what is in use. -/
def Importer.faults (importer : Importer) (files : List TraceFile) : List Diagnostic :=
  let sorted := importer.sort files
  sorted.diagnostics ++
    if sorted.isEmpty then [.noInputFiles]
    else
      (Workspace.decodeAll importer.decodeTrace sorted.traces).2 ++
        (Workspace.decodeAll importer.decodeSession sorted.session.toList).2

namespace Workspace

/-! ## Dating -/

section Dating

variable (epoch : Epoch) (serial : Nat)

/-- No traces are dated to none. -/
@[simp] theorem dateAll_nil : dateAll epoch serial [] = [] := rfl

/-- Traces are dated one after the other, each with the next serial number. -/
theorem dateAll_cons (u : UndatedTrace) (us : List UndatedTrace) :
    dateAll epoch serial (u :: us) = u.date epoch serial :: dateAll epoch (serial + 1) us := by
  have hshift (us : List UndatedTrace) (k : Nat) :
      (us.zipIdx (k + 1)).map (fun p => p.1.date epoch (serial + p.2)) =
        (us.zipIdx k).map fun p => p.1.date epoch (serial + 1 + p.2) := by
    rw [List.zipIdx_succ, List.map_map]
    refine List.map_congr_left fun p _ => ?_
    simp [Nat.add_comm, Nat.add_left_comm]
  simp only [dateAll, List.zipIdx_cons, List.map_cons, Nat.add_zero, hshift]

/-- No trace is lost in dating. -/
@[simp] theorem length_dateAll (us : List UndatedTrace) :
    (dateAll epoch serial us).length = us.length := by
  simp [dateAll]

/-- Traces that come in two parts are numbered on. The single files and the session of a batch are
such parts. -/
theorem dateAll_append (us vs : List UndatedTrace) :
    dateAll epoch serial (us ++ vs) =
      dateAll epoch serial us ++ dateAll epoch (serial + us.length) vs := by
  induction us generalizing serial with
  | nil => rfl
  | cons u us ih =>
    rw [List.cons_append, dateAll_cons, ih, dateAll_cons, List.cons_append, List.length_cons,
      Nat.add_right_comm, Nat.add_assoc]

/-- Epochs that date each trace alike date all traces alike. What the epochs are otherwise does
not matter. -/
theorem dateAll_congr {epoch' : Epoch} (us : List UndatedTrace)
    (h : ∀ u ∈ us, ∀ serial, u.date epoch serial = u.date epoch' serial) :
    dateAll epoch serial us = dateAll epoch' serial us :=
  List.map_congr_left fun _ hp => h _ (List.fst_mem_of_mem_zipIdx hp) _

end Dating

end Workspace

/-! ## Dated batches -/

namespace Batch

variable {α : Type} {R : α → Trace → Prop}

/-- The loaded traces come from the traces of a batch in their order, each from the file and
under the relation `R`. Facts about dating are carried from recordings to what a merge gets in
this form. -/
structure Becomes (R : α → Trace → Prop) (b : Batch α) (candidates : List LoadedTrace)
    (session : Option Session) : Prop where
  /-- Each single file of the batch brings one candidate. -/
  singles : List.Forall₂ (fun s l => l.file = s.1 ∧ R s.2 l.trace) b.singles candidates
  /-- There is a session exactly if the batch has one, with as many traces. -/
  session : Option.Rel (fun s t => t.file = s.1 ∧ List.Forall₂ R s.2 t.traces) b.session session

/-- Each loaded trace comes from a trace of the batch, so nothing else is handed over. -/
theorem Becomes.exists_mem_members {b : Batch α} {candidates : List LoadedTrace}
    {session : Option Session} (h : b.Becomes R candidates session) {l : LoadedTrace}
    (hl : l ∈ candidates ++ session.elim [] Session.loaded) : ∃ a ∈ b.members, R a l.trace := by
  rcases List.mem_append.mp hl with hl | hl
  · obtain ⟨s, hs, -, hsingle⟩ := forall₂_exists_of_mem_right h.singles hl
    exact ⟨s.2, List.mem_append_left _ (List.mem_map_of_mem hs), hsingle⟩
  · obtain ⟨singles, session'⟩ := b
    cases h.session with
    | none => cases hl
    | some hsession =>
      obtain ⟨t, ht, rfl⟩ := List.mem_map.mp hl
      obtain ⟨a, ha, htrace⟩ := forall₂_exists_of_mem_right hsession.2 ht
      exact ⟨a, List.mem_append_right _ ha, htrace⟩

section Dated

variable {b : Batch α} {g : α → UndatedTrace} {epoch : Epoch}

/-- What holds of each trace when it is dated holds of all of them in their order. Serial numbers
differ from trace to trace, so the hypothesis is for every number. -/
theorem forall₂_dateAll {as : List α} (h : ∀ a ∈ as, ∀ serial, R a ((g a).date epoch serial))
    (serial : Nat) : List.Forall₂ R as (Workspace.dateAll epoch serial (as.map g)) := by
  induction as generalizing serial with
  | nil => exact .nil
  | cons a as ih =>
    rw [List.map_cons, Workspace.dateAll_cons]
    exact .cons (h a (by simp) serial) (ih (fun a ha => h a (by simp [ha])) (serial + 1))

/-- A dated batch comes from the batch, under what holds of each of its traces when it is dated. -/
theorem becomes_dated (h : ∀ a ∈ b.members, ∀ serial, R a ((g a).date epoch serial))
    (serial : Nat) :
    b.Becomes R ((b.map g).candidates epoch serial) ((b.map g).loadedSession epoch serial) := by
  obtain ⟨singles, session⟩ := b
  constructor
  · have hsingles : ∀ s ∈ singles, ∀ serial, R s.2 ((g s.2).date epoch serial) :=
      fun s hs => h s.2 (List.mem_append_left _ (List.mem_map_of_mem hs))
    clear h
    induction singles generalizing serial with
    | nil => exact .nil
    | cons s singles ih =>
      simp only [candidates, map, List.map_cons, Workspace.dateAll_cons, List.zipWith_cons_cons]
      refine .cons ⟨rfl, hsingles s (by simp) serial⟩ ?_
      exact ih (serial + 1) fun s hs => hsingles s (by simp [hs])
  · cases session with
    | none => exact .none
    | some s =>
      exact .some ⟨rfl, forall₂_dateAll (fun a ha => h a (List.mem_append_right _ ha)) _⟩

end Dated

/-- Epochs that date each trace alike date a batch alike, its single files and its session. -/
theorem dated_congr {b : Batch UndatedTrace} {epoch epoch' : Epoch}
    (h : ∀ u ∈ b.members, ∀ serial, u.date epoch serial = u.date epoch' serial) (serial : Nat) :
    b.candidates epoch serial = b.candidates epoch' serial ∧
      b.loadedSession epoch serial = b.loadedSession epoch' serial := by
  obtain ⟨singles, session⟩ := b
  constructor
  · have hsingles := Workspace.dateAll_congr epoch serial (singles.map (·.2))
      fun u hu => h u (List.mem_append_left _ hu)
    rw [candidates, candidates, hsingles]
  · cases session with
    | none => rfl
    | some s =>
      have hsession := Workspace.dateAll_congr epoch (serial + singles.length) s.2
        fun u hu => h u (List.mem_append_right _ hu)
      simp only [loadedSession, Option.map_some, hsession]

end Batch

namespace Workspace

/-! ## A container in one merge -/

/-- The traces of single files are those dated first. The loader dates all traces in one list and
cuts it afterwards. -/
theorem zipWith_take_dateAll (b : Batch UndatedTrace) (epoch : Epoch) (serial : Nat) :
    (b.singles.map (·.1)).zipWith LoadedTrace.mk
        ((dateAll epoch serial b.members).take b.singles.length) = b.candidates epoch serial := by
  have hlength : (dateAll epoch serial (b.singles.map (·.2))).length = b.singles.length := by
    rw [length_dateAll, List.length_map]
  rw [Batch.members, dateAll_append, ← hlength, List.take_left]
  rfl

/-- The traces of the session are those dated behind: the other part of the same cut. -/
theorem map_drop_dateAll (b : Batch UndatedTrace) (epoch : Epoch) (serial : Nat) :
    (b.session.toList.head?.map fun s =>
        (⟨s.1, (dateAll epoch serial b.members).drop b.singles.length⟩ : Session)) =
      b.loadedSession epoch serial := by
  have hlength : (dateAll epoch serial (b.singles.map (·.2))).length = b.singles.length := by
    rw [length_dateAll, List.length_map]
  rw [Batch.members, dateAll_append, ← hlength, List.drop_left, List.length_map,
    Batch.loadedSession]
  cases b.session <;> rfl

/-- The epoch that a batch is dated with: the largest offset that is reported, by the batch or by
the traces in use, or else what the workspace was left with. -/
def epochFor (w : Workspace) (b : Batch UndatedTrace) : Epoch :=
  match w.registry.latestOffset? (b.members.map (·.offset)) with
  | some offset => { offset := some offset }
  | none => w.epoch

section LoadGroup

variable {importer : Importer} {files : List TraceFile}

/-- What is decoded of single files is the batch without its session. The loader collects traces and
reports in one pass, and the batch has the traces. -/
theorem decodeAll_traces (importer : Importer) (files : List TraceFile) :
    (decodeAll importer.decodeTrace (importer.sort files).traces).1 =
      (importer.batch files).singles := by
  simp only [decodeAll, List.filterMap_map]
  rfl

/-- What is decoded of the session file is the session of the batch. -/
theorem decodeAll_session (importer : Importer) (files : List TraceFile) :
    (decodeAll importer.decodeSession (importer.sort files).session.toList).1 =
      (importer.batch files).session.toList := by
  simp only [decodeAll, List.filterMap_map, Importer.batch, Batch.ofSorted]
  cases (importer.sort files).session with
  | none => rfl
  | some f => cases hdecode : importer.decodeSession f <;> simp [hdecode, Except.toOption]

/-- Files that are for no decoder leave a workspace as it is, with no merge at all. -/
theorem loadGroup_of_isEmpty (h : (importer.sort files).isEmpty = true) (w : Workspace) :
    loadGroup importer w files = (w, importer.faults files) := by
  simp only [loadGroup, Importer.faults, if_pos h]

/-- All other files come in by one merge of their batch, even if none of them can be decoded. The
epoch and the serial numbers go on behind the batch. -/
theorem loadGroup_of_not_isEmpty (h : (importer.sort files).isEmpty = false) (w : Workspace) :
    let b := importer.batch files
    let epoch := w.epochFor b
    let merged := w.registry.merge (b.candidates epoch w.nextSerial)
      (b.loadedSession epoch w.nextSerial)
    loadGroup importer w files =
      ({ w with
          registry := merged.1
          epoch
          nextSerial := w.nextSerial + b.members.length },
        importer.faults files ++ merged.2.map Drop.diagnostic) := by
  intro b epoch merged
  have hfaults : importer.faults files = (importer.sort files).diagnostics ++
      (decodeAll importer.decodeTrace (importer.sort files).traces).2 ++
        (decodeAll importer.decodeSession (importer.sort files).session.toList).2 := by
    simp [Importer.faults, h]
  simp only [loadGroup, h, Bool.false_eq_true, if_false, hfaults, decodeAll_traces,
    decodeAll_session, Batch.append_flatMap_eq_members, zipWith_take_dateAll, map_drop_dateAll]
  rfl

end LoadGroup

end Workspace

end FrameAlign
