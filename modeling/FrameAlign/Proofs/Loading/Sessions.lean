import FrameAlign.Proofs.Capture.Selection
import FrameAlign.Proofs.Loading.Fruitless
import FrameAlign.Proofs.Registry.Precedence

/-!
# The session of a container

A container selects one of its session files by size, before any file is decoded. If that file can
be decoded, its recordings are the session in use. If it cannot, it is reported and the session in
use stays as it is, even if a smaller session file could have been decoded: that one was passed over
and is reported as well. Files of single traces are decoded one by one, so none of them is in the
way of another.
-/

namespace FrameAlign

namespace Registry

/-- The session in use consists of recordings of the file, one for each category. A screenshot may
be missing, as it gives way to a screen recording. -/
structure HoldsSession (r : Registry) (known : List Nanos) (f : TraceFile) (rs : List Recording) :
    Prop where
  /-- Each trace in use is from the file and is one of its recordings. -/
  of_get? : ∀ c l, r.modern.get? c = some l →
    l.file = f ∧ ∃ rec ∈ rs, rec.category = c ∧ rec.DatedAmong known l.trace
  /-- Each recording has its category in use. -/
  contains : ∀ rec ∈ rs, rec.category ≠ .screenshot → r.modern.contains rec.category = true

/-- From `r` to `r'` the session in use has stayed, apart from a screenshot that gave way to a
screen recording. -/
structure KeepsSession (r r' : Registry) : Prop where
  /-- Nothing but a screenshot has changed. -/
  get?_eq : ∀ c, c ≠ .screenshot → r'.modern.get? c = r.modern.get? c
  /-- Nothing has come in. -/
  of_get? : ∀ c l, r'.modern.get? c = some l → r.modern.get? c = some l

section Merge

variable (r : Registry) (candidates : List LoadedTrace)

/-- A merge without a session keeps the session in use, whatever the candidates are. Single files
have a place of their own and do not touch that of a session. -/
theorem keepsSession_merge : r.KeepsSession (r.merge candidates none).1 := by
  rw [merge_fst]
  constructor
  · intro c hother
    refine Option.ext fun l => ?_
    rw [Merging.get?_modern_run]
    exact and_iff_right fun hrecorded => hother hrecorded.2
  · intro c l hget
    exact (Merging.get?_modern_run.mp hget).2

/-- After a merge with a session the traces in use are those of the session: a new session takes the
place of the old one as a whole. -/
theorem mem_of_get?_modern_merge {s : Session} {c : Category} {l : LoadedTrace}
    (h : (r.merge candidates (some s)).1.modern.get? c = some l) :
    l ∈ s.loaded ∧ l.category = c := by
  rw [merge_fst] at h
  obtain ⟨before, after, hloaded, -, -⟩ := (Merging.get?_modern_run.mp h).2
  have hmem : l ∈ Merging.ofCategory c s.loaded := by simp [hloaded]
  simpa [Merging.ofCategory] using hmem

/-- A merge with a session puts a trace of each of its categories to use, except for a screenshot
that gives way. No age and no clock speaks against a session. -/
theorem contains_modern_merge {s : Session} {l : LoadedTrace} (hl : l ∈ s.loaded)
    (hother : l.category ≠ .screenshot) :
    (r.merge candidates (some s)).1.modern.contains l.category = true := by
  have hcategory : l.category ∈ s.loaded.map (·.category) := List.mem_map_of_mem hl
  obtain ⟨first, hfirst⟩ :=
    Option.isSome_iff_exists.mp (Merging.isSome_richest_ofCategory.mpr hcategory)
  rw [merge_fst, CategoryMap.contains, Option.isSome_iff_exists]
  refine ⟨first, Merging.get?_modern_run.mpr ⟨fun hrecorded => hother hrecorded.2, ?_⟩⟩
  exact Merging.richest_eq_some_iff.mp hfirst

/-- A merge with a session that was made of recordings puts these to use. The recordings and the
traces are related one by one, which is all that is asked of dating. -/
theorem holdsSession_merge {known : List Nanos} {f : TraceFile} {rs : List Recording} {s : Session}
    (hfile : s.file = f) (htraces : List.Forall₂ (Recording.DatedAmong known) rs s.traces) :
    (r.merge candidates (some s)).1.HoldsSession known f rs := by
  constructor
  · intro c l hget
    obtain ⟨hl, rfl⟩ := mem_of_get?_modern_merge r candidates hget
    obtain ⟨t, ht, rfl⟩ := List.mem_map.mp hl
    obtain ⟨rec, hrec, hdated⟩ := forall₂_exists_of_mem_right htraces ht
    exact ⟨hfile, rec, hrec, hdated.category_eq.symm, hdated⟩
  · intro rec hrec hother
    obtain ⟨t, ht, hdated⟩ := forall₂_exists_of_mem_left htraces hrec
    have hcategory : t.category = rec.category := hdated.category_eq
    rw [← hcategory] at hother ⊢
    exact contains_modern_merge r candidates (l := ⟨s.file, t⟩) (List.mem_map_of_mem ht) hother

end Merge

end Registry

/-! ## The files of a container -/

namespace Capture

variable {files : List TraceFile} {f g : TraceFile}

/-- Of the session files in a container one is selected, and the others are reported. The selection
is made by size alone, before a file is opened. -/
theorem exists_selection (hf : f ∈ files) (hkind : fileKind f = .session) :
    ∃ chosen losers, (sortFiles files).session = some chosen ∧
      Selection (SortedFiles.ofKind fileKind files .session) (some chosen) losers ∧
      ∀ g ∈ losers, .overridden g.descriptor none ∈ (sortFiles files).diagnostics := by
  have hselection : Selection (SortedFiles.ofKind fileKind files .session)
      (sortFiles files).session _ := selection_mergeSort _
  cases hchosen : (sortFiles files).session with
  | none =>
    have hmem : f ∈ SortedFiles.ofKind fileKind files .session :=
      List.mem_filter.mpr ⟨hf, decide_eq_true hkind⟩
    rw [hchosen] at hselection
    rw [hselection.eq_nil_of_none] at hmem
    cases hmem
  | some chosen =>
    rw [hchosen] at hselection
    refine ⟨chosen, _, rfl, hselection, fun g hg => List.mem_append_right _ ?_⟩
    exact List.mem_map_of_mem hg

/-- A session file that is larger than all others is selected, wherever it stands among them. -/
theorem session_sortFiles_of_size_lt (hf : f ∈ files) (hkind : fileKind f = .session)
    (hlarger : ∀ g ∈ files, fileKind g = .session → g ≠ f → g.size < f.size) :
    (sortFiles files).session = some f := by
  obtain ⟨chosen, losers, hchosen, hselection, -⟩ := exists_selection hf hkind
  have hmem : f ∈ SortedFiles.ofKind fileKind files .session :=
    List.mem_filter.mpr ⟨hf, decide_eq_true hkind⟩
  rw [hchosen, hselection.eq_of_size_lt hmem fun g hg => ?_]
  obtain ⟨hg, hkind⟩ := List.mem_filter.mp hg
  exact hlarger g hg (of_decide_eq_true hkind)

/-- What has failed has failed with an error, which its report quotes. -/
theorem exists_eq_error {ε α : Type} {x : Except ε α} (h : x.isOk = false) :
    ∃ e, x = .error e := by
  cases x with
  | error e => exact ⟨e, rfl⟩
  | ok a => cases h

/-- A container with a session file has something for a decoder, so its files come in by a merge. -/
theorem isEmpty_sortFiles_of_session (h : (sortFiles files).session = some f) :
    (sortFiles files).isEmpty = false := by
  simp [SortedFiles.isEmpty, h]

/-- The session of a container is what is decoded of the selected file, and nothing if that fails:
no other file takes its place. -/
theorem session_batch (h : (sortFiles files).session = some f) :
    (batch files).session = (decodeSession f).toOption.map (f, ·) := by
  simp only [batch, Batch.ofSorted, h, Option.bind_some]

/-- A file of a single trace counts whatever the other files are. -/
theorem mem_singles_batch {r : Recording} (hg : g ∈ files) (hkind : fileKind g = .trace)
    (h : decodeTrace g = .ok r) : (g, r) ∈ (batch files).singles := by
  have htrace : g ∈ (sortFiles files).traces := List.mem_filter.mpr ⟨hg, decide_eq_true hkind⟩
  refine List.mem_filterMap.mpr ⟨g, htrace, ?_⟩
  simp [h, Except.toOption]

end Capture

namespace Workspace

section Reports

variable {unpack? : TraceFile → Option (List TraceFile)} {files : List TraceFile} {f g : TraceFile}
  {e : Capture.DecodeError}

/-- A file that cannot be decoded is reported with the reason, and the files behind it are decoded
all the same. -/
theorem invalidTrace_mem_decodeAll {α : Type} {decode : TraceFile → Except String α}
    {reason : String} (hf : f ∈ files) (h : decode f = .error reason) :
    .invalidTrace f.descriptor reason ∈ (decodeAll decode files).2 := by
  refine List.mem_filterMap.mpr ⟨(f, decode f), List.mem_map_of_mem hf, ?_⟩
  simp only [h]

/-- What the sorting leaves out is reported, with the files that cannot be decoded behind it. -/
theorem mem_faults_of_mem_diagnostics {d : Diagnostic}
    (hd : d ∈ (Capture.sortFiles files).diagnostics) :
    d ∈ (Importer.captures unpack?).faults files :=
  List.mem_append_left _ hd

/-- The files of a container are reported by the sorting or by a decoder. With a session file there
is something to load, so there is no report of the opposite. -/
theorem faults_captures (h : (Capture.sortFiles files).session = some f) :
    (Importer.captures unpack?).faults files =
      (Capture.sortFiles files).diagnostics ++
        ((decodeAll (Importer.captures unpack?).decodeTrace (Capture.sortFiles files).traces).2 ++
          (decodeAll (Importer.captures unpack?).decodeSession [f]).2) := by
  have hsort : (Importer.captures unpack?).sort files = Capture.sortFiles files := rfl
  simp only [Importer.faults, hsort, Capture.isEmpty_sortFiles_of_session h, Bool.false_eq_true,
    if_false, h, Option.toList_some]

/-- A selected session file that cannot be decoded is reported. So it is known why the session in
use stayed. -/
theorem invalidTrace_mem_faults_of_session (h : (Capture.sortFiles files).session = some f)
    (hfailed : Capture.decodeSession f = .error e) :
    .invalidTrace f.descriptor e.message ∈ (Importer.captures unpack?).faults files := by
  rw [faults_captures h]
  refine List.mem_append_right _ (List.mem_append_right _ ?_)
  refine invalidTrace_mem_decodeAll (List.mem_singleton.mpr rfl) ?_
  simp only [Importer.captures, Importer.standard, hfailed, Except.map, Except.mapError]

/-- A file of a single trace that cannot be decoded is reported, whatever the session is. -/
theorem invalidTrace_mem_faults_of_trace (h : (Capture.sortFiles files).session = some f)
    (hg : g ∈ files) (hkind : Capture.fileKind g = .trace)
    (hfailed : Capture.decodeTrace g = .error e) :
    .invalidTrace g.descriptor e.message ∈ (Importer.captures unpack?).faults files := by
  have htrace : g ∈ (Capture.sortFiles files).traces :=
    List.mem_filter.mpr ⟨hg, decide_eq_true hkind⟩
  rw [faults_captures h]
  refine List.mem_append_right _ (List.mem_append_left _ ?_)
  refine invalidTrace_mem_decodeAll htrace ?_
  simp only [Importer.captures, Importer.standard, hfailed, Except.map, Except.mapError]

end Reports

/-- A container with something for a decoder comes in by one merge of its recordings, and what its
files lack is reported. All that follows about a container starts from this. -/
theorem exists_merge_captures (unpack? : TraceFile → Option (List TraceFile)) (w : Workspace)
    {files : List TraceFile} (hfiles : (Capture.sortFiles files).isEmpty = false) :
    let loaded := loadGroup (.captures unpack?) w files
    let b := Capture.batch files
    ∃ candidates session, b.Becomes (Recording.DatedAmong (w.offsetsAmong b)) candidates session ∧
      loaded.1.registry = (w.registry.merge candidates session).1 ∧
      (Importer.captures unpack?).faults files ⊆ loaded.2 := by
  intro loaded b
  have hloaded := loadGroup_captures unpack? w files hfiles
  refine ⟨_, _, becomes_epochFor w b w.nextSerial, ?_, ?_⟩
  · simp only [loaded, hloaded, b]
  · simp only [loaded, hloaded]
    exact List.subset_append_left _ _

section Selected

variable (unpack? : TraceFile → Option (List TraceFile)) (w : Workspace) {files : List TraceFile}
  {f : TraceFile}

/-- The recordings of the selected file are the session in use, dated among all offsets that
are known. -/
theorem holdsSession_loadGroup (h : (Capture.sortFiles files).session = some f)
    {rs : List Recording} (hrs : Capture.decodeSession f = .ok rs) :
    (loadGroup (.captures unpack?) w files).1.registry.HoldsSession
      (w.offsetsAmong (Capture.batch files)) f rs := by
  obtain ⟨candidates, session, hbecomes, hregistry, -⟩ :=
    exists_merge_captures unpack? w (Capture.isEmpty_sortFiles_of_session h)
  have hsession := hbecomes.session
  rw [Capture.session_batch h, hrs] at hsession
  cases hsession with
  | some hdated =>
    rw [hregistry]
    exact Registry.holdsSession_merge _ _ hdated.1 hdated.2

/-- The session in use stays if the selected file cannot be decoded, even if another session file of
the container could be. -/
theorem keepsSession_loadGroup (h : (Capture.sortFiles files).session = some f)
    {e : Capture.DecodeError} (hfailed : Capture.decodeSession f = .error e) :
    w.registry.KeepsSession (loadGroup (.captures unpack?) w files).1.registry := by
  obtain ⟨candidates, session, hbecomes, hregistry, -⟩ :=
    exists_merge_captures unpack? w (Capture.isEmpty_sortFiles_of_session h)
  have hsession := hbecomes.session
  rw [Capture.session_batch h, hfailed] at hsession
  cases hsession
  rw [hregistry]
  exact Registry.keepsSession_merge _ _

/-- **The session of a container.** For every workspace and every container with a session file,
the first of its largest session files is selected and the others are reported as overridden. If the
selected file can be decoded, the session in use consists of its recordings; else it is reported,
and the session in use stays. In both cases each file of a single trace is handed to the merge if it
can be decoded, and reported if not. -/
theorem loadGroup_session (hf : f ∈ files) (hkind : Capture.fileKind f = .session) :
    let loaded := loadGroup (.captures unpack?) w files
    let known := w.offsetsAmong (Capture.batch files)
    ∃ chosen losers,
      Selection (SortedFiles.ofKind Capture.fileKind files .session) (some chosen) losers ∧
        (∀ g ∈ losers, .overridden g.descriptor none ∈ loaded.2) ∧
        (∀ rs, Capture.decodeSession chosen = .ok rs →
          loaded.1.registry.HoldsSession known chosen rs) ∧
        (∀ e, Capture.decodeSession chosen = .error e →
          .invalidTrace chosen.descriptor e.message ∈ loaded.2 ∧
            w.registry.KeepsSession loaded.1.registry) ∧
        ∃ candidates session, loaded.1.registry = (w.registry.merge candidates session).1 ∧
          ∀ g ∈ files, Capture.fileKind g = .trace →
            (∀ rec, Capture.decodeTrace g = .ok rec →
              ∃ l ∈ candidates, l.file = g ∧ rec.DatedAmong known l.trace) ∧
            ∀ e, Capture.decodeTrace g = .error e →
              .invalidTrace g.descriptor e.message ∈ loaded.2 := by
  intro loaded known
  obtain ⟨chosen, losers, hchosen, hselection, hlosers⟩ := Capture.exists_selection hf hkind
  obtain ⟨candidates, session, hbecomes, hregistry, hfaults⟩ :=
    exists_merge_captures unpack? w (Capture.isEmpty_sortFiles_of_session hchosen)
  refine ⟨chosen, losers, hselection, ?overridden, ?decoded, ?failed, candidates, session,
    hregistry, ?singles⟩
  case overridden =>
    intro g hg
    exact hfaults (mem_faults_of_mem_diagnostics (hlosers g hg))
  case decoded =>
    intro rs hrs
    exact holdsSession_loadGroup unpack? w hchosen hrs
  case failed =>
    intro e he
    exact ⟨hfaults (invalidTrace_mem_faults_of_session hchosen he),
      keepsSession_loadGroup unpack? w hchosen he⟩
  case singles =>
    intro g hg htrace
    refine ⟨fun rec hrec => ?_, fun e he => ?_⟩
    · exact forall₂_exists_of_mem_left hbecomes.singles (Capture.mem_singles_batch hg htrace hrec)
    · exact hfaults (invalidTrace_mem_faults_of_trace hchosen hg htrace he)

end Selected

/-- The larger of two session files cannot be decoded: the smaller one is passed over though it
could be, and the session of an earlier load stays. -/
theorem loadGroup_session_of_broken_larger :
    let w := (withPolicy {}).run {} [.load [sessionFile .surfaceFlinger "[1, 2]"] 0]
    let small : TraceFile := { sessionFile .transactions "[1]" with name := "small.json" }
    let large : TraceFile := { sessionFile .transactions "[200, 100]" with name := "large.json" }
    let loaded := loadGroup (.captures Gzip.unpack?) w [small, large]
    (Capture.decodeSession small).isOk = true ∧ .overridden "small.json" none ∈ loaded.2 ∧
      w.registry.modern.contains .surfaceFlinger = true ∧
      ∃ e, Capture.decodeSession large = .error e ∧
        .invalidTrace "large.json" e.message ∈ loaded.2 ∧
        w.registry.KeepsSession loaded.1.registry := by
  intro w small large loaded
  have hmem : small ∈ [small, large] := List.mem_cons_self
  have hkind : Capture.fileKind small = .session := by decide +kernel
  obtain ⟨chosen, losers, hselection, hoverridden, -, hfailed, -⟩ :=
    loadGroup_session Gzip.unpack? w hmem hkind
  have hsessions :
      SortedFiles.ofKind Capture.fileKind [small, large] .session = [small, large] := by
    decide +kernel
  rw [hsessions] at hselection
  have hchosen : chosen = large := hselection.eq_of_size_lt (by simp) (by decide +kernel)
  have hsmall : small ∈ losers := by
    rw [hchosen] at hselection
    exact hselection.mem_losers hmem (by decide +kernel)
  have hbroken : (Capture.decodeSession large).isOk = false := by decide +kernel
  obtain ⟨e, hdecode⟩ := Capture.exists_eq_error hbroken
  rw [hchosen] at hfailed
  obtain ⟨hreported, hkept⟩ := hfailed e hdecode
  exact ⟨by decide +kernel, hoverridden small hsmall, by decide +kernel, e, hdecode, hreported,
    hkept⟩

/-- A container may have a session file that can be decoded, and yet the session in use after it is
from none of them. -/
theorem not_forall_session_of_decodable :
    ¬∀ (unpack? : TraceFile → Option (List TraceFile)) (settings : Settings) (policy : MergePolicy)
        (calls : List Call) (files : List TraceFile),
        (∃ f ∈ files, Capture.fileKind f = .session ∧ (Capture.decodeSession f).isOk = true) →
        let w := (withPolicy policy).run (settings.forCaptures unpack?) calls
        ∀ c l, (loadGroup (.captures unpack?) w files).1.registry.modern.get? c = some l →
          ∃ f ∈ files, Capture.fileKind f = .session ∧ (Capture.decodeSession f).isOk = true ∧
            l.file = f := by
  intro h
  let calls : List Call := [.load [sessionFile .surfaceFlinger "[1, 2]"] 0]
  let small : TraceFile := { sessionFile .transactions "[1]" with name := "small.json" }
  let large : TraceFile := { sessionFile .transactions "[200, 100]" with name := "large.json" }
  let w := (withPolicy {}).run (({} : Settings).forCaptures Gzip.unpack?) calls
  have hdecodable : ∃ f ∈ [small, large],
      Capture.fileKind f = .session ∧ (Capture.decodeSession f).isOk = true := by
    decide +kernel
  have hselected : (Capture.sortFiles [small, large]).session = some large :=
    Capture.session_sortFiles_of_size_lt (by simp) (by decide +kernel) (by decide +kernel)
  have hbroken : (Capture.decodeSession large).isOk = false := by decide +kernel
  obtain ⟨e, hdecode⟩ := Capture.exists_eq_error hbroken
  have hkept := keepsSession_loadGroup Gzip.unpack? w hselected hdecode
  have hheld : (w.registry.modern.get? .surfaceFlinger).map (·.file.name) =
      some "session.json" := by
    decide +kernel
  obtain ⟨l, hl, hname⟩ := Option.map_eq_some_iff.mp hheld
  rw [← hkept.get?_eq .surfaceFlinger (by decide)] at hl
  obtain ⟨f, hf, -, -, hfile⟩ :=
    h Gzip.unpack? {} {} calls [small, large] hdecodable .surfaceFlinger l hl
  rw [hfile] at hname
  have hnames : ∀ f ∈ [small, large], f.name ≠ "session.json" := by decide +kernel
  exact hnames f hf hname

end Workspace

end FrameAlign
