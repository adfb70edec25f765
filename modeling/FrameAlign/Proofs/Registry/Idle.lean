import FrameAlign.Proofs.Registry.Screenshots
import FrameAlign.Proofs.Registry.Settled

/-!
# Merges of nothing

A merge without candidates and without a session looks once more for evidence among the traces in
use. It finds none: the merges before have settled their age and have kept screenshots away from
recordings, and removals leave no evidence behind. So it changes nothing and drops nothing.
-/

namespace FrameAlign

namespace Merging

variable {reason? : LoadedTrace → Option DropReason} {m : Merging}

/-- Without a reason against any of the traces nothing is swept. -/
theorem swept_eq_nil {loaded : List LoadedTrace} (h : ∀ l ∈ loaded, reason? l = none) :
    swept reason? loaded = [] :=
  List.filterMap_eq_nil_iff.mpr fun l hl => by rw [h l hl, Option.map_none]

/-- Sifting without a reason against any candidate changes nothing. A merge of nothing has no
candidates. -/
theorem sift_eq_self (h : ∀ l ∈ m.candidates, reason? l = none) : m.sift reason? = m := by
  have hkept : m.candidates.filter (fun l => (reason? l).isNone) = m.candidates :=
    List.filter_eq_self.mpr fun l hl => Option.isNone_iff_eq_none.mpr (h l hl)
  have hdropped : m.drops ++ swept reason? m.candidates = m.drops := by
    rw [swept_eq_nil h, List.append_nil]
  rw [swept] at hdropped
  rw [sift, hkept, hdropped]

/-- A sweep without a reason against any single file changes nothing, in either of the two places of
single files. -/
theorem sweep_eq_self (h : ∀ l ∈ m.singles, reason? l = none) : m.sweep reason? = m := by
  have hsift : m.sift reason? = m := sift_eq_self fun l hl => h l (List.mem_append_left _ hl)
  have hlegacy : (m.sweep reason?).registry.legacy = m.registry.legacy := by
    ext1 c
    rw [get?_legacy_sweep]
    cases hget : m.registry.legacy.get? c with
    | none => rfl
    | some l =>
      have hl : l ∈ m.registry.legacy.values := CategoryMap.mem_values.mpr ⟨c, hget⟩
      rw [Option.filter_some, h l (List.mem_append_right _ hl)]
      rfl
  have hdrops : (m.sweep reason?).drops = m.drops := by
    rw [drops_sweep, swept_eq_nil h, List.append_nil]
  -- The candidates are sifted, and the other parts of the merge are not looked at.
  calc
    m.sweep reason? =
        { m.sift reason? with
          registry := { m.registry with legacy := (m.sweep reason?).registry.legacy }
          drops := (m.sweep reason?).drops } := rfl
    _ = m := by rw [hlegacy, hdrops, hsift]

end Merging

namespace Registry

variable {r : Registry}

/-! ## One step after the other -/

/-- A merge of nothing at its start. All its steps are shown to leave it as it is. -/
def idle (r : Registry) : Merging := { registry := r, candidates := [] }

/-- Without candidates the traces in use are the only evidence. -/
theorem mem_pool_idle {t : Trace} : t ∈ r.idle.pool ↔ ∃ l ∈ r.loaded, l.trace = t := by
  simp only [Merging.pool, idle, List.nil_append, List.mem_map, List.mem_append, mem_loaded]

/-- Nothing settled is outdated, so the first sweep finds nothing. -/
theorem Settled.dropOutdated_idle (h : r.Settled) : r.idle.dropOutdated = r.idle := by
  refine Merging.sweep_eq_self fun l hl => ite_eq_right_iff.mpr fun houtdated => ?_
  obtain ⟨helapsed, other, hother, -, hreal⟩ := Trace.isOutdated_iff.mp houtdated
  obtain ⟨k, hk, rfl⟩ := mem_pool_idle.mp hother
  rw [h.not_outdated l hl k hk hreal] at helapsed
  cases helapsed

/-- Nothing settled is left over, so the second sweep finds nothing. -/
theorem Settled.dropLeftOver_idle (h : r.Settled) : r.idle.dropLeftOver = r.idle := by
  refine Merging.sweep_eq_self fun l hl => ?_
  rw [Option.map_eq_none_iff, Trace.oldDataGap?_eq_none_iff]
  intro other hother hid
  obtain ⟨k, hk, rfl⟩ := mem_pool_idle.mp hother
  have hne : l ≠ k := fun heq => hid (by rw [heq])
  exact h.not_leftBehind l hl k hk hne

/-- A screen recording finds no screenshots left to take the place of. With a recording in use there
are none, and without one nothing happens. -/
theorem ScreenExclusive.dropScreenshots_idle {file : TraceFile} (h : r.ScreenExclusive)
    (hconsistent : r.Consistent file) : r.idle.dropScreenshots = r.idle := by
  cases hrecorded : r.idle.isRecorded with
  | false => exact Merging.dropScreenshots_eq_self hrecorded
  | true =>
    have hrecording : r.contains .screenRecording = true := by
      simpa [Merging.isRecorded, idle, contains_eq_or] using hrecorded
    have hscreenshot : r.contains .screenshot = false := by
      rw [← Bool.not_eq_true, ← hconsistent.mem_map_category]
      exact h.resolve_right (not_not_intro (hconsistent.mem_map_category.mpr hrecording))
    have hheld := contains_eq_or r .screenshot
    rw [hscreenshot, eq_comm, Bool.or_eq_false_iff, CategoryMap.contains_eq_false_iff,
      CategoryMap.contains_eq_false_iff] at hheld
    rw [Merging.dropScreenshots, if_pos hrecorded]
    simp [idle, Merging.sift, remove_eq_self hscreenshot, hheld.1, hheld.2]

/-- A merge of nothing changes nothing and drops nothing, if no trace in use speaks against another.
Each step finds nothing to do. -/
theorem merge_nil_eq_self {file : TraceFile} (hconsistent : r.Consistent file)
    (hsettled : r.Settled) (hexclusive : r.ScreenExclusive) : r.merge [] none = (r, []) := by
  have hreplaced : r.idle.replaceSession none = r.idle := rfl
  have hhidden : r.idle.dropHidden = r.idle := Merging.sift_eq_self fun l hl => nomatch hl
  have hrun : r.idle.run none = r.idle := by
    rw [Merging.run, hreplaced, hhidden, hsettled.dropOutdated_idle, hsettled.dropLeftOver_idle,
      hexclusive.dropScreenshots_idle hconsistent]
    rfl
  exact congrArg (fun m => (m.registry, m.drops)) hrun

/-! ## After every history -/

/-- After every history a merge of nothing changes nothing and drops nothing. The three conditions
hold after every history, removals included. -/
theorem merge_nil_run (policy : MergePolicy) (calls : List Call) :
    ((withPolicy policy).run calls).merge [] none = ((withPolicy policy).run calls, []) := by
  obtain ⟨file, hconsistent⟩ := run_consistent policy calls
  exact merge_nil_eq_self hconsistent (settled_run policy calls) (screenExclusive_run policy calls)

end Registry

end FrameAlign
