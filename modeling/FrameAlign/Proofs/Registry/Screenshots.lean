import FrameAlign.Proofs.Registry.Evidence

/-!
# Screenshots and screen recordings

Screenshots give way to a screen recording. A merge looks for a recording when all other reasons
against traces have been applied and before the candidates enter, and what it sees then is what is
in use afterwards. So no history of a registry ends with a screenshot next to a screen recording.
-/

namespace FrameAlign

namespace Merging

/-- A recording is seen exactly when one of the traces that can be evidence is one. Among the traces
in use it is looked up by its category, which a consistent registry allows. -/
theorem isRecorded_iff {m : Merging} {file : TraceFile} (h : m.registry.Consistent file) :
    m.isRecorded = true ↔ ∃ t ∈ m.pool, t.category = .screenRecording := by
  simp only [isRecorded, Bool.or_eq_true, List.any_eq_true, decide_eq_true_eq]
  constructor
  · rintro ((hlegacy | hmodern) | ⟨l, hl, hcategory⟩)
    · obtain ⟨l, hl⟩ := CategoryMap.contains_iff.mp hlegacy
      exact ⟨l.trace, mem_pool.mpr ⟨l, Or.inr (Or.inl ⟨_, hl⟩), rfl⟩, h.legacy_category hl⟩
    · obtain ⟨l, hl⟩ := CategoryMap.contains_iff.mp hmodern
      exact ⟨l.trace, mem_pool.mpr ⟨l, Or.inr (Or.inr ⟨_, hl⟩), rfl⟩, h.modern_category hl⟩
    · exact ⟨l.trace, mem_pool.mpr ⟨l, Or.inl hl, rfl⟩, hcategory⟩
  · rintro ⟨t, ht, hcategory⟩
    obtain ⟨l, hl | ⟨c, hl⟩ | ⟨c, hl⟩, rfl⟩ := mem_pool.mp ht
    · exact Or.inr ⟨l, hl, hcategory⟩
    · have hc : c = .screenRecording := (h.legacy_category hl).symm.trans hcategory
      exact Or.inl (Or.inl (CategoryMap.contains_iff.mpr ⟨l, hc ▸ hl⟩))
    · have hc : c = .screenRecording := (h.modern_category hl).symm.trans hcategory
      exact Or.inl (Or.inr (CategoryMap.contains_iff.mpr ⟨l, hc ▸ hl⟩))

/-- Next to a recording exactly the screenshots leave, among the candidates and in use. -/
theorem dropScreenshots_of_isRecorded {m : Merging} (h : m.isRecorded = true) :
    m.dropScreenshots.candidates = (m.candidates.filter fun l => l.category ≠ .screenshot) ∧
      m.dropScreenshots.registry = m.registry.remove .screenshot := by
  rw [dropScreenshots, if_pos h]
  refine ⟨List.filter_congr fun l _ => ?_, rfl⟩
  by_cases hcategory : l.category = .screenshot <;> simp [hcategory]

/-- Next to a recording no screenshot is left, neither as a candidate nor in use. So none can enter
afterwards. -/
theorem category_ne_screenshot_of_isRecorded {m : Merging} {file : TraceFile}
    (h : m.registry.Consistent file) (hrecorded : m.isRecorded = true) {t : Trace}
    (ht : t ∈ m.dropScreenshots.pool) : t.category ≠ .screenshot := by
  obtain ⟨hcandidates, hregistry⟩ := dropScreenshots_of_isRecorded hrecorded
  have hremoved := h.remove .screenshot
  rw [mem_pool, hcandidates, hregistry] at ht
  obtain ⟨l, hl | ⟨c, hl⟩ | ⟨c, hl⟩, rfl⟩ := ht
  · exact of_decide_eq_true (List.mem_filter.mp hl).2
  · intro hcategory
    have hc : c = .screenshot := (hremoved.legacy_category hl).symm.trans hcategory
    simp [Registry.remove, hc, CategoryMap.get?_erase] at hl
  · intro hcategory
    have hc : c = .screenshot := (hremoved.modern_category hl).symm.trans hcategory
    simp [Registry.remove, hc, CategoryMap.get?_erase] at hl

/-- Screenshots and recordings are not left together, wherever they come from: if a recording was
there the screenshots are gone, and if none was, none has come. -/
theorem dropScreenshots_exclusive {m : Merging} {file : TraceFile}
    (h : m.registry.Consistent file) :
    (∀ t ∈ m.dropScreenshots.pool, t.category ≠ .screenshot) ∨
      ∀ t ∈ m.dropScreenshots.pool, t.category ≠ .screenRecording := by
  cases hrecorded : m.isRecorded with
  | true => exact Or.inl fun t ht => category_ne_screenshot_of_isRecorded h hrecorded ht
  | false =>
    right
    intro t ht hcategory
    rw [dropScreenshots_eq_self hrecorded] at ht
    have hseen := (isRecorded_iff h).mpr ⟨t, ht, hcategory⟩
    simp [hrecorded] at hseen

end Merging

namespace Registry

/-- No screenshot is in use next to a screen recording. Both would show the same screen. -/
def ScreenExclusive (r : Registry) : Prop :=
  .screenshot ∉ r.loaded.map (·.category) ∨ .screenRecording ∉ r.loaded.map (·.category)

/-- A registry with fewer traces still has no screenshot next to a recording, so a
removal keeps it. -/
theorem ScreenExclusive.of_loaded_subset {r r' : Registry} (h : r.ScreenExclusive)
    (hloaded : r'.loaded ⊆ r.loaded) : r'.ScreenExclusive :=
  h.imp (mt fun hmem => List.map_subset _ hloaded hmem)
    (mt fun hmem => List.map_subset _ hloaded hmem)

/-- A merge leaves no screenshot next to a recording, whatever was in use before. The step that
drops screenshots is followed only by the entry of candidates, which brings nothing new. -/
theorem Consistent.screenExclusive_merge {r : Registry} {file : TraceFile}
    (h : r.Consistent file) (candidates : List LoadedTrace) (session : Option Session) :
    (r.merge candidates session).1.ScreenExclusive := by
  let m : Merging := { registry := r, candidates }
  let leftOver := (m.replaceSession session).dropHidden.dropOutdated.dropLeftOver
  have hleftOver := Merging.cleared_dropLeftOver (m := m) h session
  have habsent : ∀ c, (∀ t ∈ leftOver.dropScreenshots.pool, t.category ≠ c) →
      c ∉ (m.run session).registry.loaded.map (·.category) := by
    intro c hnone hmem
    obtain ⟨l, hl, hcategory⟩ := List.mem_map.mp hmem
    have hpool : l.trace ∈ leftOver.dropScreenshots.pool :=
      (Merging.thins_enterCandidates _).mem_pool (Merging.mem_pool_of_mem_loaded hl)
    exact hnone _ hpool hcategory
  rw [merge_fst]
  exact (Merging.dropScreenshots_exclusive hleftOver.consistent).imp (habsent _) (habsent _)

/-- A call leaves no screenshot next to a recording. Only a merge establishes this; the other
calls keep it. -/
theorem ScreenExclusive.answer {r : Registry} {file : TraceFile} (h : r.ScreenExclusive)
    (hconsistent : r.Consistent file) (call : Call) : (r.answer call).ScreenExclusive := by
  cases call with
  | merge candidates session => exact hconsistent.screenExclusive_merge candidates session
  | remove c =>
    exact h.of_loaded_subset
      (loaded_subset_of_get?_le CategoryMap.get?_of_get?_erase CategoryMap.get?_of_get?_erase)
  | clear => exact Or.inl (by simp [Registry.answer, clear, mem_loaded])

/-- After every history no screenshot is in use next to a recording. -/
theorem screenExclusive_run (policy : MergePolicy) (calls : List Call) :
    ((withPolicy policy).run calls).ScreenExclusive := by
  refine run_induction_of_consistent (Or.inl ?_) ?_
  · simp [withPolicy, mem_loaded]
  · intro call _ r file hconsistent hexclusive
    exact hexclusive.answer hconsistent call

/-- **A screen at most once.** After any sequence of merges, removals and clearings, with any
candidates and sessions, screenshots and screen recordings are not in use together. -/
theorem run_screenExclusive (policy : MergePolicy) (calls : List Call) :
    .screenshot ∉ ((withPolicy policy).run calls).loaded.map (·.category) ∨
      .screenRecording ∉ ((withPolicy policy).run calls).loaded.map (·.category) :=
  screenExclusive_run policy calls

end Registry

end FrameAlign
