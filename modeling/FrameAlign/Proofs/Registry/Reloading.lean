import FrameAlign.Proofs.Registry.Batching

/-!
# Reloading

When a batch is merged once more, each single file in use is a candidate again, the candidates
that were discarded compete again, and the session is torn down and rebuilt. Nevertheless each step
decides as it did at first: its evidence comes from the same traces, since the files in use are
among the candidates, and the file in use is the one that wins its place again.
-/

namespace FrameAlign

namespace Merging

/-- Each place is held by one of the given traces that may ask for it. In a reload these are the
candidates, so the files in use are candidates again. -/
def HeldBy (held : CategoryMap LoadedTrace) (loaded : List LoadedTrace) : Prop :=
  ∀ c l, held.get? c = some l → l ∈ loaded ∧ l.category = c

/-- More traces may be given. -/
theorem HeldBy.mono {held : CategoryMap LoadedTrace} {loaded loaded' : List LoadedTrace}
    (h : HeldBy held loaded) (hsubset : loaded ⊆ loaded') : HeldBy held loaded' :=
  fun c l hl => (h c l hl).imp_left fun hmem => hsubset hmem

/-- Two merges of the same candidates next to the same session: the first into a registry without
single files, the second into one that holds some. Each step keeps this as long as it spares the
files in use. -/
structure Repeats (m m' : Merging) (held : CategoryMap LoadedTrace) : Prop where
  /-- The candidates that are left are the same. -/
  candidates_eq : m'.candidates = m.candidates
  /-- The first merge has no single files in use. -/
  legacy_eq : m.registry.legacy = CategoryMap.empty
  /-- The second has the given ones, and all else as the first. -/
  registry_eq : m'.registry = { m.registry with legacy := held }

section Steps

variable {m m' : Merging} {held : CategoryMap LoadedTrace}

/-- Files in use that are candidates add nothing to the pool, so both merges have the
same evidence. -/
theorem Repeats.mem_pool_iff (h : Repeats m m' held) (hheld : HeldBy held m.candidates)
    (t : Trace) : t ∈ m'.pool ↔ t ∈ m.pool := by
  rw [mem_pool, mem_pool, h.candidates_eq, h.registry_eq, h.legacy_eq]
  refine exists_congr fun l => and_congr_left fun _ => ?_
  constructor
  · rintro (hl | ⟨c, hl⟩ | hl)
    · exact Or.inl hl
    · exact Or.inl (hheld c l hl).1
    · exact Or.inr (Or.inr hl)
  · rintro (hl | ⟨c, hl⟩ | hl)
    · exact Or.inl hl
    · simp at hl
    · exact Or.inr (Or.inr hl)

/-- A sweep decides alike in both merges if its reasons are alike, and it spares the files in use if
it spares them as candidates. -/
theorem Repeats.sweep {reason? reason'? : LoadedTrace → Option DropReason}
    (h : Repeats m m' held) (hreason : ∀ l, (reason'? l).isNone = (reason? l).isNone)
    (hheld : HeldBy held (m.sweep reason?).candidates) :
    Repeats (m.sweep reason?) (m'.sweep reason'?) held where
  candidates_eq := by
    change m'.candidates.filter _ = m.candidates.filter _
    rw [h.candidates_eq]
    exact List.filter_congr fun l _ => hreason l
  legacy_eq := CategoryMap.eq_empty_of_get?_le (sheds_sweep reason? m).legacy_le h.legacy_eq
  registry_eq := by
    refine Registry.eq_of_get?_eq ?_ (fun c => ?_) fun c => ?_
    · exact congrArg (·.policy) h.registry_eq
    · rw [get?_legacy_sweep, h.registry_eq]
      cases hl : held.get? c with
      | none => rfl
      | some l =>
        have hspared : (reason? l).isNone = true := (List.mem_filter.mp (hheld c l hl).1).2
        rw [Option.filter_some, hreason, if_pos hspared]
    · exact congrArg (·.modern.get? c) h.registry_eq

/-- The same candidates give way to the session, and no file in use does. -/
theorem Repeats.dropHidden (h : Repeats m m' held) : Repeats m.dropHidden m'.dropHidden held where
  candidates_eq := by
    simp only [Merging.dropHidden, Merging.sift, h.candidates_eq, h.registry_eq]
  legacy_eq := h.legacy_eq
  registry_eq := h.registry_eq

/-- The same candidates are outdated. The files in use are among those that the first merge has
kept, so they are spared. -/
theorem Repeats.dropOutdated (h : Repeats m m' held)
    (hheld : HeldBy held m.dropOutdated.candidates) :
    Repeats m.dropOutdated m'.dropOutdated held := by
  have hpool := h.mem_pool_iff (hheld.mono (sheds_dropOutdated m).candidates_subset)
  refine h.sweep (fun l => ?_) hheld
  rw [Trace.isOutdated_congr hpool]

/-- The same candidates are left over, and the files in use are spared for the same reason. -/
theorem Repeats.dropLeftOver (h : Repeats m m' held)
    (hheld : HeldBy held m.dropLeftOver.candidates) :
    Repeats m.dropLeftOver m'.dropLeftOver held := by
  have hpool := h.mem_pool_iff (hheld.mono (sheds_dropLeftOver m).candidates_subset)
  refine h.sweep (fun l => ?_) hheld
  have hstart := Trace.map_start_oldDataGap?_congr hpool m.registry.policy l.trace
  have hnone := congrArg Option.isNone hstart
  rw [Option.isNone_map, Option.isNone_map] at hnone
  rw [h.registry_eq, Option.isNone_map, Option.isNone_map]
  exact hnone

/-- The same screenshots are redundant. With a recording in sight no file in use is a screenshot, as
the first merge has kept none. -/
theorem Repeats.dropScreenshots (h : Repeats m m' held)
    (hheld : HeldBy held m.dropScreenshots.candidates) :
    Repeats m.dropScreenshots m'.dropScreenshots held := by
  have hrecorded : m'.isRecorded = m.isRecorded := by
    rw [Bool.eq_iff_iff, isRecorded, isRecorded, h.candidates_eq, h.registry_eq, h.legacy_eq]
    simp only [Bool.or_eq_true, CategoryMap.contains_empty, Bool.false_eq_true, false_or]
    constructor
    · rintro ((hlegacy | hmodern) | hcandidate)
      · obtain ⟨l, hl⟩ := CategoryMap.contains_iff.mp hlegacy
        obtain ⟨hmem, hcategory⟩ := hheld _ l hl
        have hcandidate := (sheds_dropScreenshots m).candidates_subset hmem
        exact Or.inr (List.any_eq_true.mpr ⟨l, hcandidate, decide_eq_true hcategory⟩)
      · exact Or.inl hmodern
      · exact Or.inr hcandidate
    · rintro (hmodern | hcandidate)
      · exact Or.inl (Or.inr hmodern)
      · exact Or.inr hcandidate
  cases hm : m.isRecorded with
  | false => rwa [dropScreenshots_eq_self hm, dropScreenshots_eq_self (hrecorded.trans hm)]
  | true =>
    obtain ⟨hcandidates, hregistry⟩ := dropScreenshots_of_isRecorded hm
    obtain ⟨hcandidates', hregistry'⟩ := dropScreenshots_of_isRecorded (hrecorded.trans hm)
    rw [hcandidates] at hheld
    constructor
    · rw [hcandidates', hcandidates, h.candidates_eq]
    · exact CategoryMap.eq_empty_of_get?_le (sheds_dropScreenshots m).legacy_le h.legacy_eq
    · rw [hregistry', hregistry, h.registry_eq]
      refine Registry.eq_of_get?_eq rfl (fun c => ?_) fun c => rfl
      rw [Registry.remove, CategoryMap.get?_erase]
      split
      · next hc =>
        symm
        rw [Option.eq_none_iff_forall_ne_some]
        rintro l hl
        obtain ⟨hmem, hcategory⟩ := hheld _ l hl
        simp [hcategory, ← hc] at hmem
      · rfl

/-- The candidates that win their places are those that hold them, so the second merge
changes nothing. -/
theorem Repeats.enterCandidates (h : Repeats m m' held)
    (hheld : m.enterCandidates.registry.legacy = held) :
    m'.enterCandidates.registry = m.enterCandidates.registry := by
  obtain ⟨-, hpolicy, hmodern, -⟩ := enterCandidates_spec m
  obtain ⟨-, hpolicy', hmodern', -⟩ := enterCandidates_spec m'
  refine Registry.eq_of_get?_eq ?_ (fun c => ?_) fun c => ?_
  · rw [hpolicy', hpolicy, h.registry_eq]
  · rw [get?_enterCandidates, h.candidates_eq, h.registry_eq, ← hheld, get?_enterCandidates,
      h.legacy_eq, CategoryMap.get?_empty, Option.or_none, Option.or_self]
  · rw [hmodern', hmodern, h.registry_eq]

/-- Candidates that enter next to no single files are those that hold the places. -/
theorem heldBy_enterCandidates (hlegacy : m.registry.legacy = CategoryMap.empty) :
    HeldBy m.enterCandidates.registry.legacy m.candidates := by
  intro c l hl
  rw [get?_enterCandidates, hlegacy, CategoryMap.get?_empty, Option.or_none] at hl
  exact mem_ofCategory.mp (mem_of_richest hl)

/-- A session brings no single files, so there are none until the candidates enter. -/
theorem legacy_replaceSession_eq_empty (hlegacy : m.registry.legacy = CategoryMap.empty)
    (session : Option Session) :
    (m.replaceSession session).registry.legacy = CategoryMap.empty := by
  ext1 c
  rw [get?_legacy_replaceSession, hlegacy, CategoryMap.get?_empty, ite_self]

/-- A session that comes again evicts none of the files that stayed next to it. This starts the
comparison of the two merges. -/
theorem repeats_replaceSession {session : Option Session} {r : Registry}
    (hlegacy : m.registry.legacy = CategoryMap.empty) (hpolicy : r.policy = m.registry.policy)
    (hmodern : session = none → r.modern = m.registry.modern)
    (hvisible : HeldBy r.legacy (m.replaceSession session).dropHidden.candidates) :
    Repeats (m.replaceSession session)
      (replaceSession session { registry := r, candidates := m.candidates }) r.legacy := by
  obtain ⟨hkept, hpolicy₁, -⟩ := replaceSession_spec session m
  obtain ⟨hkept', hpolicy₂, -⟩ :=
    replaceSession_spec session { registry := r, candidates := m.candidates }
  constructor
  · rw [hkept', hkept]
  · exact legacy_replaceSession_eq_empty hlegacy session
  · refine Registry.eq_of_get?_eq ?_ (fun c => ?_) fun c => ?_
    · rw [hpolicy₂, hpolicy₁, hpolicy]
    · rw [get?_legacy_replaceSession, ite_eq_right_iff]
      intro hc
      symm
      rw [Option.eq_none_iff_forall_ne_some]
      intro l hl
      obtain ⟨hmem, rfl⟩ := hvisible c l hl
      have hfree := contains_modern_of_mem_dropHidden hmem
      cases session with
      | none => simp at hc
      | some s => simp [(contains_modern_replaceSession s m _).mpr hc] at hfree
    · cases session with
      | none => exact congrArg (·.get? c) (hmodern rfl)
      | some s => rw [get?_modern_replaceSession, get?_modern_replaceSession]

end Steps

/-- A merge into a registry with the files that another merge of the same candidates leaves, and
with its session if no new one comes, leaves the same traces in use. The steps of the two merges are
compared one by one; that the files in use are spared is read off the end of the first. -/
theorem run_registry_eq {m : Merging} {session : Option Session} {r : Registry}
    (hlegacy : m.registry.legacy = CategoryMap.empty) (hpolicy : r.policy = m.registry.policy)
    (hheld : r.legacy = (m.run session).registry.legacy)
    (hmodern : session = none → r.modern = m.registry.modern) :
    (run session { registry := r, candidates := m.candidates }).registry =
      (m.run session).registry := by
  let hidden := (m.replaceSession session).dropHidden
  have hsheds := ((sheds_dropOutdated hidden).trans (sheds_dropLeftOver _)).trans
    (sheds_dropScreenshots _)
  have hempty : hidden.registry.legacy = CategoryMap.empty :=
    legacy_replaceSession_eq_empty hlegacy session
  have hscreenshots : HeldBy (m.run session).registry.legacy
      hidden.dropOutdated.dropLeftOver.dropScreenshots.candidates :=
    heldBy_enterCandidates (CategoryMap.eq_empty_of_get?_le hsheds.legacy_le hempty)
  have hleftOver := hscreenshots.mono (sheds_dropScreenshots _).candidates_subset
  have houtdated := hleftOver.mono (sheds_dropLeftOver _).candidates_subset
  have hhidden := houtdated.mono (sheds_dropOutdated _).candidates_subset
  rw [← hheld] at hscreenshots hleftOver houtdated hhidden
  have hreplaced := repeats_replaceSession hlegacy hpolicy hmodern hhidden
  have hswept := (hreplaced.dropHidden.dropOutdated houtdated).dropLeftOver hleftOver
  exact (hswept.dropScreenshots hscreenshots).enterCandidates hheld.symm

end Merging

namespace Registry

/-- **Reloading.** A batch of candidates and maybe a session, merged into a registry without traces,
changes nothing when it is merged once more. -/
theorem merge_merge_eq (policy : MergePolicy) (candidates : List LoadedTrace)
    (session : Option Session) :
    let once := ((withPolicy policy).merge candidates session).1
    (once.merge candidates session).1 = once := by
  intro once
  let m : Merging := { registry := withPolicy policy, candidates }
  have hempty : m.registry.modern = CategoryMap.empty := rfl
  have hmodern : session = none → (m.run session).registry.modern = m.registry.modern := by
    rintro rfl
    rw [Merging.modern_run_none hempty, hempty]
  have honce : once = (m.run session).registry := merge_fst _ candidates session
  rw [merge_fst, honce]
  exact Merging.run_registry_eq (m := m) rfl (Merging.run_policy session m) rfl hmodern

end Registry

end FrameAlign
