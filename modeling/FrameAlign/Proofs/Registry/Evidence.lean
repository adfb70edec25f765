import FrameAlign.Proofs.Registry.Consistency

/-!
# Evidence among the traces in use

A merge drops single files that other traces show to be outdated or left over. The evidence is taken
from a pool of everything that could be in use after the merge. Later steps only make the traces
fewer, so that no trace in use is ever evidence against a single file in use.
-/

namespace FrameAlign

namespace Trace

/-- Evidence of `other` that `t` was left over from an earlier recording. It is a relation between
two traces, with no mention of the pool in which they are found. -/
structure LeftBehind (policy : MergePolicy) (t other : Trace) : Prop where
  /-- The timestamps of `t` say something about its age. -/
  aged : t.isAgeless = false
  /-- A single sample is not left over. -/
  timeline : t.isTimeline = true
  /-- A single sample is no evidence. -/
  other_timeline : other.isTimeline = true
  /-- The other trace starts longer after the end of `t` than the policy allows. -/
  gap : ∃ stop start, t.last? = some stop ∧ other.first? = some start ∧
    policy.maxTimeGap < start.value.satSub stop.value

/-- A gap is missing when the other trace does not start or starts soon enough. -/
theorem gapAfter?_eq_none_iff {policy : MergePolicy} {stop : Timestamp} {other : Trace} :
    gapAfter? policy stop other = none ↔
      ∀ start, other.first? = some start → ¬policy.maxTimeGap < start.value.satSub stop.value := by
  rw [gapAfter?]
  cases hfirst : other.first? with
  | none => simp
  | some start => simp

/-- A timeline has a last timestamp, so the gap behind it starts somewhere. -/
theorem exists_last?_of_isTimeline {t : Trace} (h : t.isTimeline = true) :
    ∃ stop, t.last? = some stop := by
  have hlength : 2 ≤ t.timestamps.length := by
    simp only [isTimeline, Bool.and_eq_true, decide_eq_true_eq] at h
    exact h.2
  have hne : t.timestamps ≠ [] := by
    intro hnil
    rw [hnil] at hlength
    simp at hlength
  exact ⟨_, List.getLast?_eq_some_getLast hne⟩

/-- A trace is kept when no other trace of the pool shows it to be left over. The search for the
first gap is gone from this form. -/
theorem oldDataGap?_eq_none_iff {policy : MergePolicy} {pool : List Trace} {t : Trace} :
    t.oldDataGap? policy pool = none ↔
      ∀ other ∈ pool, other.id ≠ t.id → ¬t.LeftBehind policy other := by
  rw [oldDataGap?]
  by_cases hexempt : (t.isAgeless || !t.isTimeline) = true
  · rw [if_pos hexempt]
    refine iff_of_true rfl ?_
    intro other _ _ h
    simp [h.aged, h.timeline] at hexempt
  · rw [if_neg hexempt]
    simp only [Bool.or_eq_true, not_or, Bool.not_eq_true, Bool.not_eq_false'] at hexempt
    obtain ⟨haged, htimeline⟩ := hexempt
    obtain ⟨stop, hstop⟩ := exists_last?_of_isTimeline htimeline
    rw [hstop]
    simp only [Option.bind_eq_bind, Option.bind_some, List.findSome?_eq_none_iff, List.mem_filter,
      gapAfter?_eq_none_iff, Bool.and_eq_true, decide_eq_true_eq]
    constructor
    · intro hnone other hother hid h
      obtain ⟨stop', start, hstop', hstart, hgap⟩ := h.gap
      have heq : stop = stop' := Option.some.inj (hstop.symm.trans hstop')
      subst heq
      exact hnone other ⟨hother, hid, h.other_timeline⟩ start hstart hgap
    · rintro hnone other ⟨hother, hid, hother_timeline⟩ start hstart hgap
      exact hnone other hother hid
        ⟨haged, htimeline, hother_timeline, stop, start, hstop, hstart, hgap⟩

/-- A trace is outdated when it is elapsed alone and another trace of the pool is real. Traces are
told apart by their identities. -/
theorem isOutdated_iff {pool : List Trace} {t : Trace} :
    t.isOutdated pool = true ↔
      t.isElapsedOnly = true ∧ ∃ other ∈ pool, other.id ≠ t.id ∧ other.hasReal = true := by
  simp [isOutdated]

/-- A trace is a timeline as soon as it has two timestamps, which belong to entries. -/
theorem isTimeline_iff {t : Trace} : t.isTimeline = true ↔ 2 ≤ t.timestamps.length := by
  simp only [isTimeline, isEmpty, Bool.and_eq_true, Bool.not_eq_true', decide_eq_false_iff_not,
    decide_eq_true_eq]
  constructor
  · exact fun h => h.2
  · intro hlength
    refine ⟨?_, hlength⟩
    rcases t.dated with hundated | hdated
    · rw [hundated] at hlength
      simp at hlength
    · omega

/-- A timeline starts at some time, so it can be compared with the end of another trace. -/
theorem exists_first?_of_isTimeline {t : Trace} (h : t.isTimeline = true) :
    ∃ start, t.first? = some start := by
  rw [isTimeline_iff] at h
  cases htimes : t.timestamps with
  | nil => simp [htimes] at h
  | cons start rest => exact ⟨start, by rw [first?, htimes, List.head?_cons]⟩

/-- The gap of a left-over trace starts at its end, and some trace of the pool leaves it behind. The
gap ends where the first such trace starts. -/
theorem exists_leftBehind_of_oldDataGap? {policy : MergePolicy} {pool : List Trace} {t : Trace}
    {gap : TimeRange} (h : t.oldDataGap? policy pool = some gap) :
    ∃ other ∈ pool, t.LeftBehind policy other ∧ t.last? = some gap.start := by
  rw [oldDataGap?] at h
  by_cases hexempt : (t.isAgeless || !t.isTimeline) = true
  · rw [if_pos hexempt] at h
    cases h
  · rw [if_neg hexempt] at h
    simp only [Bool.or_eq_true, not_or, Bool.not_eq_true, Bool.not_eq_false'] at hexempt
    obtain ⟨haged, htimeline⟩ := hexempt
    obtain ⟨stop, hstop⟩ := exists_last?_of_isTimeline htimeline
    rw [hstop] at h ⊢
    obtain ⟨other, hother, hgap⟩ := List.exists_of_findSome?_eq_some h
    simp only [List.mem_filter, Bool.and_eq_true] at hother
    obtain ⟨hmem, -, hother_timeline⟩ := hother
    obtain ⟨start, hstart⟩ := exists_first?_of_isTimeline hother_timeline
    simp only [gapAfter?, hstart, Option.bind_eq_bind, Option.bind_some] at hgap
    split at hgap
    · next hlt =>
      cases hgap
      exact ⟨other, hmem, ⟨haged, htimeline, hother_timeline, stop, start, hstop, hstart, hlt⟩, rfl⟩
    · cases hgap

/-! ## Only which traces are in the pool matters -/

section Congr

variable {pool pool' : List Trace} (hpool : ∀ other, other ∈ pool' ↔ other ∈ pool)

include hpool

/-- Whether a trace is outdated depends on which traces are in the pool, and neither on their order
nor on how often they are in it. -/
theorem isOutdated_congr (t : Trace) : t.isOutdated pool' = t.isOutdated pool := by
  rw [Bool.eq_iff_iff, isOutdated_iff, isOutdated_iff]
  simp only [hpool]

/-- Whether a trace is left over, and where the gap after it starts, depends on which traces are in
the pool. Where the gap ends depends on their order, too. -/
theorem map_start_oldDataGap?_congr (policy : MergePolicy) (t : Trace) :
    (t.oldDataGap? policy pool').map (·.start) = (t.oldDataGap? policy pool).map (·.start) := by
  have hnone : t.oldDataGap? policy pool' = none ↔ t.oldDataGap? policy pool = none := by
    simp only [oldDataGap?_eq_none_iff, hpool]
  cases hgap : t.oldDataGap? policy pool with
  | none => rw [hnone.mpr hgap]
  | some gap =>
    cases hgap' : t.oldDataGap? policy pool' with
    | none =>
      rw [hnone.mp hgap'] at hgap
      cases hgap
    | some gap' =>
      -- Both gaps start where the trace ends.
      obtain ⟨-, -, -, hlast⟩ := exists_leftBehind_of_oldDataGap? hgap
      obtain ⟨-, -, -, hlast'⟩ := exists_leftBehind_of_oldDataGap? hgap'
      rw [Option.map_some, Option.map_some, ← hlast, ← hlast']

end Congr

end Trace

namespace Merging

/-! ## Evidence in a merge -/

/-- From `m` to `m'` traces may leave a merge, and none comes in. It is all that evidence needs to
know of the steps after a sweep. -/
structure Thins (m m' : Merging) : Prop where
  /-- The rules stay. -/
  policy_eq : m'.registry.policy = m.registry.policy
  /-- No candidate and no single file comes in. -/
  singles_subset : m'.singles ⊆ m.singles
  /-- No trace of the session comes in. -/
  modern_subset : m'.registry.modern.values ⊆ m.registry.modern.values

/-- Traces that leave one after the other only make the traces fewer. -/
theorem Thins.trans {m m' m'' : Merging} (h : m.Thins m') (h' : m'.Thins m'') : m.Thins m'' where
  policy_eq := h'.policy_eq.trans h.policy_eq
  singles_subset := fun _ hl => h.singles_subset (h'.singles_subset hl)
  modern_subset := fun _ hl => h.modern_subset (h'.modern_subset hl)

/-- A trace that can be evidence afterwards could be evidence before. So evidence that was missed
once never appears. -/
theorem Thins.mem_pool {m m' : Merging} (h : m.Thins m') {t : Trace} (ht : t ∈ m'.pool) :
    t ∈ m.pool := by
  rw [pool_eq] at ht ⊢
  obtain ⟨l, hl, rfl⟩ := List.mem_map.mp ht
  apply List.mem_map_of_mem
  rcases List.mem_append.mp hl with hl | hl
  · exact List.mem_append_left _ (h.singles_subset hl)
  · exact List.mem_append_right _ (h.modern_subset hl)

/-- A merge that sheds traces has fewer. The account of the drops is not needed for evidence. -/
theorem Sheds.thins {m m' : Merging} (h : m.Sheds m') : m.Thins m' where
  policy_eq := h.policy_eq
  singles_subset := by
    intro l hl
    rcases List.mem_append.mp hl with hl | hl
    · exact List.mem_append_left _ (h.candidates_subset hl)
    · exact List.mem_append_right _ (CategoryMap.values_subset_of_get?_le h.legacy_le hl)
  modern_subset := CategoryMap.values_subset_of_get?_le h.modern_le

/-- Candidates that enter were single files before, so that no trace comes in. They do not shed
traces, since they change their place. -/
theorem thins_enterCandidates (m : Merging) : m.Thins m.enterCandidates := by
  obtain ⟨hcandidates, hpolicy, hmodern, losers, -, hbalance⟩ := enterCandidates_spec m
  constructor
  · exact hpolicy
  · intro l hl
    rw [singles, hcandidates, List.nil_append] at hl
    rw [← Multiset.mem_coe, hbalance]
    exact Multiset.mem_add.mpr (Or.inl hl)
  · rw [hmodern]
    exact fun _ hl => hl

/-- Everything in use after a merge could be evidence at its end. -/
theorem mem_pool_of_mem_loaded {m : Merging} {l : LoadedTrace} (hl : l ∈ m.registry.loaded) :
    l.trace ∈ m.pool := by
  rw [pool_eq]
  apply List.mem_map_of_mem
  rcases Registry.mem_loaded.mp hl with hl | hl
  · exact List.mem_append_left _ (List.mem_append_right _ hl)
  · exact List.mem_append_right _ hl

/-- After the sweep of left-over traces a merge only has fewer traces. -/
theorem thins_run_of_dropLeftOver (session : Option Session) (m : Merging) :
    (m.replaceSession session).dropHidden.dropOutdated.dropLeftOver.Thins (m.run session) :=
  (sheds_dropScreenshots _).thins.trans (thins_enterCandidates _)

/-- After the sweep of outdated traces a merge only has fewer traces: the other sweep and what comes
behind it. -/
theorem thins_run_of_dropOutdated (session : Option Session) (m : Merging) :
    (m.replaceSession session).dropHidden.dropOutdated.Thins (m.run session) :=
  (sheds_dropLeftOver _).thins.trans (thins_run_of_dropLeftOver session m)

/-- After the replacement of the session a merge only has fewer traces. The session is all that
can come in. -/
theorem thins_run (session : Option Session) (m : Merging) :
    (m.replaceSession session).dropHidden.Thins (m.run session) :=
  (sheds_dropOutdated _).thins.trans (thins_run_of_dropOutdated session m)

/-- A sweep leaves no single file that it has a reason against, whatever the reasons are. -/
theorem reason_eq_none_of_mem_sweep {reason? : LoadedTrace → Option DropReason} {m : Merging}
    {l : LoadedTrace} (hl : l ∈ (m.sweep reason?).singles) : reason? l = none := by
  rw [singles_sweep, List.mem_filter, Option.isNone_iff_eq_none] at hl
  exact hl.2

/-- No single file in use after a merge is outdated by a trace in use after it. That trace was in
the pool of the sweep, which found nothing. -/
theorem isElapsedOnly_eq_false_of_run {session : Option Session} {m : Merging}
    {l k : LoadedTrace} (hl : l ∈ (m.run session).registry.legacy.values)
    (hk : k ∈ (m.run session).registry.loaded) (hid : k.trace.id ≠ l.trace.id)
    (hreal : k.trace.hasReal = true) : l.trace.isElapsedOnly = false := by
  have hpool := (thins_run session m).mem_pool (mem_pool_of_mem_loaded hk)
  have hkept := (thins_run_of_dropOutdated session m).singles_subset (List.mem_append_right _ hl)
  have hreason := reason_eq_none_of_mem_sweep hkept
  rw [ite_eq_right_iff] at hreason
  by_contra helapsed
  rw [Bool.not_eq_false] at helapsed
  have houtdated := Trace.isOutdated_iff.mpr ⟨helapsed, k.trace, hpool, hid, hreal⟩
  exact Option.some_ne_none _ (hreason houtdated)

/-- No single file in use after a merge is left behind by a trace in use after it, for the
same reason. -/
theorem not_leftBehind_of_run {session : Option Session} {m : Merging} {l k : LoadedTrace}
    (hl : l ∈ (m.run session).registry.legacy.values)
    (hk : k ∈ (m.run session).registry.loaded) (hid : k.trace.id ≠ l.trace.id) :
    ¬l.trace.LeftBehind (m.run session).registry.policy k.trace := by
  have hthin := thins_run_of_dropOutdated session m
  have hpool := hthin.mem_pool (mem_pool_of_mem_loaded hk)
  have hkept := (thins_run_of_dropLeftOver session m).singles_subset (List.mem_append_right _ hl)
  have hreason := reason_eq_none_of_mem_sweep hkept
  rw [Option.map_eq_none_iff, Trace.oldDataGap?_eq_none_iff] at hreason
  rw [hthin.policy_eq]
  exact hreason k.trace hpool hid

/-- A merge keeps the policy, so a registry has one for all of its history. -/
theorem run_policy (session : Option Session) (m : Merging) :
    (m.run session).registry.policy = m.registry.policy := by
  obtain ⟨-, hpolicy, -⟩ := replaceSession_spec session m
  exact (thins_run session m).policy_eq.trans hpolicy

end Merging

end FrameAlign
