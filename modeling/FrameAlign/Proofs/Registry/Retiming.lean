import FrameAlign.Proofs.Registry.Backing

/-!
# Timestamps of window manager transitions

The timestamps of window manager transitions are replaced later on and say nothing about the age of
a recording. No merge takes such transitions for left over. But it takes them for evidence that
other traces are, and in a session the timestamps choose among several of them. These two are the
only ways in which the timestamps have an influence on which traces a merge takes for left over.
-/

namespace FrameAlign

/-! ## Other timestamps -/

/-- The trace without its timestamps. Two traces that agree here differ at most in these. -/
def Trace.timeless (t : Trace) : Trace := { t with timestamps := [], dated := Or.inl rfl }

/-- A change of the timestamps of window manager transitions that leaves each on its clock. The
change is any function of the trace with these properties. -/
structure Retiming where
  /-- The trace with its other timestamps. -/
  trace : Trace → Trace
  /-- Nothing but the timestamps changes. -/
  timeless_trace : ∀ t, (trace t).timeless = t.timeless
  /-- There are as many timestamps as before, on the same clocks. -/
  clocks_trace : ∀ t, (trace t).timestamps.map (·.clock) = t.timestamps.map (·.clock)
  /-- Only window manager transitions change. -/
  trace_of_ne : ∀ t, t.category ≠ .wmTransition → trace t = t

/-- The gap that a drop is reported with. Only traces that are left over are reported with one. -/
def Drop.gap? (d : Drop) : Option TimeRange :=
  match d.diagnostic with
  | .oldData _ gap => gap
  | _ => none

namespace Retiming

/-- Changes the count of each timestamp, on window manager transitions alone. Concrete changes are
written with it. -/
def ofValues (change : Nanos → Nanos) : Retiming where
  trace t :=
    if t.category = .wmTransition then
      { t with
        timestamps := t.timestamps.map fun s => ⟨s.clock, change s.value⟩
        dated := by simpa using t.dated }
    else t
  timeless_trace := by
    intro t
    split <;> rfl
  clocks_trace := by
    intro t
    split
    · rw [List.map_map]
      rfl
    · rfl
  trace_of_ne := by
    intro t ht
    rw [if_neg ht]

/-- The loaded trace with its other timestamps, from the same file. -/
def loaded (f : Retiming) (l : LoadedTrace) : LoadedTrace := { l with trace := f.trace l.trace }

/-- The session with the other timestamps of its traces. -/
def session (f : Retiming) (s : Session) : Session := { s with traces := s.traces.map f.trace }

/-- The registry with the other timestamps of its traces, each in its place. -/
def registry (f : Retiming) (r : Registry) : Registry :=
  { r with legacy := r.legacy.map f.loaded, modern := r.modern.map f.loaded }

variable (f : Retiming)

/-- A trace keeps its identity, so the same traces count as others. -/
@[simp] theorem id_trace (t : Trace) : (f.trace t).id = t.id :=
  congrArg (·.id) (f.timeless_trace t)

/-- A loaded trace keeps its category, so it asks for the same place. -/
@[simp] theorem category_loaded (l : LoadedTrace) : (f.loaded l).category = l.category :=
  congrArg (·.category) (f.id_trace l.trace)

/-- A trace of another category stays as it is. -/
theorem loaded_of_ne {l : LoadedTrace} (h : l.category ≠ .wmTransition) : f.loaded l = l := by
  rw [loaded, f.trace_of_ne l.trace h]

/-- The traces of the other session are those of the session with their other timestamps. -/
theorem loaded_session (s : Session) : (f.session s).loaded = s.loaded.map f.loaded := by
  simp only [session, Session.loaded, List.map_map]
  rfl

/-- A single file has its other timestamps, in the place that it had. -/
@[simp] theorem get?_legacy_registry (r : Registry) (c : Category) :
    (f.registry r).legacy.get? c = (r.legacy.get? c).map f.loaded := CategoryMap.get?_map _ _ _

/-- A trace of the session has its other timestamps, in the place that it had. -/
@[simp] theorem get?_modern_registry (r : Registry) (c : Category) :
    (f.registry r).modern.get? c = (r.modern.get? c).map f.loaded := CategoryMap.get?_map _ _ _

/-- A trace has real timestamps as before, since each timestamp stays on its clock. -/
@[simp] theorem hasReal_trace (t : Trace) : (f.trace t).hasReal = t.hasReal := by
  have hclocks (t : Trace) : t.hasReal = (t.timestamps.map (·.clock)).any (· = .real) := by
    rw [Trace.hasReal, List.any_map]
    rfl
  rw [hclocks, hclocks, f.clocks_trace]

/-- A trace is elapsed alone as before. -/
@[simp] theorem isElapsedOnly_trace (t : Trace) :
    (f.trace t).isElapsedOnly = t.isElapsedOnly := by
  have hclocks (t : Trace) : t.timestamps.isEmpty = (t.timestamps.map (·.clock)).isEmpty :=
    List.isEmpty_map.symm
  rw [Trace.isElapsedOnly, Trace.isElapsedOnly, f.hasReal_trace, hclocks, hclocks, f.clocks_trace]

/-- Other timestamps alone make no trace outdated: that is a matter of clocks. -/
theorem isOutdated_trace (pool : List Trace) (t : Trace) :
    (f.trace t).isOutdated (pool.map f.trace) = t.isOutdated pool := by
  simp only [Trace.isOutdated, isElapsedOnly_trace, List.any_map, Function.comp_def, id_trace,
    hasReal_trace]

end Retiming

namespace Merging

variable {f : Retiming}

/-! ## Merges with other timestamps -/

/-- The traces of a category keep their order. -/
theorem ofCategory_map_loaded (c : Category) (loaded : List LoadedTrace) :
    ofCategory c (loaded.map f.loaded) = (ofCategory c loaded).map f.loaded := by
  rw [ofCategory, ofCategory, List.filter_map]
  simp only [Function.comp_def, Retiming.category_loaded]

/-- A place is won by the same trace when the timestamps rank alike. Ranks depend on the span of
timestamps, so without the hypothesis another could win. -/
theorem richest_map_loaded {loaded : List LoadedTrace}
    (hranks : ∀ a ∈ loaded, ∀ b ∈ loaded,
      (f.loaded a).trace.rank < (f.loaded b).trace.rank ↔ a.trace.rank < b.trace.rank) :
    richest (loaded.map f.loaded) = (richest loaded).map f.loaded := by
  have hfold (asking : List LoadedTrace) (best : Option LoadedTrace)
      (hbest : ∀ a, best = some a → a ∈ loaded) (hasking : asking ⊆ loaded) :
      (asking.map f.loaded).foldl prefer (best.map f.loaded) =
        (asking.foldl prefer best).map f.loaded := by
    induction asking generalizing best with
    | nil => rfl
    | cons b asking ih =>
      obtain ⟨hb, hrest⟩ := List.cons_subset.mp hasking
      have hprefer : prefer (best.map f.loaded) (f.loaded b) = (prefer best b).map f.loaded := by
        cases best with
        | none => rfl
        | some a =>
          simp only [prefer, Option.map_some, hranks a (hbest a rfl) b hb]
          split <;> rfl
      rw [List.map_cons, List.foldl_cons, List.foldl_cons, hprefer]
      refine ih _ (fun a ha => ?_) hrest
      rcases prefer_eq_some best b with hwon | ⟨current, hcurrent, hkept⟩
      · rwa [← Option.some.inj (hwon.symm.trans ha)]
      · rw [← Option.some.inj (hkept.symm.trans ha)]
        exact hbest current hcurrent
  exact hfold loaded none (by simp) (List.Subset.refl _)

/-- Two merges under way that differ in the timestamps of window manager transitions alone. Drops
are left out, as they are only compared at the end. -/
structure Retimes (f : Retiming) (m m' : Merging) : Prop where
  /-- The registry has the other timestamps. -/
  registry_eq : m'.registry = f.registry m.registry
  /-- The candidates have theirs. -/
  candidates_eq : m'.candidates = m.candidates.map f.loaded

section Steps

variable {m m' : Merging}

/-- The single files differ in those timestamps alone. -/
theorem Retimes.singles_eq (h : Retimes f m m') : m'.singles = m.singles.map f.loaded := by
  rw [singles, singles, h.candidates_eq, h.registry_eq, List.map_append, Retiming.registry,
    CategoryMap.values_map]

/-- The pool differs in those timestamps alone, so the evidence is compared trace by trace. -/
theorem Retimes.pool_eq (h : Retimes f m m') : m'.pool = m.pool.map f.trace := by
  rw [Merging.pool_eq, Merging.pool_eq, h.singles_eq, h.registry_eq, Retiming.registry,
    CategoryMap.values_map, ← List.map_append, List.map_map, List.map_map]
  rfl

/-- The session wins the same places when the timestamps of its transitions rank alike. Traces of
other categories rank as before. -/
theorem Retimes.replaceSession (h : Retimes f m m') {session : Option Session}
    (hranks : ∀ s ∈ session, ∀ a ∈ s.traces, ∀ b ∈ s.traces,
      a.category = .wmTransition → b.category = .wmTransition →
        ((f.trace a).rank < (f.trace b).rank ↔ a.rank < b.rank)) :
    Retimes f (m.replaceSession session) (m'.replaceSession (session.map f.session)) := by
  obtain ⟨hcandidates, hpolicy, -⟩ := replaceSession_spec session m
  obtain ⟨hcandidates', hpolicy', -⟩ := replaceSession_spec (session.map f.session) m'
  constructor
  · have hcategories : ((session.map f.session).elim [] Session.loaded).map (·.category) =
        (session.elim [] Session.loaded).map (·.category) := by
      cases session with
      | none => rfl
      | some s => simp [f.loaded_session, Function.comp_def]
    refine Registry.eq_of_get?_eq ?_ (fun c => ?_) fun c => ?_
    · rw [hpolicy', h.registry_eq]
      exact hpolicy.symm
    · rw [f.get?_legacy_registry, get?_legacy_replaceSession, get?_legacy_replaceSession,
        hcategories, h.registry_eq, f.get?_legacy_registry]
      split <;> rfl
    · cases session with
      | none => exact congrArg (·.modern.get? c) h.registry_eq
      | some s =>
        rw [f.get?_modern_registry, Option.map_some, get?_modern_replaceSession,
          get?_modern_replaceSession, f.loaded_session, ofCategory_map_loaded]
        apply richest_map_loaded
        intro a ha b hb
        obtain ⟨hasession, hacategory⟩ := mem_ofCategory.mp ha
        obtain ⟨hbsession, hbcategory⟩ := mem_ofCategory.mp hb
        obtain ⟨t, ht, rfl⟩ := List.mem_map.mp hasession
        obtain ⟨u, hu, rfl⟩ := List.mem_map.mp hbsession
        by_cases hc : c = .wmTransition
        · exact hranks s rfl t ht u hu (hacategory.trans hc) (hbcategory.trans hc)
        · rw [f.loaded_of_ne (hacategory.trans_ne hc), f.loaded_of_ne (hbcategory.trans_ne hc)]
  · rw [hcandidates', hcandidates, h.candidates_eq]

/-- The same candidates are kept if the reasons against them do not look at these timestamps. -/
theorem Retimes.candidates_sift_eq {reason? reason'? : LoadedTrace → Option DropReason}
    (h : Retimes f m m') (hreason : ∀ l, (reason'? (f.loaded l)).isNone = (reason? l).isNone) :
    (m'.sift reason'?).candidates = (m.sift reason?).candidates.map f.loaded := by
  change m'.candidates.filter _ = (m.candidates.filter _).map f.loaded
  rw [h.candidates_eq, List.filter_map]
  simp only [Function.comp_def, hreason]

/-- The same candidates give way to the session, as that is a matter of categories. -/
theorem Retimes.dropHidden (h : Retimes f m m') : Retimes f m.dropHidden m'.dropHidden where
  registry_eq := h.registry_eq
  candidates_eq := by
    apply h.candidates_sift_eq
    intro l
    rw [CategoryMap.contains, h.registry_eq, f.get?_modern_registry, Option.isSome_map,
      f.category_loaded, ← CategoryMap.contains]

/-- A sweep keeps the same single files if its reasons do not look at these timestamps. The second
sweep of a merge is not of this kind. -/
theorem Retimes.sweep {reason? reason'? : LoadedTrace → Option DropReason} (h : Retimes f m m')
    (hreason : ∀ l, (reason'? (f.loaded l)).isNone = (reason? l).isNone) :
    Retimes f (m.sweep reason?) (m'.sweep reason'?) where
  registry_eq := by
    refine Registry.eq_of_get?_eq (congrArg (·.policy) h.registry_eq) (fun c => ?_) fun c => ?_
    · rw [f.get?_legacy_registry, get?_legacy_sweep, get?_legacy_sweep, h.registry_eq,
        f.get?_legacy_registry]
      cases m.registry.legacy.get? c with
      | none => rfl
      | some l =>
        simp only [Option.map_some, Option.filter_some, hreason]
        split <;> rfl
    · exact congrArg (·.modern.get? c) h.registry_eq
  candidates_eq := h.candidates_sift_eq hreason

/-- The same single files are outdated, as that is a matter of clocks. -/
theorem Retimes.dropOutdated (h : Retimes f m m') : Retimes f m.dropOutdated m'.dropOutdated := by
  apply h.sweep
  intro l
  have houtdated := f.isOutdated_trace m.pool l.trace
  rw [h.pool_eq, Retiming.loaded, houtdated]

end Steps

/-! ## What is left over -/

/-- The traces that are dropped with a gap after their end. This is the answer of a merge that the
timestamps might change. -/
def leftOvers (drops : List Drop) : List LoadedTrace :=
  (drops.filter fun d => d.gap?.isSome).map (·.loaded)

/-- Drops are looked through one after the other. -/
theorem leftOvers_append (drops new : List Drop) :
    leftOvers (drops ++ new) = leftOvers drops ++ leftOvers new := by
  rw [leftOvers, List.filter_append, List.map_append]
  rfl

/-- An override reports no gap, so steps that only override leave the answer as it is. -/
theorem Overrides.leftOvers_eq {m m' : Merging} (h : m.Overrides m') :
    leftOvers m'.drops = leftOvers m.drops := by
  obtain ⟨new, hdrops, hnew⟩ := h
  have hnone : leftOvers new = [] := by
    rw [leftOvers, List.map_eq_nil_iff, List.filter_eq_nil_iff]
    intro d hd
    obtain ⟨source, dominant, hoverride⟩ := hnew d hd
    simp [Drop.gap?, hoverride]
  rw [hdrops, leftOvers_append, hnone, List.append_nil]

/-- A sweep drops with a gap the traces that it has such a reason against. -/
theorem mem_leftOvers_swept {reason? : LoadedTrace → Option DropReason}
    {loaded : List LoadedTrace} {l : LoadedTrace} :
    l ∈ leftOvers (swept reason? loaded) ↔
      l ∈ loaded ∧ ∃ reason, reason? l = some reason ∧ (Drop.gap? ⟨l, reason⟩).isSome = true := by
  simp only [leftOvers, swept, List.mem_map, List.mem_filter, List.mem_filterMap,
    Option.map_eq_some_iff]
  constructor
  · rintro ⟨_, ⟨⟨k, hk, reason, hreason, rfl⟩, hgap⟩, rfl⟩
    exact ⟨hk, reason, hreason, hgap⟩
  · rintro ⟨hl, reason, hreason, hgap⟩
    exact ⟨_, ⟨⟨l, hl, reason, hreason, rfl⟩, hgap⟩, rfl⟩

/-- Outdated files are dropped without a gap. -/
theorem leftOvers_dropOutdated (m : Merging) :
    leftOvers m.dropOutdated.drops = leftOvers m.drops := by
  let reason? (l : LoadedTrace) : Option DropReason :=
    if l.trace.isOutdated m.pool then some .outdated else none
  have hnone : leftOvers (swept reason? m.singles) = [] := by
    rw [List.eq_nil_iff_forall_not_mem]
    intro l hl
    obtain ⟨-, reason, hreason, hgap⟩ := mem_leftOvers_swept.mp hl
    simp only [reason?] at hreason
    split at hreason
    · cases hreason
      cases hgap
    · cases hreason
  rw [dropOutdated, drops_sweep, leftOvers_append, hnone, List.append_nil]

/-- A merge drops with a gap what another trace leaves behind when the outdated files have left. All
other steps report no gap, so one sweep decides. -/
theorem mem_leftOvers_run {session : Option Session} {m current : Merging} (hm : m.drops = [])
    (hcurrent : (m.replaceSession session).dropHidden.dropOutdated = current) {l : LoadedTrace} :
    l ∈ leftOvers (m.run session).drops ↔ l ∈ current.singles ∧
      ∃ other ∈ current.pool, other.id ≠ l.trace.id ∧
        l.trace.LeftBehind current.registry.policy other := by
  have hbefore : leftOvers current.drops = [] := by
    have hoverrides := (overrides_replaceSession session m).trans (overrides_dropHidden _)
    rw [← hcurrent, leftOvers_dropOutdated, hoverrides.leftOvers_eq, hm]
    rfl
  have hafter : leftOvers (m.run session).drops = leftOvers current.dropLeftOver.drops := by
    rw [← hcurrent]
    exact ((overrides_dropScreenshots _).trans (overrides_enterCandidates _)).leftOvers_eq
  have hgap : (∃ reason, (l.trace.oldDataGap? current.registry.policy current.pool).map .leftOver =
      some reason ∧ (Drop.gap? ⟨l, reason⟩).isSome = true) ↔
        l.trace.oldDataGap? current.registry.policy current.pool ≠ none := by
    cases l.trace.oldDataGap? current.registry.policy current.pool with
    | none => simp
    | some gap => simp [Drop.gap?, Drop.diagnostic]
  rw [hafter, dropLeftOver, drops_sweep, leftOvers_append, hbefore, List.nil_append,
    mem_leftOvers_swept, hgap, ne_eq, Trace.oldDataGap?_eq_none_iff]
  simp only [not_forall, not_not, exists_prop]

section LeftOver

variable {m m' : Merging} {l : LoadedTrace}

/-- A trace that is no window manager transition is a single file in both merges or in none. -/
theorem Retimes.mem_singles_iff (h : Retimes f m m') (hl : l.category ≠ .wmTransition) :
    l ∈ m'.singles ↔ l ∈ m.singles := by
  rw [h.singles_eq, List.mem_map]
  constructor
  · rintro ⟨k, hk, rfl⟩
    rw [f.category_loaded] at hl
    rwa [f.loaded_of_ne hl]
  · exact fun hmem => ⟨l, hmem, f.loaded_of_ne hl⟩

/-- A trace is left behind in both merges or in none if that does not depend on transitions. All
other evidence is the same in both. -/
theorem Retimes.exists_leftBehind_iff (h : Retimes f m m') {policy : MergePolicy}
    (hevidence : ∀ k ∈ m.present, k.category = .wmTransition →
      (l.trace.LeftBehind policy (f.trace k.trace) ↔ l.trace.LeftBehind policy k.trace)) :
    (∃ other ∈ m'.pool, other.id ≠ l.trace.id ∧ l.trace.LeftBehind policy other) ↔
      ∃ other ∈ m.pool, other.id ≠ l.trace.id ∧ l.trace.LeftBehind policy other := by
  -- Every other trace of the pool is the same in both merges.
  have hleft (k : LoadedTrace) (hk : k ∈ m.present) :
      l.trace.LeftBehind policy (f.trace k.trace) ↔ l.trace.LeftBehind policy k.trace := by
    by_cases hcategory : k.category = .wmTransition
    · exact hevidence k hk hcategory
    · rw [f.trace_of_ne k.trace hcategory]
  have hpool : m.pool = m.present.map (·.trace) := rfl
  simp only [h.pool_eq, hpool, List.map_map, List.mem_map, Function.comp_apply,
    exists_exists_and_eq_and, f.id_trace]
  exact exists_congr fun k => and_congr_right fun hk => and_congr_right fun _ => hleft k hk

end LeftOver

end Merging

namespace Registry

/-- **Timestamps of window manager transitions.** Two merges whose inputs and registries differ in
these timestamps alone, on the same clocks, drop a trace with a gap in both or in none, unless the
timestamps of a transition show in one of the two only that it was left behind. If a session brings
several transitions, the same one has to be the richest in both. -/
theorem mem_leftOvers_merge_retime_iff (r : Registry) (f : Retiming)
    (candidates : List LoadedTrace) (session : Option Session) {l : LoadedTrace}
    (hl : l.category ≠ .wmTransition)
    (hevidence : ∀ k ∈ candidates ++ r.legacy.values ++
        session.elim r.modern.values Session.loaded, k.category = .wmTransition →
      (l.trace.LeftBehind r.policy (f.trace k.trace) ↔ l.trace.LeftBehind r.policy k.trace))
    (hranks : ∀ s ∈ session, ∀ a ∈ s.traces, ∀ b ∈ s.traces,
      a.category = .wmTransition → b.category = .wmTransition →
        ((f.trace a).rank < (f.trace b).rank ↔ a.rank < b.rank)) :
    l ∈ Merging.leftOvers
        ((f.registry r).merge (candidates.map f.loaded) (session.map f.session)).2 ↔
      l ∈ Merging.leftOvers (r.merge candidates session).2 := by
  let m : Merging := { registry := r, candidates }
  let m' : Merging := { registry := f.registry r, candidates := candidates.map f.loaded }
  let current := (m.replaceSession session).dropHidden.dropOutdated
  let current' := (m'.replaceSession (session.map f.session)).dropHidden.dropOutdated
  have hstart : Merging.Retimes f m m' := ⟨rfl, rfl⟩
  have hcurrent : Merging.Retimes f current current' :=
    (hstart.replaceSession hranks).dropHidden.dropOutdated
  have hpolicy : current.registry.policy = r.policy := by
    obtain ⟨-, hreplaced, -⟩ := Merging.replaceSession_spec session m
    exact hreplaced
  have hpolicy' : current'.registry.policy = r.policy := by
    rw [hcurrent.registry_eq]
    exact hpolicy
  have hincoming : current.present ⊆ candidates ++ r.legacy.values ++
      session.elim r.modern.values Session.loaded := by
    intro k hk
    exact m.present_dropHidden_subset session
      ((Merging.sheds_dropOutdated _).thins.present_subset hk)
  rw [merge_snd, merge_snd, Merging.mem_leftOvers_run rfl (rfl : _ = current'),
    Merging.mem_leftOvers_run rfl (rfl : _ = current), hcurrent.mem_singles_iff hl, hpolicy,
    hpolicy']
  exact and_congr_right fun _ => hcurrent.exists_leftBehind_iff fun k hk =>
    hevidence k (hincoming hk)

/-- Transitions that come fifty nanoseconds later still leave nothing behind. -/
theorem mem_leftOvers_merge_later :
    let old := singleFile .protoLog [.real (.clamp 0), .real (.clamp 4)]
    let late := singleFile .surfaceFlinger [.real (.clamp 100), .real (.clamp 104)]
    let long := singleFile .wmTransition [.real (.clamp 0), .real (.clamp 4)]
    let short : Trace :=
      { id := ⟨.wmTransition, 1⟩, size := 2, timestamps := [.real (.clamp 1), .real (.clamp 3)] }
    let s : Session := ⟨long.file, [long.trace, short]⟩
    let f := Retiming.ofValues (·.satAdd (.clamp 50))
    let r := withPolicy ⟨.clamp 95⟩
    old ∈ Merging.leftOvers (r.merge [old, late] (some s)).2 ∧
      old ∈ Merging.leftOvers
        ((f.registry r).merge ([old, late].map f.loaded) ((some s).map f.session)).2 := by
  intro old late long short s f r
  have hdropped : Merging.leftOvers (r.merge [old, late] (some s)).2 = [old] := by cbv
  have hmem : old ∈ Merging.leftOvers (r.merge [old, late] (some s)).2 := by
    rw [hdropped]
    exact List.mem_singleton_self old
  have hsoon (t : Trace) (start : Timestamp) (hstart : t.first? = some start)
      (hgap : ¬Nanos.clamp 95 < start.value.satSub (.clamp 4)) :
      ¬old.trace.LeftBehind r.policy t := by
    intro hleft
    obtain ⟨stop, start', hstop, hstart', hgap'⟩ := hleft.gap
    cases hstop
    cases hstart.symm.trans hstart'
    exact hgap hgap'
  have hranks : ∀ a ∈ s.traces, ∀ b ∈ s.traces, (f.trace a).rank < (f.trace b).rank ↔
      a.rank < b.rank := by decide
  have hiff := r.mem_leftOvers_merge_retime_iff f [old, late] (some s) (by decide) (l := old)
  refine ⟨hmem, (hiff ?_ ?_).mpr hmem⟩
  · intro k hk hcategory
    have hincoming : k ∈ [old, late, long, ⟨long.file, short⟩] := hk
    simp only [List.mem_cons, List.not_mem_nil, or_false] at hincoming
    rcases hincoming with rfl | rfl | rfl | rfl
    · cases hcategory
    · cases hcategory
    · exact iff_of_false (hsoon _ (.real (.clamp 50)) rfl (by decide))
        (hsoon _ (.real (.clamp 0)) rfl (by decide))
    · exact iff_of_false (hsoon _ (.real (.clamp 51)) rfl (by decide))
        (hsoon _ (.real (.clamp 1)) rfl (by decide))
  · rintro _ ⟨⟩ a ha b hb - -
    exact hranks a ha b hb

/-- The start of a transition decides whether a trace is left over. -/
theorem not_forall_mem_leftOvers_iff :
    ¬∀ (policy : MergePolicy) (calls : List Call) (f : Retiming) (candidates : List LoadedTrace)
      (session : Option Session) (l : LoadedTrace), l.category ≠ .wmTransition →
      (l ∈ Merging.leftOvers ((f.registry ((withPolicy policy).run calls)).merge
          (candidates.map f.loaded) (session.map f.session)).2 ↔
        l ∈ Merging.leftOvers (((withPolicy policy).run calls).merge candidates session).2) := by
  intro h
  let old := singleFile .protoLog [.real (.clamp 0), .real (.clamp 4)]
  let transition := singleFile .wmTransition [.real (.clamp 0), .real (.clamp 4)]
  let f := Retiming.ofValues (·.satAdd (.clamp 100))
  let r := withPolicy ⟨.clamp 95⟩
  have hearly : Merging.leftOvers (r.merge [old, transition] none).2 = [] := by cbv
  have hlate : Merging.leftOvers
      ((f.registry r).merge ([old, transition].map f.loaded) none).2 = [old] := by cbv
  have hiff := h ⟨.clamp 95⟩ [] f [old, transition] none old (by decide)
  have hmem := hiff.mp (hlate ▸ List.mem_singleton_self old)
  exact List.not_mem_nil (hearly ▸ hmem)

end Registry

end FrameAlign
