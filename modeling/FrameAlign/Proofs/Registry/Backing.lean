import FrameAlign.Proofs.Registry.Overrides
import FrameAlign.Proofs.Registry.Places
import FrameAlign.Proofs.Registry.Settled
import FrameAlign.Proofs.Registry.Survivors

/-!
# Evidence that outlasts a merge

A merge reports old data on the evidence of another trace. The trace that was found first may be
dropped later in the same merge, but the timeline that starts last is as good evidence, and no other
trace shows it to be left over. Only an override takes it away.
-/

namespace FrameAlign

/-- A difference that is stopped at the ends of the range is no larger than the exact one, as long
as it exceeds some count. So a gap that is found is a real gap. -/
theorem Nanos.lt_sub_of_lt_satSub {a b c : Nanos} (h : a < b.satSub c) :
    a.val < b.val - c.val := by
  have hmin := a.min_le
  have hlt : a.val < (b.satSub c).val := h
  simp only [satSub, clamp] at hlt
  omega

namespace Trace

variable {policy : MergePolicy} {t other : Trace}

/-- Evidence for a report of old data: a timeline whose start is farther from that of the gap than
the policy allows, or a real timestamp if there is no gap. It is said of a trace alone, whatever the
merge did with it. -/
def Backs (policy : MergePolicy) (t : Trace) : Option TimeRange → Prop
  | some gap => 2 ≤ t.timestamps.length ∧ ∃ start, t.first? = some start ∧
      policy.maxTimeGap.val < start.value.val - gap.start.value.val
  | none => t.hasReal = true

/-- What leaves a trace behind backs the report of the gap after its end. The end of the gap is not
looked at, as any trace that is found first may give it. -/
theorem LeftBehind.backs (h : t.LeftBehind policy other) {gap : TimeRange}
    (hstop : t.last? = some gap.start) : other.Backs policy (some gap) := by
  obtain ⟨stop, start, hstop', hstart, hgap⟩ := h.gap
  have heq : stop = gap.start := Option.some.inj (hstop'.symm.trans hstop)
  subst heq
  exact ⟨isTimeline_iff.mp h.other_timeline, start, hstart, Nanos.lt_sub_of_lt_satSub hgap⟩

end Trace

namespace Merging

variable {m : Merging} {l k : LoadedTrace}

/-! ## What the sweeps keep -/

/-- A sweep keeps a session trace, and a single file without a reason against it. Sessions are
never swept. -/
theorem mem_present_sweep {reason? : LoadedTrace → Option DropReason} (hl : l ∈ m.present)
    (hreason : l ∈ m.singles → reason? l = none) : l ∈ (m.sweep reason?).present := by
  rcases List.mem_append.mp hl with hsingle | hmodern
  · apply List.mem_append_left
    rw [singles_sweep, List.mem_filter, Option.isNone_iff_eq_none]
    exact ⟨hsingle, hreason hsingle⟩
  · exact List.mem_append_right _ hmodern

section LeftOver

variable (hpolicy : 0 ≤ m.registry.policy.maxTimeGap.val)
  (hascending : ∀ l ∈ m.present, l.trace.Ascending)

include hpolicy hascending

/-- The timeline that starts last is not left over, since no timeline starts after its end. -/
theorem mem_present_dropLeftOver (hl : l ∈ m.present)
    (hlast : ∀ k ∈ m.present, k.trace.isTimeline = true →
      k.trace.startValue ≤ l.trace.startValue) : l ∈ m.dropLeftOver.present := by
  apply mem_present_sweep hl
  intro _
  rw [Option.map_eq_none_iff, Trace.oldDataGap?_eq_none_iff]
  intro other hother _ hleft
  obtain ⟨k, hk, rfl⟩ := List.mem_map.mp hother
  exact (hascending l hl).not_leftBehind hpolicy (hlast k hk hleft.other_timeline) hleft

/-- A trace that is left behind is left behind by one that is not left over itself: by the timeline
that starts last, as it starts no earlier than the one that was found. -/
theorem exists_leftBehind_dropLeftOver {t other : Trace} (hother : other ∈ m.pool)
    (hleft : t.LeftBehind m.registry.policy other) :
    ∃ l ∈ m.dropLeftOver.present, t.LeftBehind m.registry.policy l.trace := by
  obtain ⟨k, hk, rfl⟩ := List.mem_map.mp hother
  obtain ⟨l, hl, htimeline, hlast⟩ :=
    Registry.exists_latest (List.finite_toSet m.present) hk hleft.other_timeline
  have hle := hlast k hk hleft.other_timeline
  exact ⟨l, mem_present_dropLeftOver hpolicy hascending hl hlast,
    hleft.of_startValue_le htimeline hle⟩

/-- A real trace that is left over leaves another real trace, unless the one that starts last is
elapsed alone. The clocks of the two are compared by their counts, so this can happen. -/
theorem exists_hasReal_dropLeftOver (hk : k ∈ m.present) (hreal : k.trace.hasReal = true) :
    (∃ l ∈ m.dropLeftOver.present, l.trace.hasReal = true) ∨
      ∃ l ∈ m.dropLeftOver.present, l.trace.isElapsedOnly = true := by
  by_cases hleft : ∃ other ∈ m.pool, k.trace.LeftBehind m.registry.policy other
  · obtain ⟨other, hother, hleft⟩ := hleft
    obtain ⟨l, hl, hleft'⟩ := exists_leftBehind_dropLeftOver hpolicy hascending hother hleft
    cases helapsed : l.trace.isElapsedOnly with
    | true => exact Or.inr ⟨l, hl, helapsed⟩
    | false => exact Or.inl ⟨l, hl, Trace.hasReal_of_isTimeline hleft'.other_timeline helapsed⟩
  · refine Or.inl ⟨k, mem_present_sweep hk fun _ => ?_, hreal⟩
    rw [Option.map_eq_none_iff, Trace.oldDataGap?_eq_none_iff]
    exact fun other hother _ h => hleft ⟨other, hother, h⟩

end LeftOver

/-- Traces with one identity are the same trace. A trace is never evidence against itself, and it is
by identities that this is decided. -/
def Identified (loaded : List LoadedTrace) : Prop :=
  ∀ l ∈ loaded, ∀ k ∈ loaded, l.trace.id = k.trace.id → l.trace = k.trace

/-- Traces are identified if no identity comes twice, which a load ensures by its serial numbers. -/
theorem identified_of_nodup {loaded : List LoadedTrace}
    (h : (loaded.map (·.trace.id)).Nodup) : Identified loaded := by
  intro l hl k hk hid
  exact congrArg (·.trace) (List.inj_on_of_nodup_map h hl hk hid)

/-- The evidence against an outdated trace leaves a real trace behind both sweeps, unless a trace of
the session is elapsed alone. Single files that are elapsed alone are swept first, so they cannot be
what starts last. -/
theorem exists_hasReal_of_isOutdated (hpolicy : 0 ≤ m.registry.policy.maxTimeGap.val)
    (hascending : ∀ l ∈ m.present, l.trace.Ascending) (hidentified : Identified m.present)
    {t : Trace} (h : t.isOutdated m.pool = true) :
    (∃ l ∈ m.dropOutdated.dropLeftOver.present, l.trace.hasReal = true) ∨
      ∃ l ∈ m.registry.modern.values, l.trace.isElapsedOnly = true := by
  obtain ⟨-, other, hother, -, hreal⟩ := Trace.isOutdated_iff.mp h
  obtain ⟨k, hk, rfl⟩ := List.mem_map.mp hother
  have hkept : k ∈ m.dropOutdated.present := by
    refine mem_present_sweep hk fun _ => ?_
    have hcurrent : k.trace.isElapsedOnly = false := by simp [Trace.isElapsedOnly, hreal]
    simp [Trace.isOutdated, hcurrent]
  have hsubset : m.dropOutdated.present ⊆ m.present := (sheds_dropOutdated m).thins.present_subset
  have hleft := exists_hasReal_dropLeftOver (m := m.dropOutdated) hpolicy
    (fun l hl => hascending l (hsubset hl)) hkept hreal
  refine hleft.imp id ?_
  rintro ⟨l, hl, helapsed⟩
  have hl' : l ∈ m.dropOutdated.present := (sheds_dropLeftOver _).thins.present_subset hl
  rcases List.mem_append.mp hl' with hsingle | hmodern
  · -- A single file that is elapsed alone has been dropped because of the real one.
    exfalso
    have hid : k.trace.id ≠ l.trace.id := by
      intro hid
      have heq := hidentified k hk l (hsubset hl') hid
      simp [Trace.isElapsedOnly, ← heq, hreal] at helapsed
    have houtdated : l.trace.isOutdated m.pool = true :=
      Trace.isOutdated_iff.mpr ⟨helapsed, k.trace, hother, hid, hreal⟩
    have hreason := reason_eq_none_of_mem_sweep hsingle
    simp [houtdated] at hreason
  · exact ⟨l, hmodern, helapsed⟩

/-! ## Where a report of old data comes from -/

/-- An override is no report of old data, so the steps that only override can be passed over. -/
theorem Overrides.mem_drops {m' : Merging} (h : m.Overrides m') {d : Drop} (hd : d ∈ m'.drops)
    {source : String} {gap : Option TimeRange} (hold : d.diagnostic = .oldData source gap) :
    d ∈ m.drops := by
  obtain ⟨new, hdrops, hnew⟩ := h
  rw [hdrops] at hd
  rcases List.mem_append.mp hd with hd | hd
  · exact hd
  · obtain ⟨source', dominant, hoverride⟩ := hnew d hd
    rw [hold] at hoverride
    cases hoverride

/-- What a sweep drops was dropped before or has a reason against it, and is reported with
that reason. -/
theorem mem_drops_sweep {reason? : LoadedTrace → Option DropReason} {d : Drop}
    (hd : d ∈ (m.sweep reason?).drops) : d ∈ m.drops ∨ reason? d.loaded = some d.reason := by
  rw [drops_sweep] at hd
  refine (List.mem_append.mp hd).imp id fun hd => ?_
  obtain ⟨l, -, hl⟩ := List.mem_filterMap.mp hd
  obtain ⟨reason, hreason, rfl⟩ := Option.map_eq_some_iff.mp hl
  exact hreason

/-- A merge reports old data when one of its two sweeps finds evidence. All its other
steps override. -/
theorem oldData_of_mem_drops (session : Option Session) {d : Drop} (hm : m.drops = [])
    (hd : d ∈ (m.run session).drops) {source : String} {gap : Option TimeRange}
    (hold : d.diagnostic = .oldData source gap) :
    let hidden := (m.replaceSession session).dropHidden
    (gap = none ∧ d.loaded.trace.isOutdated hidden.pool = true) ∨
      ∃ g, gap = some g ∧
        d.loaded.trace.oldDataGap? hidden.dropOutdated.registry.policy hidden.dropOutdated.pool =
          some g := by
  intro hidden
  have hswept : d ∈ hidden.dropOutdated.dropLeftOver.drops :=
    ((overrides_dropScreenshots _).trans (overrides_enterCandidates _)).mem_drops hd hold
  rcases mem_drops_sweep hswept with hswept | hreason
  · rcases mem_drops_sweep hswept with hbefore | hreason
    · have hnone : d ∈ m.drops :=
        ((overrides_replaceSession session m).trans (overrides_dropHidden _)).mem_drops hbefore hold
      rw [hm] at hnone
      cases hnone
    · left
      split at hreason
      · next houtdated =>
        rw [Drop.diagnostic, ← Option.some.inj hreason] at hold
        cases hold
        exact ⟨rfl, houtdated⟩
      · cases hreason
  · right
    obtain ⟨g, hg, hreason⟩ := Option.map_eq_some_iff.mp hreason
    rw [Drop.diagnostic, ← hreason] at hold
    cases hold
    exact ⟨g, rfl, hg⟩

/-- The sweeps of a merge leave a trace that backs its reports of old data, unless a trace of
the session is elapsed alone. The two kinds of reports, with a gap and without, have
different evidence. -/
theorem exists_backs_of_oldData (session : Option Session) {hidden : Merging}
    (hhidden : (m.replaceSession session).dropHidden = hidden)
    (hpolicy : 0 ≤ hidden.registry.policy.maxTimeGap.val)
    (hascending : ∀ l ∈ hidden.present, l.trace.Ascending)
    (hidentified : Identified hidden.present) (hm : m.drops = []) {d : Drop}
    (hd : d ∈ (m.run session).drops) {source : String} {gap : Option TimeRange}
    (hold : d.diagnostic = .oldData source gap) :
    (∃ k ∈ hidden.dropOutdated.dropLeftOver.present,
        k.trace.Backs hidden.registry.policy gap) ∨
      (gap = none ∧ ∃ k ∈ hidden.registry.modern.values, k.trace.isElapsedOnly = true) := by
  subst hhidden
  rcases oldData_of_mem_drops session hm hd hold with ⟨rfl, houtdated⟩ | ⟨g, rfl, hgap⟩
  · have hreal := exists_hasReal_of_isOutdated hpolicy hascending hidentified houtdated
    exact hreal.imp id fun hsession => ⟨rfl, hsession⟩
  · left
    obtain ⟨other, hother, hleft, hstop⟩ := Trace.exists_leftBehind_of_oldDataGap? hgap
    obtain ⟨k, hk, hleft'⟩ := exists_leftBehind_dropLeftOver
      (m := (m.replaceSession session).dropHidden.dropOutdated) hpolicy
      (fun l hl => hascending l ((sheds_dropOutdated _).thins.present_subset hl)) hother hleft
    exact ⟨k, hk, hleft'.backs hstop⟩

/-! ## What a merge has to do with -/

/-- The traces of the session in use are those of a new session, or else of the one before, so
nothing else is evidence. -/
theorem modern_replaceSession_subset (session : Option Session) (m : Merging) :
    (m.replaceSession session).registry.modern.values ⊆
      session.elim m.registry.modern.values Session.loaded := by
  cases session with
  | none => exact fun _ hk => hk
  | some s =>
    intro k hk
    obtain ⟨c, hc⟩ := CategoryMap.mem_values.mp hk
    rw [get?_modern_replaceSession] at hc
    exact (mem_ofCategory.mp (mem_of_richest hc)).1

/-- Before the sweeps, a merge has to do with candidates, single files in use and the session. What
holds of all of these holds of whatever the sweeps look at. -/
theorem present_dropHidden_subset (session : Option Session) (m : Merging) :
    (m.replaceSession session).dropHidden.present ⊆
      m.candidates ++ m.registry.legacy.values ++
        session.elim m.registry.modern.values Session.loaded := by
  obtain ⟨hcandidates, -, losers, -, hbalance⟩ := replaceSession_spec session m
  intro l hl
  have hl' := (sheds_dropHidden _).thins.present_subset hl
  rw [present, singles, hcandidates, List.append_assoc] at hl'
  rw [List.append_assoc]
  refine List.mem_append.mpr ((List.mem_append.mp hl').imp id fun hheld => ?_)
  rw [← Multiset.mem_coe, ← Multiset.coe_add, hbalance, Multiset.coe_add]
  exact Multiset.mem_add.mpr (Or.inl hheld)

end Merging

namespace Registry

/-- The traces that a call brings. Only merges bring any. -/
def Call.supplied : Call → List LoadedTrace
  | .merge candidates session => candidates ++ session.elim [] Session.loaded
  | .remove _ => []
  | .clear => []

/-- A merge has to do with what comes with it and what was in use. So a hypothesis on all supplied
traces covers it. -/
theorem incoming_subset (r : Registry) (candidates : List LoadedTrace)
    (session : Option Session) :
    candidates ++ r.legacy.values ++ session.elim r.modern.values Session.loaded ⊆
      (Call.merge candidates session).supplied ++ r.loaded := by
  intro l hl
  rw [Call.supplied, List.mem_append, List.mem_append, mem_loaded]
  rcases List.mem_append.mp hl with hl | hl
  · exact (List.mem_append.mp hl).imp Or.inl Or.inl
  · cases session with
    | none => exact Or.inr (Or.inr hl)
    | some s => exact Or.inl (Or.inr hl)

/-- Every trace in use came with a call. By induction on the calls, since none of them
makes a trace. -/
theorem loaded_run_subset (policy : MergePolicy) (calls : List Call) :
    ((withPolicy policy).run calls).loaded ⊆ calls.flatMap Call.supplied := by
  have hempty {r : Registry} (hlegacy : r.legacy = .empty) (hmodern : r.modern = .empty) :
      r.loaded ⊆ calls.flatMap Call.supplied := by
    intro l hl
    simp [mem_loaded, hlegacy, hmodern] at hl
  refine run_induction (P := fun r => r.loaded ⊆ calls.flatMap Call.supplied) (hempty rfl rfl) ?_
  intro call hcall r h
  cases call with
  | merge candidates session =>
    intro l hl
    rcases List.mem_append.mp (r.loaded_merge_subset candidates session hl) with hl | hl
    · exact List.mem_flatMap.mpr ⟨_, hcall, hl⟩
    · exact h hl
  | remove c =>
    have hless : (r.remove c).loaded ⊆ r.loaded :=
      loaded_subset_of_get?_le CategoryMap.get?_of_get?_erase CategoryMap.get?_of_get?_erase
    exact fun l hl => h (hless hl)
  | clear => exact hempty rfl rfl

/-- **Backing.** After any sequence of merges, removals and clearings and for every further merge,
each report of old data is backed: by a trace that is in use after the merge, or else by one that
the same merge overrides, or else it has no gap and a trace of the session has elapsed timestamps
alone. Traces are told apart by their identities, and their timestamps are ascending. -/
theorem run_oldData_backed (policy : MergePolicy) (hpolicy : 0 ≤ policy.maxTimeGap.val)
    (calls : List Call) (candidates : List LoadedTrace) (session : Option Session)
    (hascending : ∀ l ∈ (.merge candidates session :: calls).flatMap Call.supplied,
      l.trace.Ascending)
    (hidentified : Merging.Identified ((.merge candidates session :: calls).flatMap Call.supplied))
    {source : String} {gap : Option TimeRange}
    (hreport : .oldData source gap ∈
      (((withPolicy policy).run calls).merge candidates session).2.map Drop.diagnostic) :
    let r := (withPolicy policy).run calls
    let merged := r.merge candidates session
    (∃ k ∈ merged.1.loaded, k.trace.Backs policy gap) ∨
      (∃ d ∈ merged.2, d.IsOverride ∧ d.loaded.trace.Backs policy gap) ∨
      (gap = none ∧ ∃ k ∈ session.elim r.modern.values Session.loaded,
        k.trace.isElapsedOnly = true) := by
  intro r merged
  let m : Merging := { registry := r, candidates }
  let hidden := (m.replaceSession session).dropHidden
  have hmerged : merged.2 = (m.run session).drops := merge_snd r candidates session
  have hsupplied : hidden.present ⊆ (.merge candidates session :: calls).flatMap Call.supplied := by
    intro l hl
    have hincoming := r.incoming_subset candidates session (m.present_dropHidden_subset session hl)
    rw [List.flatMap_cons]
    exact List.mem_append.mpr
      ((List.mem_append.mp hincoming).imp id fun h => loaded_run_subset policy calls h)
  have hpolicy_eq : hidden.registry.policy = policy := by
    obtain ⟨-, hreplaced, -⟩ := Merging.replaceSession_spec session m
    exact hreplaced.trans (policy_run policy calls)
  have hbacked : (∃ k ∈ hidden.dropOutdated.dropLeftOver.present, k.trace.Backs policy gap) ∨
      (gap = none ∧ ∃ k ∈ hidden.registry.modern.values, k.trace.isElapsedOnly = true) := by
    obtain ⟨d, hd, hold⟩ := List.mem_map.mp hreport
    rw [merge_snd] at hd
    rw [← hpolicy_eq] at hpolicy ⊢
    exact Merging.exists_backs_of_oldData session rfl hpolicy
      (fun l hl => hascending l (hsupplied hl))
      (fun l hl k hk => hidentified l (hsupplied hl) k (hsupplied hk)) rfl hd hold
  rcases hbacked with ⟨k, hk, hbacks⟩ | ⟨hgap, k, hk, helapsed⟩
  · rcases Merging.mem_loaded_or_isOverride session m hk with hloaded | ⟨d, hd, hoverride, rfl⟩
    · refine Or.inl ⟨k, ?_, hbacks⟩
      rwa [merge_fst]
    · refine Or.inr (Or.inl ⟨d, ?_, hoverride, hbacks⟩)
      rwa [hmerged]
  · exact Or.inr (Or.inr ⟨hgap, k, Merging.modern_replaceSession_subset session m hk, helapsed⟩)

/-- Evidence may be left over itself: it stays with the trace that starts last. -/
theorem oldData_backed_by_latest :
    let files :=
      [singleFile .protoLog [.real (.clamp 0), .real (.clamp 4)],
        singleFile .surfaceFlinger [.real (.clamp 100), .real (.clamp 104)],
        singleFile .windowManager [.real (.clamp 300), .real (.clamp 304)]]
    let merged := ((withPolicy ⟨.clamp 95⟩).run []).merge files none
    let gap : TimeRange := ⟨.real (.clamp 4), .real (.clamp 100)⟩
    .oldData "ProtoLog" (some gap) ∈ merged.2.map Drop.diagnostic ∧
      (∀ l ∈ files, l.trace.Ascending) ∧ Merging.Identified files ∧
      ∃ k ∈ merged.1.loaded, k.trace.Backs ⟨.clamp 95⟩ (some gap) := by
  intro files merged gap
  have hreports : merged.2.map Drop.diagnostic =
      [.oldData "ProtoLog" (some gap),
        .oldData "SurfaceFlinger" (some ⟨.real (.clamp 104), .real (.clamp 300)⟩)] := by cbv
  have hreport : .oldData "ProtoLog" (some gap) ∈ merged.2.map Drop.diagnostic := by
    rw [hreports]
    exact List.mem_cons_self
  have hsupplied : [Call.merge files none].flatMap Call.supplied = files := rfl
  have hascending : ∀ l ∈ files, l.trace.Ascending := by decide
  have hidentified : Merging.Identified files := Merging.identified_of_nodup (by decide)
  refine ⟨hreport, hascending, hidentified, ?_⟩
  rcases run_oldData_backed ⟨.clamp 95⟩ (by decide) [] files none
    (by rwa [hsupplied]) (by rwa [hsupplied]) hreport with
    hbacked | ⟨d, hd, ⟨source, dominant, hoverride⟩, -⟩ | ⟨hgap, -⟩
  · exact hbacked
  · have hmem := List.mem_map_of_mem (f := Drop.diagnostic) hd
    rw [hoverride, hreports] at hmem
    simp at hmem
  · cases hgap

/-- Evidence of a trace that loses the place of its category in the same merge is in use nowhere. -/
theorem not_forall_oldData_backed :
    ¬∀ (policy : MergePolicy) (calls : List Call) (candidates : List LoadedTrace)
      (session : Option Session) (source : String) (gap : Option TimeRange),
      .oldData source gap ∈
        (((withPolicy policy).run calls).merge candidates session).2.map Drop.diagnostic →
      ∃ k ∈ (((withPolicy policy).run calls).merge candidates session).1.loaded,
        k.trace.Backs policy gap := by
  intro h
  let old := singleFile .protoLog [.real (.clamp 0), .real (.clamp 4)]
  let long := singleFile .windowManager [.real (.clamp 0), .real (.clamp 200)]
  let late : LoadedTrace :=
    { file := { name := "Late" }
      trace :=
        { id := ⟨.windowManager, 1⟩
          size := 2
          timestamps := [.real (.clamp 100), .real (.clamp 101)] } }
  let gap : TimeRange := ⟨.real (.clamp 4), .real (.clamp 100)⟩
  let merged := ((withPolicy ⟨.clamp 95⟩).run []).merge [old, long, late] none
  have hreports : merged.2.map Drop.diagnostic =
      [.oldData "ProtoLog" (some gap), .overridden late.trace.source none] := by cbv
  have hlegacy : merged.1.legacy.values = [long] := by cbv
  have hmodern : merged.1.modern.values = [] := by cbv
  have hreport : .oldData "ProtoLog" (some gap) ∈ merged.2.map Drop.diagnostic := by
    rw [hreports]
    exact List.mem_cons_self
  obtain ⟨k, hk, hbacks⟩ := h ⟨.clamp 95⟩ [] [old, long, late] none "ProtoLog" (some gap) hreport
  rcases mem_loaded.mp hk with hk | hk
  · rw [hlegacy] at hk
    rw [List.mem_singleton.mp hk] at hbacks
    -- The trace that is left starts before the end of the one that was dropped.
    obtain ⟨-, start, hstart, hlate⟩ := hbacks
    cases hstart
    exact absurd hlate (by decide)
  · rw [hmodern] at hk
    cases hk

end Registry

end FrameAlign
