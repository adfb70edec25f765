import FrameAlign.Proofs.Registry.Consistency
import FrameAlign.Proofs.Registry.Evidence
import Mathlib

/-!
# Settled registries

A merge settles what is known about the age of the single files: afterwards no trace in use is
evidence against a single file in use. Removals keep a registry settled, since evidence against a
trace never comes from a trace that is missing.
-/

namespace FrameAlign.Registry

/-- No trace in use is evidence against a single file in use. It is about pairs of traces, so it
stays when traces leave. -/
structure Settled (r : Registry) : Prop where
  /-- Next to real timestamps no single file has elapsed ones alone. -/
  not_outdated : ∀ l ∈ r.legacy.values, ∀ k ∈ r.loaded, k.trace.hasReal = true →
    l.trace.isElapsedOnly = false
  /-- No other trace shows a single file to be left over. -/
  not_leftBehind : ∀ l ∈ r.legacy.values, ∀ k ∈ r.loaded, l ≠ k →
    ¬l.trace.LeftBehind r.policy k.trace

/-- Different traces in use have different identities, since they are of different categories. So no
trace is spared as evidence by mistake. -/
theorem Consistent.id_ne {r : Registry} {file : TraceFile} (h : r.Consistent file)
    {l k : LoadedTrace} (hl : l ∈ r.loaded) (hk : k ∈ r.loaded) (hne : l ≠ k) :
    k.trace.id ≠ l.trace.id := by
  intro hid
  have hcategory : l.category = k.category := congrArg (·.category) hid.symm
  exact hne (h.eq_of_category_eq hl hk hcategory)

/-- A registry without traces is settled, and so is any without single files. -/
theorem settled_of_legacy_empty {r : Registry} (h : r.legacy = CategoryMap.empty) :
    r.Settled := by
  constructor
  · intro l hl
    simp [h] at hl
  · intro l hl
    simp [h] at hl

/-- A registry with fewer traces stays settled: a pair of traces that is left was there before. -/
theorem Settled.of_get?_le {r r' : Registry} (h : r.Settled) (hpolicy : r'.policy = r.policy)
    (hlegacy : ∀ {c l}, r'.legacy.get? c = some l → r.legacy.get? c = some l)
    (hmodern : ∀ {c l}, r'.modern.get? c = some l → r.modern.get? c = some l) : r'.Settled := by
  have hsingles : r'.legacy.values ⊆ r.legacy.values :=
    CategoryMap.values_subset_of_get?_le hlegacy
  have hloaded : r'.loaded ⊆ r.loaded := loaded_subset_of_get?_le hlegacy hmodern
  constructor
  · intro l hl k hk
    exact h.not_outdated l (hsingles hl) k (hloaded hk)
  · intro l hl k hk
    rw [hpolicy]
    exact h.not_leftBehind l (hsingles hl) k (hloaded hk)

/-- A merge of a consistent registry settles it, whatever was in use before. The traces in use were
all in the pools of its sweeps. -/
theorem Consistent.settled_merge {r : Registry} {file : TraceFile} (h : r.Consistent file)
    (candidates : List LoadedTrace) (session : Option Session) :
    (r.merge candidates session).1.Settled := by
  have hmerged := h.merge candidates session
  rw [merge_fst] at hmerged ⊢
  constructor
  · intro l hl k hk hreal
    by_cases hne : l = k
    · subst hne
      simp [Trace.isElapsedOnly, hreal]
    · have hid := hmerged.id_ne (mem_loaded.mpr (Or.inl hl)) hk hne
      exact Merging.isElapsedOnly_eq_false_of_run hl hk hid hreal
  · intro l hl k hk hne
    have hid := hmerged.id_ne (mem_loaded.mpr (Or.inl hl)) hk hne
    exact Merging.not_leftBehind_of_run hl hk hid

/-- A call keeps the policy, so all merges of a history go by the same rules. -/
theorem policy_answer (r : Registry) (call : Call) : (r.answer call).policy = r.policy := by
  cases call with
  | merge candidates session =>
    rw [answer, merge_fst]
    exact Merging.run_policy session _
  | remove c => rfl
  | clear => rfl

/-- After every history a registry has the policy that it was made with. -/
theorem policy_run (policy : MergePolicy) (calls : List Call) :
    ((withPolicy policy).run calls).policy = policy := by
  refine run_induction (P := fun r => r.policy = policy) rfl ?_
  intro call _ r h
  rw [policy_answer, h]

/-- After every history a registry is settled. -/
theorem settled_run (policy : MergePolicy) (calls : List Call) :
    ((withPolicy policy).run calls).Settled := by
  refine run_induction_of_consistent (settled_of_legacy_empty rfl) ?_
  intro call _ r file hconsistent hsettled
  cases call with
  | merge candidates session => exact hconsistent.settled_merge candidates session
  | remove c =>
    exact hsettled.of_get?_le rfl CategoryMap.get?_of_get?_erase CategoryMap.get?_of_get?_erase
  | clear => exact settled_of_legacy_empty rfl

/-- A single file that holds one trace with the given timestamps. Concrete inputs are
written with it. -/
def singleFile (c : Category) (timestamps : List Timestamp) : LoadedTrace where
  file := { name := c.tag }
  trace := { id := ⟨c, 0⟩, size := timestamps.length, timestamps }

/-- **No left-over traces.** After any sequence of merges, removals and clearings no trace in use
starts longer than the policy allows after the end of a single file in use. Traces without a span
are not compared, and neither are the ends of window manager transitions. -/
theorem run_gap_le_maxTimeGap (policy : MergePolicy) (calls : List Call) {l k : LoadedTrace}
    (hl : l ∈ ((withPolicy policy).run calls).legacy.values)
    (hk : k ∈ ((withPolicy policy).run calls).loaded) (hne : l ≠ k)
    (haged : l.category ≠ .wmTransition) (hltimes : 2 ≤ l.trace.timestamps.length)
    (hktimes : 2 ≤ k.trace.timestamps.length) {stop start : Timestamp}
    (hstop : l.trace.last? = some stop) (hstart : k.trace.first? = some start) :
    start.value.satSub stop.value ≤ policy.maxTimeGap := by
  rw [← Nanos.not_lt]
  intro hgap
  refine (settled_run policy calls).not_leftBehind l hl k hk hne ?_
  exact {
    aged := decide_eq_false haged
    timeline := Trace.isTimeline_iff.mpr hltimes
    other_timeline := Trace.isTimeline_iff.mpr hktimes
    gap := ⟨stop, start, hstop, hstart, by rwa [policy_run]⟩ }

/-- A single file stays next to a session that starts as long after its end as is allowed. -/
theorem gap_eq_maxTimeGap_session :
    let early := singleFile .surfaceFlinger [.real (.clamp 0), .real (.clamp 4)]
    let late := singleFile .protoLog [.real (.clamp 99), .real (.clamp 104)]
    let calls := [.merge [early] none, .merge [] (some ⟨late.file, [late.trace]⟩)]
    early ∈ ((withPolicy ⟨.clamp 95⟩).run calls).legacy.values ∧
      late ∈ ((withPolicy ⟨.clamp 95⟩).run calls).loaded ∧
      (Nanos.clamp 99).satSub (.clamp 4) ≤ Nanos.clamp 95 := by
  intro early late calls
  have hlegacy : ((withPolicy ⟨.clamp 95⟩).run calls).legacy.get? .surfaceFlinger = some early := by
    cbv
  have hmodern : ((withPolicy ⟨.clamp 95⟩).run calls).modern.get? .protoLog = some late := by cbv
  have hearly := CategoryMap.mem_values.mpr ⟨_, hlegacy⟩
  have hlate := mem_loaded.mpr (Or.inr (CategoryMap.mem_values.mpr ⟨_, hmodern⟩))
  have hne : early ≠ late := ne_of_apply_ne LoadedTrace.category (by decide)
  have hstop : early.trace.last? = some (.real (.clamp 4)) := rfl
  have hstart : late.trace.first? = some (.real (.clamp 99)) := rfl
  have hgap := run_gap_le_maxTimeGap _ calls hearly hlate hne (by decide) (by decide) (by decide)
    hstop hstart
  exact ⟨hearly, hlate, hgap⟩

/-- **No outdated traces.** After any sequence of merges, removals and clearings, real timestamps
of one trace in use exclude single files with elapsed timestamps alone. -/
theorem run_isElapsedOnly_eq_false (policy : MergePolicy) (calls : List Call) {l k : LoadedTrace}
    (hk : k ∈ ((withPolicy policy).run calls).loaded) (hreal : k.trace.hasReal = true)
    (hl : l ∈ ((withPolicy policy).run calls).legacy.values) : l.trace.isElapsedOnly = false :=
  (settled_run policy calls).not_outdated l hl k hk hreal

/-- A real trace that comes later drops the elapsed one and leaves the one that has both clocks. -/
theorem isElapsedOnly_eq_false_both_clocks :
    let elapsed := singleFile .windowManager [.elapsed (.clamp 1), .elapsed (.clamp 2)]
    let both := singleFile .protoLog [.elapsed (.clamp 1), .real (.clamp 7)]
    let real := singleFile .surfaceFlinger [.real (.clamp 5), .real (.clamp 6)]
    let calls := [.merge [elapsed] none, .merge [real, both] none]
    real ∈ ((withPolicy {}).run calls).loaded ∧
      both ∈ ((withPolicy {}).run calls).legacy.values ∧ both.trace.isElapsedOnly = false := by
  intro elapsed both real calls
  have hlegacy : ((withPolicy {}).run calls).legacy.get? .surfaceFlinger = some real := by cbv
  have hlegacy' : ((withPolicy {}).run calls).legacy.get? .protoLog = some both := by cbv
  have hreal := mem_loaded.mpr (Or.inl (CategoryMap.mem_values.mpr ⟨_, hlegacy⟩))
  have hboth := CategoryMap.mem_values.mpr ⟨_, hlegacy'⟩
  exact ⟨hreal, hboth, run_isElapsedOnly_eq_false _ calls hreal (by decide) hboth⟩

end FrameAlign.Registry
