import FrameAlign.Proofs.Registry.Places
import FrameAlign.Proofs.Registry.Settled

/-!
# The order of candidates

Candidates of one category compete with each other in the order in which they come. Apart from
that, a merge does not depend on the order of its candidates: whether one of them is dropped depends
on which traces there are, and no candidate competes with one of another category. Only the trace
that is named as the end of a gap is the first one found.
-/

namespace FrameAlign

/-! ## Reports up to the end of a gap -/

/-- The reason without the end of its gap, which depends on the order in which evidence is found. -/
def DropReason.withoutStop : DropReason → DropReason
  | .leftOver gap => .leftOver ⟨gap.start, gap.start⟩
  | reason => reason

/-- The drop without the end of its gap. -/
def Drop.withoutStop (d : Drop) : Drop := ⟨d.loaded, d.reason.withoutStop⟩

/-- The diagnostic without the end of its gap. Its start stays, as that is the end of the
dropped trace. -/
def Diagnostic.withoutStop : Diagnostic → Diagnostic
  | .oldData source (some gap) => .oldData source (some ⟨gap.start, gap.start⟩)
  | diagnostic => diagnostic

/-- A drop without the end of its gap is reported without it, so it makes no difference where the
end is taken off. -/
theorem Drop.diagnostic_withoutStop (d : Drop) :
    d.withoutStop.diagnostic = d.diagnostic.withoutStop := by
  obtain ⟨loaded, reason⟩ := d
  cases reason <;> rfl

/-- The same drops, each as often, but for the ends of their gaps. Their order follows that of the
candidates and is left open. -/
def Drop.Agree (drops drops' : List Drop) : Prop :=
  (drops.map Drop.withoutStop).Perm (drops'.map Drop.withoutStop)

/-- Drops agree with themselves. -/
theorem Drop.Agree.refl (drops : List Drop) : Drop.Agree drops drops := List.Perm.refl _

/-- Drops that agree go on to agree when drops that agree follow, as from step to step of
two merges. -/
theorem Drop.Agree.append {drops drops' new new' : List Drop} (h : Drop.Agree drops drops')
    (hnew : Drop.Agree new new') : Drop.Agree (drops ++ new) (drops' ++ new') := by
  rw [Drop.Agree, List.map_append, List.map_append]
  exact List.Perm.append h hnew

namespace Merging

/-- The same traces in another order, in which those of one category come as they came before.
Candidates of one category compete, so their order must stay. -/
structure Rearranged (loaded loaded' : List LoadedTrace) : Prop where
  /-- No trace is missing and none is added. -/
  perm : loaded.Perm loaded'
  /-- Within a category the order is the same. -/
  ofCategory_eq : ∀ c, ofCategory c loaded = ofCategory c loaded'

/-- What is kept of rearranged traces is rearranged, when the same ones are kept. -/
theorem Rearranged.filter {loaded loaded' : List LoadedTrace} (h : Rearranged loaded loaded')
    (p : LoadedTrace → Bool) : Rearranged (loaded.filter p) (loaded'.filter p) where
  perm := h.perm.filter p
  ofCategory_eq := by
    intro c
    have hc := congrArg (List.filter p) (h.ofCategory_eq c)
    simp only [ofCategory] at hc ⊢
    rw [List.filter_comm, hc, List.filter_comm]

/-- Two merges under way that differ in the order of the candidates alone, and have dropped the same
traces. Each step keeps this. -/
structure Rearranges (m m' : Merging) : Prop where
  /-- The registries are the same, in all places. -/
  registry_eq : m'.registry = m.registry
  /-- The candidates that are left are rearranged. -/
  candidates : Rearranged m.candidates m'.candidates
  /-- The drops agree. -/
  drops : Drop.Agree m.drops m'.drops

section Steps

variable {m m' : Merging}

/-- The single files are the same, in another order. -/
theorem Rearranges.singles_perm (h : Rearranges m m') : m.singles.Perm m'.singles := by
  rw [singles, singles, h.registry_eq]
  exact h.candidates.perm.append_right _

/-- The pool holds the same traces, so the same traces find evidence against them. -/
theorem Rearranges.mem_pool_iff (h : Rearranges m m') (t : Trace) : t ∈ m'.pool ↔ t ∈ m.pool := by
  rw [pool_eq, pool_eq, h.registry_eq]
  exact ((h.singles_perm.append_right _).map _).mem_iff.symm

section Sweep

variable {reason? reason'? : LoadedTrace → Option DropReason}
  (hreason : ∀ l, (reason'? l).map DropReason.withoutStop = (reason? l).map DropReason.withoutStop)

include hreason

/-- The same traces have a reason against them. The reasons may differ in the ends of gaps. -/
theorem isNone_reason_eq : (fun l => (reason'? l).isNone) = fun l => (reason? l).isNone := by
  funext l
  have h := congrArg Option.isNone (hreason l)
  rwa [Option.isNone_map, Option.isNone_map] at h

/-- The same traces are dropped for the same reasons, but for the ends of gaps. -/
theorem agree_swept {loaded loaded' : List LoadedTrace} (h : loaded.Perm loaded') :
    Drop.Agree (swept reason? loaded) (swept reason'? loaded') := by
  have hswept (reason? : LoadedTrace → Option DropReason) (loaded : List LoadedTrace) :
      (swept reason? loaded).map Drop.withoutStop =
        loaded.filterMap fun l => ((reason? l).map DropReason.withoutStop).map (⟨l, ·⟩) := by
    rw [swept, List.map_filterMap]
    simp only [Option.map_map]
    rfl
  rw [Drop.Agree, hswept, hswept]
  simp only [hreason]
  exact h.filterMap _

/-- Sifting keeps merges rearranged, for reasons that agree but for the ends of gaps. -/
theorem Rearranges.sift (h : Rearranges m m') : Rearranges (m.sift reason?) (m'.sift reason'?) where
  registry_eq := h.registry_eq
  candidates := by
    simp only [Merging.sift, isNone_reason_eq hreason]
    exact h.candidates.filter _
  drops := h.drops.append (agree_swept hreason h.candidates.perm)

/-- Sweeping keeps merges rearranged, for reasons of the same kind. The files in use are the same
ones in both. -/
theorem Rearranges.sweep (h : Rearranges m m') :
    Rearranges (m.sweep reason?) (m'.sweep reason'?) where
  registry_eq := by
    refine Registry.eq_of_get?_eq (congrArg (·.policy) h.registry_eq) (fun c => ?_) fun c => ?_
    · rw [get?_legacy_sweep, get?_legacy_sweep, isNone_reason_eq hreason, h.registry_eq]
    · exact congrArg (·.modern.get? c) h.registry_eq
  candidates := (h.sift hreason).candidates
  drops := by
    rw [drops_sweep, drops_sweep]
    exact h.drops.append (agree_swept hreason h.singles_perm)

end Sweep

/-- A trace of a session takes the same place. It does not look at the candidates. -/
theorem Rearranges.enterSession (h : Rearranges m m') (l : LoadedTrace) :
    Rearranges (m.enterSession l) (m'.enterSession l) where
  registry_eq := by simp only [Merging.enterSession, h.registry_eq]
  candidates := h.candidates
  drops := by
    simp only [Merging.enterSession, h.registry_eq]
    exact (h.drops.append (.refl _)).append (.refl _)

/-- A new session takes the same places, trace by trace. -/
theorem Rearranges.replaceSession (h : Rearranges m m') (session : Option Session) :
    Rearranges (m.replaceSession session) (m'.replaceSession session) := by
  cases session with
  | none => exact h
  | some s =>
    have hfold (loaded : List LoadedTrace) {m m' : Merging} (h : Rearranges m m') :
        Rearranges (loaded.foldl Merging.enterSession m)
          (loaded.foldl Merging.enterSession m') := by
      induction loaded generalizing m m' with
      | nil => exact h
      | cons l loaded ih => exact ih (h.enterSession l)
    exact hfold s.loaded ⟨by rw [h.registry_eq], h.candidates, h.drops⟩

/-- The same candidates are hidden, since the session is the same. -/
theorem Rearranges.dropHidden (h : Rearranges m m') : Rearranges m.dropHidden m'.dropHidden := by
  apply h.sift
  intro l
  rw [h.registry_eq]

/-- The same files are outdated, as the pool holds the same traces. -/
theorem Rearranges.dropOutdated (h : Rearranges m m') :
    Rearranges m.dropOutdated m'.dropOutdated := by
  apply h.sweep
  intro l
  rw [Trace.isOutdated_congr h.mem_pool_iff]

/-- The same files are left over. Which trace shows it first depends on the order, and with it the
end of the gap. -/
theorem Rearranges.dropLeftOver (h : Rearranges m m') :
    Rearranges m.dropLeftOver m'.dropLeftOver := by
  apply h.sweep
  intro l
  have hstart := Trace.map_start_oldDataGap?_congr h.mem_pool_iff m.registry.policy l.trace
  have hstop := congrArg (Option.map fun start => DropReason.leftOver ⟨start, start⟩) hstart
  rw [Option.map_map, Option.map_map] at hstop
  rw [h.registry_eq, Option.map_map, Option.map_map]
  exact hstop

/-- The same screenshots are redundant. -/
theorem Rearranges.dropScreenshots (h : Rearranges m m') :
    Rearranges m.dropScreenshots m'.dropScreenshots := by
  have hrecorded : m'.isRecorded = m.isRecorded := by
    rw [isRecorded, isRecorded, h.registry_eq, h.candidates.perm.any_eq]
  cases hm : m.isRecorded with
  | false => rwa [dropScreenshots_eq_self hm, dropScreenshots_eq_self (hrecorded.trans hm)]
  | true =>
    let reason? (l : LoadedTrace) : Option DropReason :=
      if l.category = .screenshot then some (.redundant .screenRecording) else none
    have hsift : Rearranges (m.sift reason?) (m'.sift reason?) := h.sift fun _ => rfl
    simp only [Merging.dropScreenshots, hm, hrecorded.trans hm, if_true, h.registry_eq]
    exact ⟨rfl, hsift.candidates, hsift.drops.append (.refl _)⟩

/-- The same candidates enter, and the same traces give way to them. Within a category they come in
the same order, so the same one wins. -/
theorem Rearranges.enterCandidates (h : Rearranges m m') :
    Rearranges m.enterCandidates m'.enterCandidates := by
  obtain ⟨hnone, hpolicy, hmodern, losers, hdrops, hbalance⟩ := enterCandidates_spec m
  obtain ⟨hnone', hpolicy', hmodern', losers', hdrops', hbalance'⟩ := enterCandidates_spec m'
  have hregistry : m'.enterCandidates.registry = m.enterCandidates.registry := by
    refine Registry.eq_of_get?_eq ?_ (fun c => ?_) fun c => ?_
    · rw [hpolicy', hpolicy, h.registry_eq]
    · rw [get?_enterCandidates, get?_enterCandidates, h.registry_eq, h.candidates.ofCategory_eq]
    · rw [hmodern', hmodern, h.registry_eq]
  -- The same single files are left, so the same have been replaced.
  have hlosers : losers.Perm losers' := by
    have hsingles : (m.singles : Multiset LoadedTrace) = m'.singles :=
      Multiset.coe_eq_coe.mpr h.singles_perm
    rw [hbalance, hbalance', hregistry] at hsingles
    exact Multiset.coe_eq_coe.mp (add_left_cancel hsingles)
  constructor
  · exact hregistry
  · rw [hnone, hnone']
    exact ⟨.refl _, fun _ => rfl⟩
  · rw [hdrops, hdrops']
    exact h.drops.append ((hlosers.map _).map _)

/-- All steps of a merge keep merges rearranged, one after the other. -/
theorem Rearranges.run (h : Rearranges m m') (session : Option Session) :
    Rearranges (m.run session) (m'.run session) :=
  (h.replaceSession session).dropHidden.dropOutdated.dropLeftOver.dropScreenshots.enterCandidates

end Steps

end Merging

namespace Registry

/-- **The order of candidates.** A merge of candidates that come in another order, those of one
category as before, leaves the same traces in use for each category, of single files and of the
session, and reports the same drops, each as often, but for the ends of the gaps. -/
theorem merge_eq_of_rearranged (r : Registry) {candidates candidates' : List LoadedTrace}
    (h : Merging.Rearranged candidates candidates') (session : Option Session) :
    (r.merge candidates' session).1 = (r.merge candidates session).1 ∧
      ((r.merge candidates session).2.map (·.diagnostic.withoutStop)).Perm
        ((r.merge candidates' session).2.map (·.diagnostic.withoutStop)) := by
  have hstart : Merging.Rearranges { registry := r, candidates }
      { registry := r, candidates := candidates' } := ⟨rfl, h, .refl _⟩
  have hrun := hstart.run session
  have hreports (drops : List Drop) : drops.map (·.diagnostic.withoutStop) =
      (drops.map Drop.withoutStop).map Drop.diagnostic := by
    rw [List.map_map]
    exact List.map_congr_left fun d _ => d.diagnostic_withoutStop.symm
  rw [merge_fst, merge_fst, merge_snd, merge_snd, hreports, hreports]
  exact ⟨hrun.registry_eq, hrun.drops.map _⟩

/-- Of the files that start long after the end of an old one, the first is named. Two files of one
category still compete in their order. -/
theorem merge_eq_latest_first :
    let old := singleFile .protoLog [.real (.clamp 0), .real (.clamp 4)]
    let first := singleFile .surfaceFlinger [.real (.clamp 100), .real (.clamp 104)]
    let second := singleFile .surfaceFlinger [.real (.clamp 101), .real (.clamp 105)]
    let late := singleFile .windowManager [.real (.clamp 102), .real (.clamp 106)]
    let r := withPolicy ⟨.clamp 95⟩
    (r.merge [late, old, first, second] none).1 = (r.merge [old, first, second, late] none).1 ∧
      (r.merge [old, first, second, late] none).2.map Drop.diagnostic =
        [.oldData "ProtoLog" (some ⟨.real (.clamp 4), .real (.clamp 100)⟩),
          .overridden "" none] ∧
      (r.merge [late, old, first, second] none).2.map Drop.diagnostic =
        [.oldData "ProtoLog" (some ⟨.real (.clamp 4), .real (.clamp 102)⟩),
          .overridden "" none] := by
  intro old first second late r
  have hrearranged : Merging.Rearranged [old, first, second, late] [late, old, first, second] := by
    constructor
    · exact List.perm_append_singleton late [old, first, second]
    · intro c
      cases c <;> rfl
  exact ⟨(r.merge_eq_of_rearranged hrearranged none).1, by cbv, by cbv⟩

end Registry

end FrameAlign
