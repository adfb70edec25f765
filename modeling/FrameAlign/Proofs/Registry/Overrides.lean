import FrameAlign.Proofs.Registry.Evidence

/-!
# Overridden traces

A merge drops a trace because of its age or because another trace is preferred to it. Age is a
matter of the two sweeps alone. Whatever they leave is in use after the merge or overridden.
-/

namespace FrameAlign

/-- The drop of a trace to which another one is preferred. The other kind of drop is for age. -/
def Drop.IsOverride (d : Drop) : Prop :=
  ∃ source dominant, d.diagnostic = .overridden source dominant

/-- A trace whose place another one takes is overridden. -/
theorem Drop.isOverride_replaced (l : LoadedTrace) : (⟨l, .replaced⟩ : Drop).IsOverride :=
  ⟨_, none, rfl⟩

/-- A redundant trace is overridden, by a trace of another category that the report names. -/
theorem Drop.isOverride_redundant (l : LoadedTrace) (dominant : Category) :
    (⟨l, .redundant dominant⟩ : Drop).IsOverride := ⟨_, some dominant, rfl⟩

namespace Merging

/-! ## Steps that override -/

/-- From `m` to `m'` all traces that are dropped are overridden. The drops from before
stay in front. -/
def Overrides (m m' : Merging) : Prop :=
  ∃ new : List Drop, m'.drops = m.drops ++ new ∧ ∀ d ∈ new, d.IsOverride

/-- Where nothing is dropped, nothing is dropped for age. -/
theorem Overrides.refl (m : Merging) : m.Overrides m := ⟨[], by simp, by simp⟩

/-- Steps that only override may follow each other. -/
theorem Overrides.trans {m m' m'' : Merging} (h : m.Overrides m') (h' : m'.Overrides m'') :
    m.Overrides m'' := by
  obtain ⟨new, hdrops, hnew⟩ := h
  obtain ⟨new', hdrops', hnew'⟩ := h'
  refine ⟨new ++ new', by rw [hdrops', hdrops, List.append_assoc], ?_⟩
  intro d hd
  rcases List.mem_append.mp hd with hd | hd
  · exact hnew d hd
  · exact hnew' d hd

/-- From `m` to `m'` all traces that are dropped are replaced. The two steps that hand out places
drop in no other way. -/
theorem overrides_of_replaced {m m' : Merging} {losers : List LoadedTrace}
    (h : m'.drops = m.drops ++ losers.map (⟨·, .replaced⟩)) : m.Overrides m' := by
  refine ⟨_, h, ?_⟩
  intro d hd
  obtain ⟨l, -, rfl⟩ := List.mem_map.mp hd
  exact Drop.isOverride_replaced l

/-- A session overrides single files, and its traces override each other. -/
theorem overrides_replaceSession (session : Option Session) (m : Merging) :
    m.Overrides (m.replaceSession session) := by
  obtain ⟨-, -, losers, hdrops, -⟩ := replaceSession_spec session m
  exact overrides_of_replaced hdrops

/-- The candidates that enter override traces and each other: there is one place for
each category. -/
theorem overrides_enterCandidates (m : Merging) : m.Overrides m.enterCandidates := by
  obtain ⟨-, -, -, losers, hdrops, -⟩ := enterCandidates_spec m
  exact overrides_of_replaced hdrops

/-- Candidates are sifted for an override if that is every reason against them. -/
theorem overrides_sift {reason? : LoadedTrace → Option DropReason} {m : Merging}
    (h : ∀ l reason, reason? l = some reason → (⟨l, reason⟩ : Drop).IsOverride) :
    m.Overrides (m.sift reason?) := by
  refine ⟨swept reason? m.candidates, rfl, ?_⟩
  intro d hd
  obtain ⟨l, -, hl⟩ := List.mem_filterMap.mp hd
  obtain ⟨reason, hreason, rfl⟩ := Option.map_eq_some_iff.mp hl
  exact h l reason hreason

/-- The session overrides the candidates of its categories, whatever their age is. -/
theorem overrides_dropHidden (m : Merging) : m.Overrides m.dropHidden := by
  apply overrides_sift
  intro l reason hreason
  split at hreason
  · cases hreason
    exact Drop.isOverride_replaced l
  · cases hreason

/-- A screen recording overrides all screenshots, wherever they are. -/
theorem overrides_dropScreenshots (m : Merging) : m.Overrides m.dropScreenshots := by
  cases hrecorded : m.isRecorded with
  | false =>
    rw [dropScreenshots_eq_self hrecorded]
    exact Overrides.refl m
  | true =>
    let reason? (l : LoadedTrace) : Option DropReason :=
      if l.category = .screenshot then some (.redundant .screenRecording) else none
    have hsift : m.Overrides (m.sift reason?) := by
      apply overrides_sift
      intro l reason hreason
      simp only [reason?] at hreason
      split at hreason
      · cases hreason
        exact Drop.isOverride_redundant l .screenRecording
      · cases hreason
    refine hsift.trans ?_
    simp only [dropScreenshots, hrecorded, if_true]
    refine ⟨_, rfl, ?_⟩
    intro d hd
    obtain ⟨l, -, rfl⟩ := List.mem_map.mp hd
    exact Drop.isOverride_redundant l .screenRecording

/-! ## What is left by the sweeps -/

/-- All the traces of a merge: single files, candidates first, and the session. Their files come
along, which the pool of evidence leaves out. -/
def present (m : Merging) : List LoadedTrace := m.singles ++ m.registry.modern.values

/-- A merge that has fewer traces than another has no others. -/
theorem Thins.present_subset {m m' : Merging} (h : m.Thins m') : m'.present ⊆ m.present := by
  intro l hl
  rcases List.mem_append.mp hl with hl | hl
  · exact List.mem_append_left _ (h.singles_subset hl)
  · exact List.mem_append_right _ (h.modern_subset hl)

/-- A trace of a merge stays in it or is overridden when all drops are overrides. The hypothesis is
the balance of the step, by which no trace can leave without a drop. -/
theorem Overrides.mem_or_isOverride {m m' : Merging} (h : m.Overrides m')
    (hbalance : ∃ new : List Drop, m'.drops = m.drops ++ new ∧
      (m.present : Multiset LoadedTrace) = m'.present + (new.map (·.loaded) : List LoadedTrace))
    {l : LoadedTrace} (hl : l ∈ m.present) :
    l ∈ m'.present ∨ ∃ d ∈ m'.drops, d.IsOverride ∧ d.loaded = l := by
  obtain ⟨new, hdrops, hnew⟩ := h
  obtain ⟨new', hdrops', hpresent⟩ := hbalance
  have heq : new = new' := List.append_cancel_left (hdrops.symm.trans hdrops')
  subst heq
  rw [← Multiset.mem_coe, hpresent, Multiset.mem_add, Multiset.mem_coe, Multiset.mem_coe] at hl
  refine hl.imp id fun hl => ?_
  obtain ⟨d, hd, rfl⟩ := List.mem_map.mp hl
  exact ⟨d, by rw [hdrops]; exact List.mem_append_right _ hd, hnew d hd, rfl⟩

/-- What the sweeps leave is in use after the merge or overridden. So evidence that was left is lost
in one way only. -/
theorem mem_loaded_or_isOverride (session : Option Session) (m : Merging) {l : LoadedTrace}
    (hl : l ∈ (m.replaceSession session).dropHidden.dropOutdated.dropLeftOver.present) :
    l ∈ (m.run session).registry.loaded ∨
      ∃ d ∈ (m.run session).drops, d.IsOverride ∧ d.loaded = l := by
  set kept := (m.replaceSession session).dropHidden.dropOutdated.dropLeftOver
  have hrun : m.run session = kept.dropScreenshots.enterCandidates := rfl
  have hbalance : ∃ new : List Drop, (m.run session).drops = kept.drops ++ new ∧
      (kept.present : Multiset LoadedTrace) =
        (m.run session).present + (new.map (·.loaded) : List LoadedTrace) := by
    obtain ⟨new, hdrops, hshed⟩ := (sheds_dropScreenshots kept).balance
    obtain ⟨hcandidates, -, hmodern, losers, hdrops', hentered⟩ :=
      enterCandidates_spec kept.dropScreenshots
    refine ⟨new ++ losers.map (⟨·, .replaced⟩), by
      rw [hrun, hdrops', hdrops, List.append_assoc], ?_⟩
    simp only [present, singles, hrun, hcandidates, hmodern, List.nil_append, List.map_append,
      map_loaded_map_drop, ← Multiset.coe_add] at hshed hentered ⊢
    rw [hshed, hentered]
    abel
  have hoverrides : kept.Overrides (m.run session) :=
    (overrides_dropScreenshots kept).trans (overrides_enterCandidates _)
  refine (hoverrides.mem_or_isOverride hbalance hl).imp (fun hmem => ?_) id
  have hcandidates : (m.run session).candidates = [] := (enterCandidates_spec _).1
  rw [present, singles, hcandidates, List.nil_append] at hmem
  exact Registry.mem_loaded.mpr (List.mem_append.mp hmem)

end Merging

end FrameAlign
