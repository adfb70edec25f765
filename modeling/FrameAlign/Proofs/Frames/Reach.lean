import FrameAlign.Proofs.Frames.Bounds
import Mathlib

/-!
# The reach of the relations

Every relation is followed once, in the order of the list. It finds the frames of its source only if
they are there by then, and a target that has frames keeps them. If no relation has a source that a
later one leads to, nothing is missed: the framed categories are the least set with the root that
has with the source of a relation also its target, wherever the relation can be followed at all.
-/

namespace FrameAlign

/-- Every entry of the trace has a key. A trace whose keys are fewer or more than its entries counts
as one without. -/
def Trace.IsKeyed (t : Trace) : Prop := ∃ keys, t.vsyncIds = some keys ∧ keys.length = t.size

/-- Keys are used for linking exactly when every entry has one. -/
theorem Trace.isKeyed_iff {t : Trace} :
    t.IsKeyed ↔ ∃ keys, t.completeVsyncIds? = some keys := by
  simp [IsKeyed, completeVsyncIds?, Option.filter_eq_some_iff]

namespace Relation

/-- A link by keys can be evaluated if both traces have them, and any other link in any case. The
frames of the source play no part in it. -/
theorem exists_propagate_iff {r : Relation} {target source : Trace} {frames : FrameMap} :
    (∃ map, r.propagate target source frames = some map) ↔
      (r.link = .matchingVsync → target.IsKeyed ∧ source.IsKeyed) := by
  rw [propagate, Trace.isKeyed_iff, Trace.isKeyed_iff]
  cases r.link with
  | matchingVsync =>
    cases target.completeVsyncIds? <;> cases source.completeVsyncIds? <;> simp
  | latestBefore => simp
  | followingInterval => simp
  | precedingInterval => simp
  | nearest => simp

/-- No relation has a source that a later one leads to. So the frames of a source are settled before
the first relation that needs them. -/
def InFlowOrder (relations : List Relation) : Prop :=
  relations.Pairwise fun r later => r.source ≠ later.target

/-- A list of relations can be checked for it. -/
instance (relations : List Relation) : Decidable (InFlowOrder relations) :=
  inferInstanceAs (Decidable (relations.Pairwise fun r later => r.source ≠ later.target))

/-- The relations that are followed by default are in flow order, so one pass over them
is enough. -/
theorem inFlowOrder_defaults : InFlowOrder defaults := by
  decide

end Relation

namespace Traces

variable {traces : Traces} {relations : List Relation} {maps : CategoryMap FrameMap}

/-- The target of the relation has a trace, and both sides have keys if the link asks for them. It
is said of the traces alone, without frames, so it cannot change during the pass. -/
def CanFollow (traces : Traces) (r : Relation) : Prop :=
  ∃ target, traces.get? r.target = some target ∧
    (r.link = .matchingVsync →
      target.IsKeyed ∧ ∃ source, traces.get? r.source = some source ∧ source.IsKeyed)

/-- A category can be reached from the root along relations that can be followed. It is the least
set with these two properties, and knows no order of the relations. -/
inductive Reaches (traces : Traces) (relations : List Relation) : Category → Prop
  /-- The numbering starts at the root. -/
  | root {t : Trace} (hroot : traces.root? = some t) : Reaches traces relations t.category
  /-- A relation leads on from its source. -/
  | target {r : Relation} (hr : r ∈ relations) (hsource : Reaches traces relations r.source)
      (hfollow : traces.CanFollow r) : Reaches traces relations r.target

/-- A relation that hands frames on can be followed: the other direction of
`CanFollow.exists_flow`. -/
theorem Flow.canFollow {r : Relation} {frames map : FrameMap} (h : traces.Flow r frames map) :
    traces.CanFollow r := by
  obtain ⟨htarget, hsource, hmap⟩ := h
  refine ⟨_, htarget, fun hlink => ?_⟩
  have hkeyed := Relation.exists_propagate_iff.mp ⟨_, hmap⟩ hlink
  exact ⟨hkeyed.1, _, hsource, hkeyed.2⟩

/-- A relation that can be followed hands on whatever frames its source has, also when none of the
entries has any. -/
theorem CanFollow.exists_flow {r : Relation} (h : traces.CanFollow r) {source : Trace}
    (hsource : traces.get? r.source = some source) (frames : FrameMap) :
    ∃ map, traces.Flow r frames map := by
  obtain ⟨target, htarget, hkeys⟩ := h
  have hkeyed : r.link = .matchingVsync → target.IsKeyed ∧ source.IsKeyed := by
    intro hlink
    obtain ⟨hkeyed, source', hsource', hkeyed'⟩ := hkeys hlink
    cases hsource.symm.trans hsource'
    exact ⟨hkeyed, hkeyed'⟩
  obtain ⟨map, hmap⟩ := Relation.exists_propagate_iff.mpr hkeyed
  exact ⟨_, .intro htarget hsource hmap⟩

/-! ## One relation -/

/-- A relation frames no category but its target, so whatever else is framed was framed before. -/
theorem contains_of_contains_follow {r : Relation} {c : Category} (hne : r.target ≠ c)
    (h : (traces.follow maps r).contains c = true) : maps.contains c = true := by
  rcases follow_cases traces maps r with ⟨hsame, -⟩ | ⟨frames, map, -, -, -, hinsert⟩
  · rwa [hsame] at h
  · rw [hinsert, CategoryMap.contains_insert, decide_eq_false hne] at h
    exact h

/-- A relation that can be followed from a framed category frames its target, or the target has
frames already. -/
theorem contains_target_follow {r : Relation} (hfollow : traces.CanFollow r)
    (hpresent : ∃ source, traces.get? r.source = some source)
    (hframed : maps.contains r.source = true) :
    (traces.follow maps r).contains r.target = true := by
  obtain ⟨source, hsource⟩ := hpresent
  obtain ⟨frames, hframes⟩ := CategoryMap.contains_iff.mp hframed
  obtain ⟨map, hmap⟩ := hfollow.exists_flow hsource frames
  rcases follow_cases traces maps r with ⟨hsame, hheld | hnone⟩ | ⟨_, _, -, -, -, hinsert⟩
  · rwa [hsame]
  · exact absurd hmap (hnone frames map hframes)
  · rw [hinsert, CategoryMap.contains_insert, decide_eq_true rfl]
    rfl

/-! ## All relations in their order -/

/-- Relations that do not lead to a category do not frame it. In flow order the relations behind one
do not lead to its source. -/
theorem contains_of_contains_foldl_follow {c : Category} (hne : ∀ r ∈ relations, r.target ≠ c)
    (h : (relations.foldl traces.follow maps).contains c = true) : maps.contains c = true := by
  induction relations generalizing maps with
  | nil => exact h
  | cons r relations ih =>
    have hstep := ih (fun later hlater => hne later (List.mem_cons_of_mem r hlater)) h
    exact contains_of_contains_follow (hne r List.mem_cons_self) hstep

/-- What is framed stays framed, through any relations. -/
theorem contains_foldl_follow {c : Category} (relations : List Relation)
    (h : maps.contains c = true) : (relations.foldl traces.follow maps).contains c = true := by
  obtain ⟨map, hmap⟩ := CategoryMap.contains_iff.mp h
  exact CategoryMap.contains_iff.mpr ⟨map, get?_foldl_follow relations hmap⟩

/-- In flow order each relation has been followed when its source has got its frames. The list
is split at the relation: its source was framed by those before it, and those behind it take
nothing away. -/
theorem contains_target_foldl_follow (horder : Relation.InFlowOrder relations) {r : Relation}
    (hr : r ∈ relations) (hfollow : traces.CanFollow r)
    (hpresent : ∃ source, traces.get? r.source = some source)
    (hframed : (relations.foldl traces.follow maps).contains r.source = true) :
    (relations.foldl traces.follow maps).contains r.target = true := by
  obtain ⟨before, after, rfl⟩ := List.append_of_mem hr
  have hlater : ∀ later ∈ after, later.target ≠ r.source := fun later hmem =>
    ((List.pairwise_cons.mp (List.pairwise_append.mp horder).2.1).1 later hmem).symm
  rw [List.foldl_append, List.foldl_cons] at hframed ⊢
  have hthen := contains_of_contains_foldl_follow hlater hframed
  refine contains_foldl_follow after ?_
  by_cases hself : r.target = r.source
  · rwa [hself]
  · have hbefore := contains_of_contains_follow hself hthen
    exact contains_target_follow hfollow hpresent hbefore

/-- With the source of a relation that can be followed its target is framed. The framed categories
are closed in this sense. -/
theorem contains_target_frameMaps (hfiled : traces.Filed)
    (horder : Relation.InFlowOrder relations) {r : Relation} (hr : r ∈ relations)
    (hframed : (traces.frameMaps relations).contains r.source = true)
    (hfollow : traces.CanFollow r) : (traces.frameMaps relations).contains r.target = true := by
  obtain ⟨frames, hframes⟩ := CategoryMap.contains_iff.mp hframed
  obtain ⟨source, hsource, -⟩ := size_of_get?_frameMaps hfiled hframes
  cases hroot : traces.root? with
  | none =>
    rw [frameMaps_of_root?_eq_none hroot, CategoryMap.contains_empty] at hframed
    cases hframed
  | some root =>
    rw [frameMaps, hroot] at hframed ⊢
    exact contains_target_foldl_follow horder hr hfollow ⟨source, hsource⟩ hframed

/-- Whatever is framed can be reached. This holds in any order of the relations. -/
theorem reaches_of_contains {c : Category}
    (h : (traces.frameMaps relations).contains c = true) : traces.Reaches relations c := by
  obtain ⟨map, hmap⟩ := CategoryMap.contains_iff.mp h
  refine frameMaps_induction (P := fun c _ => traces.Reaches relations c) ?_ ?_ hmap
  · exact fun root hroot => .root hroot
  · exact fun r hr frames _ hsource hflow => .target hr hsource hflow.canFollow

/-- Whatever can be reached is framed. By induction on how it is reached; the step is that the
framed categories are closed, which needs the flow order. -/
theorem Reaches.contains (hfiled : traces.Filed) (horder : Relation.InFlowOrder relations)
    {c : Category} (h : traces.Reaches relations c) :
    (traces.frameMaps relations).contains c = true := by
  induction h with
  | root hroot => exact CategoryMap.contains_iff.mpr ⟨_, get?_frameMaps_root hroot relations⟩
  | target hr _ hfollow ih => exact contains_target_frameMaps hfiled horder hr ih hfollow

/-- Relations that frame nothing new change nothing, so a second pass can be left out. -/
theorem foldl_follow_eq_self (h : ∀ r ∈ relations, maps.contains r.source = true →
    traces.CanFollow r → maps.contains r.target = true) :
    relations.foldl traces.follow maps = maps := by
  induction relations with
  | nil => rfl
  | cons r relations ih =>
    have hsame : traces.follow maps r = maps := by
      rcases follow_cases traces maps r with ⟨hsame, -⟩ | ⟨frames, map, hfree, hframes, hflow, -⟩
      · exact hsame
      · have hheld := h r List.mem_cons_self (CategoryMap.contains_iff.mpr ⟨frames, hframes⟩)
          hflow.canFollow
        rw [hfree] at hheld
        cases hheld
    rw [List.foldl_cons, hsame]
    exact ih fun later hlater => h later (List.mem_cons_of_mem r hlater)

/-- **One pass is enough.** For all traces and all relations in flow order, the target of a relation
is framed whenever its source is and the relation can be followed. Exactly those categories are
framed that can be reached from the root in this way, and a second pass over the relations changes
no frames. -/
theorem correlate_reaches (hfiled : traces.Filed) (horder : Relation.InFlowOrder relations) :
    (∀ r ∈ relations, (traces.correlate relations).isFramed r.source = true →
        traces.CanFollow r → (traces.correlate relations).isFramed r.target = true) ∧
      (∀ c, (traces.correlate relations).isFramed c = true ↔ traces.Reaches relations c) ∧
      relations.foldl traces.follow (traces.frameMaps relations) = traces.frameMaps relations := by
  have hclosed : ∀ r ∈ relations, (traces.frameMaps relations).contains r.source = true →
      traces.CanFollow r → (traces.frameMaps relations).contains r.target = true :=
    fun r hr hframed hfollow => contains_target_frameMaps hfiled horder hr hframed hfollow
  refine ⟨hclosed, fun c => ⟨fun h => ?_, fun h => ?_⟩, foldl_follow_eq_self hclosed⟩
  · exact reaches_of_contains h
  · exact h.contains hfiled horder

/-- The first relation to the transactions asks for keys that the root does not have. The second one
frames them, though they have no entries, and the third one the protocol log. -/
theorem correlate_reaches_second_relation :
    let traces := ofTraces [.ofTimes .surfaceFlinger [5, 9], .ofTimes .transactions [],
      .ofTimes .protoLog [7]]
    let second : Relation :=
      { target := .transactions, source := .surfaceFlinger, link := .latestBefore }
    let third : Relation := { target := .protoLog, source := .transactions, link := .nearest }
    let relations := [{ second with link := .matchingVsync }, second, third]
    traces.Filed ∧ Relation.InFlowOrder relations ∧
      (traces.correlate relations).isFramed .transactions = true ∧
      (traces.correlate relations).isFramed .protoLog = true := by
  intro traces second third relations
  have hfiled : traces.Filed := filed_ofTraces _
  have horder : Relation.InFlowOrder relations := by decide
  obtain ⟨hclosed, hreaches, -⟩ := correlate_reaches hfiled horder
  have hroot : traces.root? = some (.ofTimes .surfaceFlinger [5, 9]) := by cbv
  have hfirst : (traces.correlate relations).isFramed .surfaceFlinger = true :=
    (hreaches .surfaceFlinger).mpr (.root hroot)
  have htransactions : traces.CanFollow second :=
    ⟨.ofTimes .transactions [], by cbv, fun hlink => by cases hlink⟩
  have hprotoLog : traces.CanFollow third :=
    ⟨.ofTimes .protoLog [7], by cbv, fun hlink => by cases hlink⟩
  have hsecond := hclosed second (by simp [relations]) hfirst htransactions
  have hthird := hclosed third (by simp [relations]) hsecond hprotoLog
  exact ⟨hfiled, horder, hsecond, hthird⟩

end Traces

end FrameAlign
