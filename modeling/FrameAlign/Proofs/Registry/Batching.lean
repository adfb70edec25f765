import FrameAlign.Proofs.Registry.Places
import FrameAlign.Proofs.Registry.Screenshots
import FrameAlign.Proofs.Registry.Settled
import FrameAlign.Proofs.Registry.Survivors

/-!
# Batches of single files

Without sessions a registry holds the survivors of all the files that it was ever given, as long as
no two of them compete for one place. Each merge chooses among its candidates and the files in use
only, but the files that did not survive earlier are not missed. Hence neither the order of files
nor their distribution over merges has an influence.
-/

namespace FrameAlign

namespace Merging

variable {m : Merging} {file : TraceFile} {l k : LoadedTrace}

/-! ## A merge without a session -/

/-- Without a session the single files alone can be evidence. -/
theorem pool_of_modern_empty (h : m.registry.modern = CategoryMap.empty) :
    m.pool = m.singles.map (·.trace) := by
  rw [pool_eq, h, CategoryMap.values_empty, List.append_nil]

/-- Without a session no candidate is hidden, as nothing takes its place. -/
theorem singles_dropHidden (h : m.registry.modern = CategoryMap.empty) :
    m.dropHidden.singles = m.singles := by
  have hcandidates : m.dropHidden.candidates = m.candidates :=
    List.filter_eq_self.mpr fun l _ => by simp [h]
  rw [singles, hcandidates]
  rfl

/-- Without a session the sweep of outdated files leaves the current ones. Files of different
categories have different identities, so every other file counts as evidence. -/
theorem mem_singles_dropOutdated (h : m.registry.modern = CategoryMap.empty)
    (hdistinct : ∀ l ∈ m.singles, ∀ k ∈ m.singles, l.category = k.category → l = k) :
    l ∈ m.dropOutdated.singles ↔ l ∈ Registry.current {k | k ∈ m.singles} := by
  rw [dropOutdated, singles_sweep, List.mem_filter, Option.isNone_iff_eq_none,
    pool_of_modern_empty h, ite_eq_right_iff, Trace.isOutdated_iff]
  refine and_congr_right fun hl => ?_
  constructor
  · rintro hkept ⟨k, hk, hreal⟩
    by_contra helapsed
    rw [Bool.not_eq_false] at helapsed
    have hne : k.trace.id ≠ l.trace.id := by
      intro hid
      have heq : k = l := hdistinct k hk l hl (congrArg (·.category) hid)
      simp [Trace.isElapsedOnly, ← heq, hreal] at helapsed
    exact Option.some_ne_none _ (hkept ⟨helapsed, k.trace, List.mem_map_of_mem hk, hne, hreal⟩)
  · rintro hcurrent ⟨helapsed, other, hother, -, hreal⟩
    obtain ⟨k, hk, rfl⟩ := List.mem_map.mp hother
    simp [hcurrent ⟨k, hk, hreal⟩] at helapsed

/-- Without a session the sweep of left-over files leaves those that no file leaves behind. A file
with ascending timestamps does not leave itself behind, so it need not be told apart. -/
theorem mem_singles_dropLeftOver (h : m.registry.modern = CategoryMap.empty)
    (hdistinct : ∀ l ∈ m.singles, ∀ k ∈ m.singles, l.category = k.category → l = k)
    (hself : ∀ l ∈ m.singles, ¬l.trace.LeftBehind m.registry.policy l.trace) :
    l ∈ m.dropLeftOver.singles ↔
      l ∈ m.singles ∧ ∀ k ∈ m.singles, ¬l.trace.LeftBehind m.registry.policy k.trace := by
  rw [dropLeftOver, singles_sweep, List.mem_filter, Option.isNone_iff_eq_none,
    Option.map_eq_none_iff, Trace.oldDataGap?_eq_none_iff, pool_of_modern_empty h,
    List.forall_mem_map]
  refine and_congr_right fun hl => forall₂_congr fun k hk => ?_
  constructor
  · intro hkept hleft
    by_cases hid : k.trace.id = l.trace.id
    · have heq : k = l := hdistinct k hk l hl (congrArg (·.category) hid)
      exact hself l hl (heq ▸ hleft)
    · exact hkept hid hleft
  · exact fun hkept _ => hkept

/-- Where screenshots and recordings do not come together, none of them has to leave. -/
theorem mem_singles_dropScreenshots (h : m.registry.Consistent file)
    (hexclusive : ¬((∃ t ∈ m.pool, t.category = .screenshot) ∧
      ∃ t ∈ m.pool, t.category = .screenRecording)) :
    l ∈ m.dropScreenshots.singles ↔ l ∈ m.singles := by
  cases hrecorded : m.isRecorded with
  | false => rw [dropScreenshots_eq_self hrecorded]
  | true =>
    have hseen := (isRecorded_iff h).mp hrecorded
    obtain ⟨hcandidates, hregistry⟩ := dropScreenshots_of_isRecorded hrecorded
    constructor
    · exact fun hl => (sheds_dropScreenshots m).thins.singles_subset hl
    · intro hl
      have hcategory : l.category ≠ .screenshot := by
        intro hcategory
        refine hexclusive ⟨⟨l.trace, ?_, hcategory⟩, hseen⟩
        rw [pool_eq]
        exact List.mem_map_of_mem (List.mem_append_left _ hl)
      rw [singles, hcandidates, hregistry]
      rcases List.mem_append.mp hl with hl | hl
      · exact List.mem_append_left _ (List.mem_filter.mpr ⟨hl, decide_eq_true hcategory⟩)
      · obtain ⟨c, hc⟩ := CategoryMap.mem_values.mp hl
        refine List.mem_append_right _ (CategoryMap.mem_values.mpr ⟨c, ?_⟩)
        rw [Registry.remove, CategoryMap.get?_erase, if_neg, hc]
        rintro rfl
        exact hcategory (h.legacy_category hc)

/-- Where no two files compete, all the candidates enter and all the files in use stay. -/
theorem mem_values_enterCandidates (h : m.registry.Consistent file)
    (hfree : ∀ l ∈ m.candidates, m.registry.modern.contains l.category = false)
    (hdistinct : ∀ l ∈ m.singles, ∀ k ∈ m.singles, l.category = k.category → l = k) :
    l ∈ m.enterCandidates.registry.legacy.values ↔ l ∈ m.singles := by
  have hsubset : m.enterCandidates.registry.legacy.values ⊆ m.singles :=
    fun _ hk => (thins_enterCandidates m).singles_subset (List.mem_append_right _ hk)
  refine ⟨fun hl => hsubset hl, fun hl => ?_⟩
  have hplace : l.category ∈ m.candidates.map (·.category) ∨
      m.registry.legacy.contains l.category = true := by
    rcases List.mem_append.mp hl with hl | hl
    · exact Or.inl (List.mem_map_of_mem hl)
    · obtain ⟨c, hc⟩ := CategoryMap.mem_values.mp hl
      rw [h.legacy_category hc]
      exact Or.inr (CategoryMap.contains_iff.mpr ⟨l, hc⟩)
  obtain ⟨k, hk⟩ :=
    CategoryMap.contains_iff.mp ((contains_legacy_enterCandidates m _).mpr hplace)
  have hkmem : k ∈ m.enterCandidates.registry.legacy.values :=
    CategoryMap.mem_values.mpr ⟨_, hk⟩
  have hcategory : k.category = l.category :=
    (consistent_enterCandidates ⟨h, hfree⟩).legacy_category hk
  rwa [← hdistinct k (hsubset hkmem) l hl hcategory]

end Merging

namespace Registry

/-- Files that do not compete: all of them could be in use at once. The files of all batches
together have to be of this kind, also those that have not survived. -/
structure Compatible (files : Set LoadedTrace) : Prop where
  /-- No two files are of one category. -/
  distinct : ∀ l ∈ files, ∀ k ∈ files, l.category = k.category → l = k
  /-- Each file hands its timestamps over in order, so the timeline that starts last is not
  left behind. -/
  ascending : ∀ l ∈ files, l.trace.Ascending
  /-- A screenshot does not come together with a screen recording. -/
  exclusive : ¬((∃ l ∈ files, l.category = .screenshot) ∧
    ∃ l ∈ files, l.category = .screenRecording)

/-- Fewer files do not compete either, so each batch may be looked at by itself. -/
theorem Compatible.subset {files added : Set LoadedTrace} (h : Compatible added)
    (hsubset : files ⊆ added) : Compatible files where
  distinct := fun l hl k hk => h.distinct l (hsubset hl) k (hsubset hk)
  ascending := fun l hl => h.ascending l (hsubset hl)
  exclusive := fun ⟨⟨l, hl, hshot⟩, k, hk, hrecording⟩ =>
    h.exclusive ⟨⟨l, hsubset hl, hshot⟩, k, hsubset hk, hrecording⟩

end Registry

namespace Merging

variable {m : Merging} {file : TraceFile} {l : LoadedTrace}

/-- Without a session a merge brings none. -/
theorem modern_run_none (h : m.registry.modern = CategoryMap.empty) :
    (m.run none).registry.modern = CategoryMap.empty := by
  have hsheds := (((sheds_dropHidden m).trans (sheds_dropOutdated _)).trans
    (sheds_dropLeftOver _)).trans (sheds_dropScreenshots _)
  set shed := m.dropHidden.dropOutdated.dropLeftOver.dropScreenshots
  obtain ⟨-, -, hmodern, -⟩ := enterCandidates_spec shed
  have hrun : m.run none = shed.enterCandidates := rfl
  rw [hrun, hmodern]
  exact CategoryMap.eq_empty_of_get?_le hsheds.modern_le h

/-- Without a session the two sweeps leave the survivors of files that do not compete. The second
sweep looks for evidence among what the first has left, as the survivors do. -/
theorem mem_singles_sweeps (hmodern : m.registry.modern = CategoryMap.empty)
    (hpolicy : 0 ≤ m.registry.policy.maxTimeGap.val)
    (hcompatible : Registry.Compatible {k | k ∈ m.singles}) :
    l ∈ m.dropOutdated.dropLeftOver.singles ↔
      l ∈ Registry.survivors m.registry.policy {k | k ∈ m.singles} := by
  have hcurrent : ∀ k, k ∈ m.dropOutdated.singles ↔ k ∈ Registry.current {k | k ∈ m.singles} :=
    fun k => mem_singles_dropOutdated hmodern hcompatible.distinct
  have houtdated : Registry.Compatible {k | k ∈ m.dropOutdated.singles} :=
    hcompatible.subset fun k hk => ((hcurrent k).mp hk).1
  have hself : ∀ l ∈ m.dropOutdated.singles, ¬l.trace.LeftBehind m.registry.policy l.trace :=
    fun l hl => (houtdated.ascending l hl).not_leftBehind hpolicy le_rfl
  rw [mem_singles_dropLeftOver (m := m.dropOutdated) hmodern houtdated.distinct hself]
  simp only [hcurrent]
  rfl

/-- Without a session a merge of files that do not compete leaves their survivors in use. All other
steps leave such files alone. -/
theorem mem_values_run_none (h : m.registry.Consistent file)
    (hmodern : m.registry.modern = CategoryMap.empty)
    (hpolicy : 0 ≤ m.registry.policy.maxTimeGap.val)
    (hcompatible : Registry.Compatible {k | k ∈ m.singles}) :
    l ∈ (m.run none).registry.legacy.values ↔
      l ∈ Registry.survivors m.registry.policy {k | k ∈ m.singles} := by
  have hhidden : m.dropHidden.singles = m.singles := singles_dropHidden hmodern
  set leftOver := m.dropHidden.dropOutdated.dropLeftOver
  have hsurvivors : ∀ k, k ∈ leftOver.singles ↔
      k ∈ Registry.survivors m.registry.policy {k | k ∈ m.singles} := by
    intro k
    rw [← hhidden] at hcompatible ⊢
    exact mem_singles_sweeps (m := m.dropHidden) hmodern hpolicy hcompatible
  have hleftOver : Registry.Compatible {k | k ∈ leftOver.singles} :=
    hcompatible.subset fun k hk => Registry.survivors_subset ((hsurvivors k).mp hk)
  have hcleared : leftOver.Cleared file := cleared_dropLeftOver h none
  -- Nothing else leaves, and all that is left enters or stays.
  have hscreenshots : ∀ k, k ∈ leftOver.dropScreenshots.singles ↔ k ∈ leftOver.singles := by
    intro k
    refine mem_singles_dropScreenshots hcleared.consistent ?_
    rw [pool_of_modern_empty (m := leftOver) hmodern]
    rintro ⟨⟨t, ht, hshot⟩, t', ht', hrecording⟩
    obtain ⟨a, ha, rfl⟩ := List.mem_map.mp ht
    obtain ⟨b, hb, rfl⟩ := List.mem_map.mp ht'
    exact hleftOver.exclusive ⟨⟨a, ha, hshot⟩, b, hb, hrecording⟩
  have hcleared' := hcleared.shed (sheds_dropScreenshots _)
  have hdistinct := (hleftOver.subset fun k hk => (hscreenshots k).mp hk).distinct
  have hrun : m.run none = leftOver.dropScreenshots.enterCandidates := rfl
  rw [← hsurvivors, ← hscreenshots, hrun]
  exact mem_values_enterCandidates hcleared'.consistent hcleared'.free hdistinct

end Merging

namespace Registry

/-- A registry without a session that holds the survivors of all the files it was given. The
invariant over batches: the files are remembered in the statement, not in the registry. -/
structure HoldsSurvivors (r : Registry) (policy : MergePolicy) (files : Set LoadedTrace) :
    Prop where
  /-- The policy has not changed. -/
  policy_eq : r.policy = policy
  /-- The maps agree with each other. -/
  consistent : ∃ file, r.Consistent file
  /-- There is no session. -/
  modern_eq : r.modern = CategoryMap.empty
  /-- Exactly the survivors are in use. -/
  mem_legacy_iff : ∀ l, l ∈ r.legacy.values ↔ l ∈ survivors policy files

/-- A registry without traces holds the survivors of no files, so the invariant holds at
the start. -/
theorem holdsSurvivors_withPolicy (policy : MergePolicy) :
    (withPolicy policy).HoldsSurvivors policy ∅ where
  policy_eq := rfl
  consistent := ⟨{ name := "" }, consistent_withPolicy policy _⟩
  modern_eq := rfl
  mem_legacy_iff := by
    intro l
    simp [withPolicy, survivors, current]

/-- Registries that hold the survivors of the same files are the same. The set of files says nothing
about order or batches, so these have no influence. -/
theorem HoldsSurvivors.eq {r r' : Registry} {policy : MergePolicy} {files : Set LoadedTrace}
    (h : r.HoldsSurvivors policy files) (h' : r'.HoldsSurvivors policy files) : r = r' := by
  obtain ⟨file, hconsistent⟩ := h.consistent
  obtain ⟨file', hconsistent'⟩ := h'.consistent
  refine eq_of_get?_eq (h.policy_eq.trans h'.policy_eq.symm) (fun c => ?_) fun c => ?_
  · ext l
    rw [hconsistent.legacy_get?_eq_some_iff, hconsistent'.legacy_get?_eq_some_iff,
      h.mem_legacy_iff, h'.mem_legacy_iff]
  · rw [h.modern_eq, h'.modern_eq]

section Merge

variable {r : Registry} {policy : MergePolicy} {files : Set LoadedTrace}

/-- A merge takes a batch into account as if it had come together with all earlier files. Files that
did not survive are not there any more, but the survivors are the same without them. -/
theorem HoldsSurvivors.merge (h : r.HoldsSurvivors policy files)
    (hpolicy : 0 ≤ policy.maxTimeGap.val) (hfinite : files.Finite) (batch : List LoadedTrace)
    (hcompatible : Compatible ({l | l ∈ batch} ∪ files)) :
    (r.merge batch none).1.HoldsSurvivors policy ({l | l ∈ batch} ∪ files) := by
  obtain ⟨file, hconsistent⟩ := h.consistent
  let m : Merging := { registry := r, candidates := batch }
  have hsingles : {l | l ∈ m.singles} = {l | l ∈ batch} ∪ survivors policy files := by
    ext l
    rw [Set.mem_union, ← h.mem_legacy_iff]
    exact List.mem_append
  have hsubset : {l | l ∈ m.singles} ⊆ {l | l ∈ batch} ∪ files := by
    rw [hsingles]
    exact Set.union_subset_union_right _ survivors_subset
  have hascending : ∀ l ∈ files, l.trace.Ascending :=
    fun l hl => hcompatible.ascending l (Or.inr hl)
  constructor
  · rw [merge_fst, Merging.run_policy, h.policy_eq]
  · exact ⟨_, hconsistent.merge batch none⟩
  · rw [merge_fst]
    exact Merging.modern_run_none h.modern_eq
  · intro l
    have hrun := Merging.mem_values_run_none (m := m) (l := l) hconsistent h.modern_eq
      (h.policy_eq ▸ hpolicy) (hcompatible.subset hsubset)
    rw [merge_fst, hrun, hsingles, h.policy_eq,
      survivors_union_survivors hpolicy hfinite hascending]

/-- After any batches a registry holds the survivors of all the files in them. By induction on the
batches, with the files that came before in the statement. -/
theorem HoldsSurvivors.run (h : r.HoldsSurvivors policy files)
    (hpolicy : 0 ≤ policy.maxTimeGap.val) (hfinite : files.Finite)
    (batches : List (List LoadedTrace))
    (hcompatible : Compatible ({l | l ∈ batches.flatten} ∪ files)) :
    (r.run (batches.map (Call.merge · none))).HoldsSurvivors policy
      ({l | l ∈ batches.flatten} ∪ files) := by
  induction batches generalizing r files with
  | nil => simpa using h
  | cons batch batches ih =>
    have hunion : {l | l ∈ (batch :: batches).flatten} ∪ files =
        {l | l ∈ batches.flatten} ∪ ({l | l ∈ batch} ∪ files) := by
      ext l
      simp only [List.flatten_cons, List.mem_append, Set.mem_union, Set.mem_ofPred_eq]
      tauto
    rw [hunion] at hcompatible
    rw [hunion, List.map_cons, run_cons]
    have hmerged := h.merge hpolicy hfinite batch (hcompatible.subset Set.subset_union_right)
    exact ih hmerged ((List.finite_toSet batch).union hfinite) hcompatible

end Merge

/-- **Independence of order and batches.** Files of different categories with ascending timestamps,
not both a screenshot and a screen recording among them, lead from a registry without traces to the
same registry in whatever order they come and however they are distributed over merges. -/
theorem run_merges_eq_of_perm (policy : MergePolicy) (hpolicy : 0 ≤ policy.maxTimeGap.val)
    {batches batches' : List (List LoadedTrace)} (hperm : batches.flatten.Perm batches'.flatten)
    (hdistinct : (batches.flatten.map (·.category)).Nodup)
    (hascending : ∀ l ∈ batches.flatten, l.trace.Ascending)
    (hexclusive : .screenshot ∉ batches.flatten.map (·.category) ∨
      .screenRecording ∉ batches.flatten.map (·.category)) :
    (withPolicy policy).run (batches.map (Call.merge · none)) =
      (withPolicy policy).run (batches'.map (Call.merge · none)) := by
  have hsame : {l | l ∈ batches'.flatten} = {l | l ∈ batches.flatten} :=
    Set.ext fun _ => hperm.mem_iff.symm
  have hcompatible : Compatible ({l | l ∈ batches.flatten} ∪ ∅) := by
    rw [Set.union_empty]
    exact {
      distinct := fun l hl k hk => List.inj_on_of_nodup_map hdistinct hl hk
      ascending := hascending
      exclusive := by
        rintro ⟨⟨l, hl, hshot⟩, k, hk, hrecording⟩
        rcases hexclusive with hnone | hnone
        · exact hnone (List.mem_map.mpr ⟨l, hl, hshot⟩)
        · exact hnone (List.mem_map.mpr ⟨k, hk, hrecording⟩) }
  have hempty := holdsSurvivors_withPolicy policy
  have h := hempty.run hpolicy Set.finite_empty batches hcompatible
  have h' := hempty.run hpolicy Set.finite_empty batches' (by rwa [hsame])
  rw [hsame] at h'
  exact h.eq h'

/-- All at once or one by one from the last: a transition that ended early, a trace with elapsed
timestamps, a trace that ended too early, a single sample and the trace that comes last. -/
theorem run_merges_eq_one_by_one :
    let policy : MergePolicy := ⟨.clamp 95⟩
    let files :=
      [singleFile .wmTransition [.real (.clamp 0), .real (.clamp 4)],
        singleFile .protoLog [.elapsed (.clamp 90), .elapsed (.clamp 101)],
        singleFile .surfaceFlinger [.real (.clamp 0), .real (.clamp 4)],
        singleFile .screenshot [.real (.clamp 0)],
        singleFile .windowManager [.real (.clamp 100), .real (.clamp 100)]]
    0 ≤ policy.maxTimeGap.val ∧ [files].flatten.Perm (files.reverse.map ([·])).flatten ∧
      ([files].flatten.map (·.category)).Nodup ∧ (∀ l ∈ [files].flatten, l.trace.Ascending) ∧
      (.screenshot ∉ [files].flatten.map (·.category) ∨
        .screenRecording ∉ [files].flatten.map (·.category)) ∧
      (withPolicy policy).run ([files].map (Call.merge · none)) =
        (withPolicy policy).run ((files.reverse.map ([·])).map (Call.merge · none)) := by
  intro policy files
  have hpolicy : 0 ≤ policy.maxTimeGap.val := by decide
  have hperm : [files].flatten.Perm (files.reverse.map ([·])).flatten := by
    rw [List.flatten_singleton, ← List.flatMap_def, List.flatMap_singleton']
    exact files.reverse_perm.symm
  have hdistinct : ([files].flatten.map (·.category)).Nodup := by decide
  have hascending : ∀ l ∈ [files].flatten, l.trace.Ascending := by decide
  have hexclusive : .screenshot ∉ [files].flatten.map (·.category) ∨
      .screenRecording ∉ [files].flatten.map (·.category) := by decide
  exact ⟨hpolicy, hperm, hdistinct, hascending, hexclusive,
    run_merges_eq_of_perm policy hpolicy hperm hdistinct hascending hexclusive⟩

end Registry

end FrameAlign
