import FrameAlign.Proofs.Frames.Order
import Mathlib

/-!
# The numbering of frames

Frames are numbered by the entries of the root, or by the runs of equal keys among them. No link
invents a frame: what it hands on is a hull of ranges that are there, so that it holds a frame and
ends no later than they do. A relation adds the frames of one trace and changes no others.
-/

namespace FrameAlign

/-! ## The numbers of the root -/

namespace FrameMap

/-- A key in front of an equal one joins its run. The library splits a list into runs, and numbering
counts along it; these two lemmas bring them together. -/
theorem splitBy_cons_self {a : Int} {keys run : List Int} {runs : List (List Int)}
    (h : (a :: keys).splitBy (· == ·) = run :: runs) :
    (a :: a :: keys).splitBy (· == ·) = (a :: run) :: runs := by
  obtain ⟨hflatten, hnil, hequal, hapart⟩ := List.splitBy_eq_iff.mp h
  cases run with
  | nil => simp at hnil
  | cons k run =>
    obtain ⟨rfl, hrest⟩ := List.cons_eq_cons.mp (hflatten.trans (List.flatten_cons ..))
    refine List.splitBy_eq_iff.mpr ⟨?_, ?_, ?_, ?_⟩
    · rw [hrest]
      simp
    · simpa using hnil
    · intro m hm
      rcases List.mem_cons.mp hm with rfl | hm
      · exact List.isChain_cons_cons.mpr ⟨by simp, hequal _ List.mem_cons_self⟩
      · exact hequal m (List.mem_cons_of_mem _ hm)
    · cases runs with
      | nil => exact .singleton _
      | cons next runs =>
        rw [List.isChain_cons_cons] at hapart ⊢
        simpa using hapart

/-- A key starts a run unless it follows an equal one, so the number of runs can be counted from
the front. -/
theorem length_splitBy_cons_cons (a b : Int) (keys : List Int) :
    ((a :: b :: keys).splitBy (· == ·)).length =
      ((b :: keys).splitBy (· == ·)).length + if a = b then 0 else 1 := by
  by_cases hab : a = b
  · subst hab
    cases hruns : (a :: keys).splitBy (· == ·) with
    | nil => simp at hruns
    | cons run runs =>
      rw [splitBy_cons_self hruns]
      simp
  · have hsplit := List.splitBy_append_cons (r := (· == ·)) (l := [a]) (a := b) keys
      (by simpa using hab)
    rw [List.singleton_append] at hsplit
    rw [hsplit, List.length_append, if_neg hab, Nat.add_comm]
    rfl

/-- Every key gets a number. -/
theorem length_runNumbers (frame : Nat) (keys : List Int) :
    (runNumbers frame keys).length = keys.length := by
  fun_induction runNumbers frame keys with
  | case1 frame => rfl
  | case2 frame key => rfl
  | case3 frame a b rest ih => rw [List.length_cons, ih, List.length_cons (a := a)]

/-- The runs get the numbers from the first one on without a gap: as many as there are runs. -/
theorem mem_runNumbers {frame n : Nat} {keys : List Int} :
    n ∈ runNumbers frame keys ↔ frame ≤ n ∧ n < frame + (keys.splitBy (· == ·)).length := by
  fun_induction runNumbers frame keys with
  | case1 frame => simp
  | case2 frame key =>
    have hone : ([key].splitBy (· == ·)).length = 1 := rfl
    rw [List.mem_singleton, hone]
    omega
  | case3 frame a b rest ih =>
    rw [List.mem_cons, ih, length_splitBy_cons_cons]
    have hpos : 0 < ((b :: rest).splitBy (· == ·)).length := by
      rw [List.length_pos_iff, List.splitBy_ne_nil]
      exact List.cons_ne_nil b rest
    split <;> omega

end FrameMap

namespace Trace

/-- The number of frames that start from the entries of a trace: one for each run of equal keys if
every entry has a key, and otherwise one for each entry. -/
def frameCount (t : Trace) : Nat :=
  match t.completeVsyncIds? with
  | some keys => (keys.splitBy (· == ·)).length
  | none => t.size

/-- The numbers that the entries of a trace get when the numbering starts from it, in the order of
the entries. -/
def frameNumbers (t : Trace) : List Nat :=
  match t.completeVsyncIds? with
  | some keys => FrameMap.runNumbers 0 keys
  | none => List.range t.size

/-- Every entry gets a number, with keys or without. -/
theorem length_frameNumbers (t : Trace) : t.frameNumbers.length = t.size := by
  rw [frameNumbers]
  split
  · next keys hkeys =>
    have hcomplete : keys.length = t.size := by
      simpa using (Option.filter_eq_some_iff.mp hkeys).2
    rw [FrameMap.length_runNumbers, hcomplete]
  · exact List.length_range

/-- The numbers do not decrease from entry to entry. -/
theorem pairwise_frameNumbers (t : Trace) : t.frameNumbers.Pairwise (· ≤ ·) := by
  rw [frameNumbers]
  split
  · exact FrameMap.pairwise_runNumbers 0 _
  · exact List.pairwise_lt_range.imp Nat.le_of_lt

/-- Exactly the numbers below the number of frames are used, so every frame has an entry
of the root. -/
theorem mem_frameNumbers {t : Trace} {n : Nat} : n ∈ t.frameNumbers ↔ n < t.frameCount := by
  rw [frameNumbers, frameCount]
  split
  · rw [FrameMap.mem_runNumbers]
    omega
  · exact List.mem_range

/-- The numbering gives to each entry of the root the one frame of its number. From here on the keys
do not appear any more. -/
theorem root_eq (t : Trace) :
    FrameMap.root t.size t.vsyncIds =
      (t.frameNumbers.map fun n => some (FrameRange.single n)).toArray := by
  unfold FrameMap.root frameNumbers completeVsyncIds?
  cases t.vsyncIds with
  | none => rfl
  | some keys => by_cases hlength : keys.length = t.size <;> simp [Option.filter_some, hlength]

end Trace

/-! ## No link invents a frame -/

namespace FrameMap

/-- Ranges that hold a frame each and none from `count` on. It is kept by everything that frames
go through. -/
def Within (map : FrameMap) (count : Nat) : Prop :=
  ∀ (entry : Nat) (r : FrameRange), map[entry]? = some (some r) → r.start < r.stop ∧ r.stop ≤ count

/-- The root has frames below its own number of frames. -/
theorem within_root (t : Trace) : (root t.size t.vsyncIds).Within t.frameCount := by
  intro entry r hr
  rw [Trace.root_eq, List.getElem?_toArray, List.getElem?_map, Option.map_eq_some_iff] at hr
  obtain ⟨n, hn, hsingle⟩ := hr
  cases hsingle
  have hlt : n < t.frameCount := Trace.mem_frameNumbers.mp (List.mem_of_getElem? hn)
  exact ⟨Nat.lt_succ_self n, hlt⟩

/-- Bringing a map to the size of its trace brings no range in. -/
theorem Within.resize {map : FrameMap} {count : Nat} (h : map.Within count) (size : Nat) :
    (map.resize size).Within count := by
  intro entry r hr
  rw [getElem?_resize, Option.ite_none_right_eq_some, Option.some.injEq,
    Option.join_eq_some_iff] at hr
  exact h entry r hr.2

/-- Whatever a link links, a hull of ranges within some frames is within these frames. The kind of
link does not matter. -/
theorem Linked.within {link : Nat → Nat → Prop} {source target : FrameMap} {count : Nat}
    (h : Linked link source target) (hsource : source.Within count) : target.Within count := by
  intro entry r hr
  have hhull : FrameRange.IsHull _ r := h entry (some r) hr
  obtain ⟨a, ha, hstart⟩ := hhull.exists_start_eq
  obtain ⟨b, ⟨k, -, hb⟩, hstop⟩ := hhull.exists_stop_eq
  have hle : a.stop ≤ r.stop := hhull.le_stop a ha
  obtain ⟨j, -, ha⟩ := ha
  have hfull : a.start < a.stop := (hsource j a ha).1
  have hcount : b.stop ≤ count := (hsource k b hb).2
  omega

end FrameMap

/-- The frames that a relation hands on are frames of its source, so no relation adds to the number
of frames. -/
theorem Relation.within_propagate {r : Relation} {target source : Trace} {frames map : FrameMap}
    {count : Nat} (hframes : frames.Within count)
    (hmap : r.propagate target source frames = some map) : map.Within count := by
  rw [propagate] at hmap
  split at hmap
  · simp only [Option.bind_eq_bind, Option.bind_eq_some_iff, Option.pure_def,
      Option.some.injEq] at hmap
    obtain ⟨targetKeys, -, sourceKeys, -, rfl⟩ := hmap
    exact (FrameMap.linked_matchingKey _ _ _).within hframes
  · cases hmap
    exact (FrameMap.linked_latestBefore _ _ _ _).within hframes
  · cases hmap
    exact (FrameMap.linked_followingInterval _ _ _ _).within hframes
  · cases hmap
    exact (FrameMap.linked_precedingInterval _ _ _ _).within hframes
  · cases hmap
    exact (FrameMap.linked_nearest _ _ _ _).within hframes

/-! ## Frames that are there stay -/

namespace Traces

variable {traces : Traces} {maps : CategoryMap FrameMap} {c : Category} {map : FrameMap}

/-- A relation changes no frames that are there: a target that has frames keeps them. -/
theorem get?_follow (r : Relation) (hget : maps.get? c = some map) :
    (traces.follow maps r).get? c = some map := by
  rcases follow_cases traces maps r with ⟨hsame, -⟩ | ⟨frames, new, hfree, -, -, hinsert⟩
  · rwa [hsame]
  · have hne : r.target ≠ c := by
      rintro rfl
      simp [CategoryMap.contains, hget] at hfree
    rwa [hinsert, CategoryMap.get?_insert, if_neg hne]

/-- Relations one after the other change no frames that are there. So what more relations do is only
to frame more traces. -/
theorem get?_foldl_follow (relations : List Relation) (hget : maps.get? c = some map) :
    (relations.foldl traces.follow maps).get? c = some map := by
  induction relations generalizing maps with
  | nil => exact hget
  | cons r relations ih => exact ih (get?_follow r hget)

/-- Without a root there are no frames, whatever the relations are. -/
theorem frameMaps_of_root?_eq_none (hroot : traces.root? = none) (relations : List Relation) :
    traces.frameMaps relations = CategoryMap.empty := by
  rw [frameMaps, hroot]

section Root

variable {root : Trace} (hroot : traces.root? = some root) (relations : List Relation)

include hroot

/-- The root keeps the frames that the numbering gives to it, though a relation may lead to it. -/
theorem get?_frameMaps_root :
    (traces.frameMaps relations).get? root.category =
      some (FrameMap.root root.size root.vsyncIds) := by
  rw [frameMaps, hroot]
  apply get?_foldl_follow
  rw [CategoryMap.get?_insert, if_pos rfl]

/-- All frames are frames of the root: those that the numbering gives and those that relations hand
on from there. -/
theorem within_frameMaps (hget : (traces.frameMaps relations).get? c = some map) :
    map.Within root.frameCount := by
  refine frameMaps_induction (P := fun _ map => map.Within root.frameCount) ?_ ?_ hget
  · intro root' hroot'
    cases hroot.symm.trans hroot'
    exact FrameMap.within_root root
  · rintro r - frames _ hframes ⟨-, -, hpropagate⟩
    exact (r.within_propagate hframes hpropagate).resize _

end Root

/-- More relations leave the frames of the traces that have them as they are. The relations behind
are followed from what those before have made. -/
theorem get?_frameMaps_append (relations more : List Relation)
    (hget : (traces.frameMaps relations).get? c = some map) :
    (traces.frameMaps (relations ++ more)).get? c = some map := by
  cases hroot : traces.root? with
  | none => rw [frameMaps_of_root?_eq_none hroot] at hget; simp at hget
  | some root =>
    rw [frameMaps, hroot] at hget ⊢
    dsimp only at hget ⊢
    rw [List.foldl_append]
    exact get?_foldl_follow more hget

/-! ## The root of a table -/

/-- A category has a trace with entries. The numbering starts from the first preferred category of
this kind. -/
def HasEntries (traces : Traces) (c : Category) : Prop :=
  ∃ t, traces.get? c = some t ∧ t.isEmpty = false

/-- There is no root if no preferred category has entries. An empty trace is passed over, though
it is there. -/
theorem root?_eq_none (h : ∀ c ∈ Relation.roots, ¬traces.HasEntries c) : traces.root? = none := by
  rw [root?, List.find?_eq_none]
  intro t ht hentries
  obtain ⟨c, hc, hget⟩ := List.mem_filterMap.mp ht
  exact h c hc ⟨t, hget, by simpa using hentries⟩

/-- The root is the trace of the first preferred category that has entries. Those before it may have
traces, but no entries. -/
theorem root?_eq_some {before after : List Category} {root : Trace}
    (hroots : Relation.roots = before ++ c :: after)
    (hbefore : ∀ d ∈ before, ¬traces.HasEntries d) (hget : traces.get? c = some root)
    (hentries : root.isEmpty = false) : traces.root? = some root := by
  rw [root?, hroots, List.filterMap_append, List.filterMap_cons_some hget, List.find?_append]
  have hnone : (before.filterMap traces.get?).find? (fun t => !t.isEmpty) = none := by
    rw [List.find?_eq_none]
    intro t ht hfound
    obtain ⟨d, hd, hget'⟩ := List.mem_filterMap.mp ht
    exact hbefore d hd ⟨t, hget', by simpa using hfound⟩
  rw [hnone, Option.none_or, List.find?_cons_of_pos (by simp [hentries])]

end Traces

namespace FrameTable

/-- The numbering of a table by the entries of a root, and the frames of all other traces in it. -/
structure NumberedFrom (t : FrameTable) (root : Trace) : Prop where
  /-- There are as many frames as start from the root. -/
  size_eq : t.size = root.frameCount
  /-- Every entry of the root belongs to exactly one frame. -/
  exists_framesOf_eq : ∀ entry < root.size, ∃ n, t.framesOf root.category entry = [n]
  /-- The frames of the root do not decrease. -/
  framesOf_ascending : ∀ i k n m, i ≤ k → t.framesOf root.category i = [n] →
    t.framesOf root.category k = [m] → n ≤ m
  /-- Every frame holds an entry of the root. -/
  exists_mem_framesOf : ∀ n < t.size, ∃ entry < root.size, n ∈ t.framesOf root.category entry
  /-- The frames of an entry, of whatever trace, are some frames of the table. -/
  range_within : ∀ c entry r, t.rangeOf? c entry = some r → r.start < r.stop ∧ r.stop ≤ t.size

/-- The frames of an entry are those of its range, if it has one, and none otherwise. -/
theorem framesOf_eq (t : FrameTable) (c : Category) (entry : Nat) :
    t.framesOf c entry = (t.rangeOf? c entry).elim [] FrameRange.frames := by
  rw [framesOf, rangeOf?]
  cases (t.maps.get? c).bind (·[entry]?) with
  | none => rfl
  | some range => cases range <;> rfl

/-- A table without framed traces is the empty one, with no frames. -/
theorem ofMaps_empty : ofMaps CategoryMap.empty = {} := by
  simp [ofMaps]

end FrameTable

namespace Traces

variable {traces : Traces}

section Root

variable {root : Trace} (hroot : traces.root? = some root) (relations : List Relation)

include hroot

/-- An entry of the root has the one frame of its number. Places behind the last entry have none. -/
theorem rangeOf?_correlate_root (entry : Nat) :
    (traces.correlate relations).rangeOf? root.category entry =
      root.frameNumbers[entry]?.map .single := by
  have hget := get?_frameMaps_root hroot relations
  rw [correlate, FrameTable.rangeOf?]
  change ((traces.frameMaps relations).get? root.category |>.bind _).join = _
  rw [hget, Option.bind_some, root.root_eq, List.getElem?_toArray, List.getElem?_map]
  cases root.frameNumbers[entry]? <;> rfl

/-- An entry of the root belongs to the frame of its number and to no other. This is
`rangeOf?_correlate_root` with the range as a list. -/
theorem framesOf_correlate_root (entry : Nat) :
    (traces.correlate relations).framesOf root.category entry =
      root.frameNumbers[entry]?.toList := by
  rw [FrameTable.framesOf_eq, rangeOf?_correlate_root hroot]
  cases root.frameNumbers[entry]? with
  | none => rfl
  | some n =>
    rw [Option.map_some, Option.elim_some, FrameRange.frames, FrameRange.single,
      Nat.add_sub_cancel_left]
    rfl

/-- A table has as many frames as start from its root. Not more, since all frames are frames of the
root, and not fewer, since each is the frame of an entry of it. -/
theorem size_correlate : (traces.correlate relations).size = root.frameCount := by
  apply Nat.le_antisymm
  · refine (FrameTable.size_ofMaps_le_iff _ _).mpr fun c entry r hr => ?_
    obtain ⟨map, hmap, hr⟩ := FrameTable.rangeOf?_eq_some_iff.mp hr
    exact (within_frameMaps hroot relations hmap entry r hr).2
  · by_cases hzero : root.frameCount = 0
    · omega
    · -- The last number is in use, and the range of an entry that has it ends behind it.
      have hlast : root.frameCount - 1 ∈ root.frameNumbers := Trace.mem_frameNumbers.mpr (by omega)
      obtain ⟨entry, hentry⟩ := List.mem_iff_getElem?.mp hlast
      have hrange := rangeOf?_correlate_root hroot relations entry
      rw [hentry, Option.map_some] at hrange
      have hdual : (traces.correlate relations).Dual := FrameTable.dual_ofMaps _
      have hstop := hdual.stop_le_size _ _ _ hrange
      simp only [FrameRange.single] at hstop
      omega

/-- The frames of a table are numbered by the entries of its root, for whatever relations. -/
theorem numberedFrom_correlate : (traces.correlate relations).NumberedFrom root where
  size_eq := size_correlate hroot relations
  exists_framesOf_eq := by
    intro entry hentry
    rw [← root.length_frameNumbers] at hentry
    refine ⟨root.frameNumbers[entry], ?_⟩
    rw [framesOf_correlate_root hroot, List.getElem?_eq_getElem hentry, Option.toList_some]
  framesOf_ascending := by
    intro i k n m hik hn hm
    rw [framesOf_correlate_root hroot, Option.toList_eq_singleton_iff] at hn hm
    have hascends := ascends_toArray Nat.le_refl root.pairwise_frameNumbers
    exact hascends i k n m hik (by rwa [List.getElem?_toArray]) (by rwa [List.getElem?_toArray])
  exists_mem_framesOf := by
    intro n hn
    rw [size_correlate hroot, ← Trace.mem_frameNumbers] at hn
    obtain ⟨entry, hentry⟩ := List.mem_iff_getElem?.mp hn
    have hlt : entry < root.size := by
      rw [← root.length_frameNumbers]
      exact (List.getElem?_eq_some_iff.mp hentry).1
    refine ⟨entry, hlt, ?_⟩
    rw [framesOf_correlate_root hroot, hentry, Option.toList_some]
    exact List.mem_singleton_self n
  range_within := by
    intro c entry r hr
    obtain ⟨map, hmap, hr⟩ := FrameTable.rangeOf?_eq_some_iff.mp hr
    rw [size_correlate hroot]
    exact within_frameMaps hroot relations hmap entry r hr

end Root

/-- Without a root the table is empty, even if there are traces. -/
theorem correlate_of_root?_eq_none (hroot : traces.root? = none) (relations : List Relation) :
    traces.correlate relations = {} := by
  rw [correlate, frameMaps_of_root?_eq_none hroot, FrameTable.ofMaps_empty]

/-- More relations leave the number of frames as it is, with a root or without one. -/
theorem size_correlate_append (traces : Traces) (relations more : List Relation) :
    (traces.correlate (relations ++ more)).size = (traces.correlate relations).size := by
  cases hroot : traces.root? with
  | none => rw [correlate_of_root?_eq_none hroot, correlate_of_root?_eq_none hroot]
  | some root => rw [size_correlate hroot, size_correlate hroot]

/-- More relations leave the frames of all entries of a framed category as they are. A category that
is framed by them for the first time is another matter. -/
theorem framesOf_correlate_append (relations more : List Relation) {c : Category}
    (hframed : (traces.correlate relations).isFramed c = true) (entry : Nat) :
    (traces.correlate (relations ++ more)).framesOf c entry =
      (traces.correlate relations).framesOf c entry := by
  obtain ⟨map, hmap⟩ := CategoryMap.contains_iff.mp hframed
  have hmap' : (traces.correlate (relations ++ more)).maps.get? c = some map :=
    get?_frameMaps_append relations more hmap
  rw [FrameTable.framesOf, FrameTable.framesOf, hmap, hmap']

/-- **One numbering for all traces.** If no preferred category has entries, the table is empty.
Otherwise the trace of the first one that has numbers the frames: there is one for each run of equal
keys if every entry has a key, and otherwise one for each entry, without a gap and in the order of
the entries. All other entries belong to ranges of these frames, and none of the ranges is empty.
More relations change neither the number of frames nor the frames of a framed category. -/
theorem correlate_numbered (traces : Traces) (relations : List Relation) :
    ((∀ c ∈ Relation.roots, ¬traces.HasEntries c) → traces.correlate relations = {}) ∧
      (∀ before c after root, Relation.roots = before ++ c :: after →
        (∀ d ∈ before, ¬traces.HasEntries d) → traces.get? c = some root → root.isEmpty = false →
          (traces.correlate relations).NumberedFrom root) ∧
      ∀ more, (traces.correlate (relations ++ more)).size = (traces.correlate relations).size ∧
        ∀ c, (traces.correlate relations).isFramed c = true → ∀ entry,
          (traces.correlate (relations ++ more)).framesOf c entry =
            (traces.correlate relations).framesOf c entry := by
  refine ⟨fun hnone => ?_, fun before c after root hroots hbefore hget hentries => ?_,
    fun more => ?_⟩
  · exact correlate_of_root?_eq_none (root?_eq_none hnone) relations
  · exact numberedFrom_correlate (root?_eq_some hroots hbefore hget hentries) relations
  · exact ⟨size_correlate_append traces relations more,
      fun c hframed => framesOf_correlate_append relations more hframed⟩

/-- An empty recording leaves the numbering to the next trace, where two runs of keys give two
frames for three entries. -/
theorem numberedFrom_surfaceFlinger :
    let root := Trace.ofTimes .surfaceFlinger [5, 9, 25] (some [7, 7, 8])
    let traces := ofTraces [.ofTimes .screenRecording [], root, .ofTimes .windowManager [0, 2]]
    let table := traces.correlate Relation.defaults
    table.size = 2 ∧ table.NumberedFrom root := by
  intro root traces table
  have hrecording : traces.get? .screenRecording = some (.ofTimes .screenRecording []) := by cbv
  have hbefore : ∀ d ∈ [Category.screenRecording], ¬traces.HasEntries d := by
    rintro d hd ⟨t, ht, hentries⟩
    cases List.mem_singleton.mp hd
    cases hrecording.symm.trans ht
    contradiction
  have hroot : traces.get? .surfaceFlinger = some root := by cbv
  have hnumbered : table.NumberedFrom root :=
    (correlate_numbered traces Relation.defaults).2.1 _ _ _ root rfl hbefore hroot rfl
  exact ⟨hnumbered.size_eq.trans rfl, hnumbered⟩

end Traces

end FrameAlign
