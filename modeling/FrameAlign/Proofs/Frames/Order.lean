import FrameAlign.Proofs.Frames.Links
import FrameAlign.Proofs.Frames.Propagation
import FrameAlign.Proofs.Frames.Views
import Mathlib

/-!
# The order of frames

Frames are numbered in the order of the entries of the root, and no link goes backwards. So the
frames of every trace ascend with its entries, however many relations they have come through.
-/

namespace FrameAlign

namespace FrameMap

/-! ## The frames of the root -/

/-- Numbers never fall below the first, which carries the induction for their order. -/
theorem le_of_mem_runNumbers {frame n : Nat} {keys : List Int} (h : n ∈ runNumbers frame keys) :
    frame ≤ n := by
  fun_induction runNumbers frame keys with
  | case1 frame => nomatch h
  | case2 frame key =>
    cases List.mem_singleton.mp h
    exact Nat.le_refl _
  | case3 frame a b rest ih =>
    rcases List.mem_cons.mp h with rfl | hrest
    · exact Nat.le_refl _
    · have hle := ih hrest
      split at hle <;> omega

/-- Numbers of runs ascend, whatever the keys are: a key that comes again later starts
another run. -/
theorem pairwise_runNumbers (frame : Nat) (keys : List Int) :
    (runNumbers frame keys).Pairwise (· ≤ ·) := by
  fun_induction runNumbers frame keys with
  | case1 frame => exact .nil
  | case2 frame key => exact List.pairwise_singleton _ _
  | case3 frame a b rest ih =>
    refine List.pairwise_cons.mpr ⟨fun n hn => ?_, ih⟩
    have hle := le_of_mem_runNumbers hn
    split at hle <;> omega

/-- Entries with ascending numbers have ascending frames. Each has one frame, so the numbers are
both ends of its range. -/
theorem ascending_singles {numbers : List Nat} (h : numbers.Pairwise (· ≤ ·)) :
    Ascending (numbers.map fun frame => some (FrameRange.single frame)).toArray := by
  have hascends := ascends_toArray Nat.le_refl h
  intro i k a b hik ha hb
  simp only [List.getElem?_toArray, List.getElem?_map, Option.map_eq_some_iff,
    Option.some.injEq] at ha hb
  obtain ⟨n, hn, rfl⟩ := ha
  obtain ⟨m, hm, rfl⟩ := hb
  have hle : n ≤ m :=
    hascends i k n m hik (by rwa [List.getElem?_toArray]) (by rwa [List.getElem?_toArray])
  exact ⟨hle, Nat.succ_le_succ hle⟩

/-- The frames that the numbering starts with ascend, whatever the keys are, also when there are too
few of them to be used. -/
theorem ascending_root (size : Nat) (keys : Option (List Int)) : (root size keys).Ascending := by
  have hrange : (List.range size).Pairwise (· ≤ ·) :=
    List.pairwise_lt_range.imp Nat.le_of_lt
  refine ascending_singles ?_
  split
  · split
    · exact pairwise_runNumbers 0 _
    · exact hrange
  · exact hrange

/-- Bringing a map to the size of its trace keeps its order, since entries are only cut off or added
without frames. -/
theorem Ascending.resize {map : FrameMap} (h : map.Ascending) (size : Nat) :
    (map.resize size).Ascending := by
  intro i k a b hik ha hb
  simp only [getElem?_resize, Option.ite_none_right_eq_some, Option.some.injEq,
    Option.join_eq_some_iff] at ha hb
  exact h i k a b hik ha.2 hb.2

end FrameMap

/-! ## Ascending times and keys -/

/-- The times of an ascending trace ascend, so the searches of links are right for them. -/
theorem Trace.Ascending.ascends_times {t : Trace} (h : t.Ascending) : Ascends t.times :=
  ascends_toArray (fun a : Nanos => Int.le_refl a.val) (List.pairwise_map.mpr h)

/-- No key is less than one before it, if there is one for each entry. Incomplete keys are not used
for linking, so nothing is asked of them. -/
def Trace.KeysAscend (t : Trace) : Prop := ∀ keys ∈ t.completeVsyncIds?, keys.Pairwise (· ≤ ·)

/-- Keys are finitely many numbers, so a concrete trace can be checked. -/
instance (t : Trace) : Decidable t.KeysAscend :=
  inferInstanceAs (Decidable (∀ keys ∈ t.completeVsyncIds?, keys.Pairwise (· ≤ ·)))

/-- The keys of both traces of a relation ascend, if it is their keys that it relates. Relations by
time ask nothing of keys. -/
def Traces.KeysAscend (traces : Traces) (r : Relation) : Prop :=
  r.link = .matchingVsync → ∀ c ∈ [r.target, r.source], ∀ t ∈ traces.get? c, t.KeysAscend

/-- The same for a relation between concrete traces. -/
instance (traces : Traces) (r : Relation) : Decidable (traces.KeysAscend r) :=
  inferInstanceAs (Decidable (_ → ∀ c ∈ [r.target, r.source], ∀ t ∈ traces.get? c, t.KeysAscend))

/-! ## Every relation keeps the order -/

/-- Frames that ascend with the entries of the source ascend with those of the target, for every
kind of link. So the order is kept however many relations are followed. -/
theorem Relation.ascending_propagate {r : Relation} {target source : Trace}
    {frames map : FrameMap} (hframes : frames.Ascending) (htarget : target.Ascending)
    (hsource : source.Ascending)
    (hkeys : r.link = .matchingVsync → target.KeysAscend ∧ source.KeysAscend)
    (hmap : r.propagate target source frames = some map) : map.Ascending := by
  have htimes := htarget.ascends_times
  have htimes' := hsource.ascends_times
  rw [propagate] at hmap
  split at hmap
  · next hlink =>
    simp only [Option.bind_eq_bind, Option.bind_eq_some_iff, Option.pure_def,
      Option.some.injEq] at hmap
    obtain ⟨targetKeys, htargetKeys, sourceKeys, hsourceKeys, rfl⟩ := hmap
    obtain ⟨hascend, hascend'⟩ := hkeys hlink
    exact FrameMap.ascending_matchingKey hframes
      (ascends_toArray Int.le_refl (hascend _ htargetKeys))
      (ascends_toArray Int.le_refl (hascend' _ hsourceKeys))
  · cases hmap
    exact FrameMap.ascending_latestBefore hframes htimes htimes'
  · cases hmap
    exact FrameMap.ascending_followingInterval hframes htimes htimes'
  · cases hmap
    exact FrameMap.ascending_precedingInterval hframes htimes htimes'
  · cases hmap
    exact FrameMap.ascending_nearest hframes htimes htimes'

/-- **Frames ascend in time.** If the timestamps of all traces ascend, and the keys wherever a
relation compares them, a later entry of a trace belongs to no earlier frames: of two entries with
frames, the frames of the first start no later and end no later than those of the second. -/
theorem Traces.correlate_noLater {traces : Traces} {relations : List Relation}
    (htimes : ∀ t ∈ traces.values, t.Ascending)
    (hkeys : ∀ r ∈ relations, traces.KeysAscend r)
    {c : Category} {i k : Nat} (hik : i < k) {a b : FrameRange}
    (ha : (traces.correlate relations).rangeOf? c i = some a)
    (hb : (traces.correlate relations).rangeOf? c k = some b) : a.NoLater b := by
  obtain ⟨map, hmap, ha⟩ := rangeOf?_correlate_eq_some_iff.mp ha
  obtain ⟨_, hmap', hb⟩ := rangeOf?_correlate_eq_some_iff.mp hb
  cases hmap.symm.trans hmap'
  suffices hascending : map.Ascending from hascending i k a b (Nat.le_of_lt hik) ha hb
  refine frameMaps_induction (fun root _ => FrameMap.ascending_root root.size root.vsyncIds) ?_ hmap
    (P := fun _ map => map.Ascending)
  rintro r hr frames _ hframes ⟨htarget, hsource, hpropagate⟩
  refine FrameMap.Ascending.resize ?_ _
  refine r.ascending_propagate hframes (htimes _ ?_) (htimes _ ?_) ?_ hpropagate
  · exact CategoryMap.mem_values.mpr ⟨_, htarget⟩
  · exact CategoryMap.mem_values.mpr ⟨_, hsource⟩
  · intro hlink
    have hboth := hkeys r hr hlink
    exact ⟨hboth _ (by simp) _ htarget, hboth _ (by simp) _ hsource⟩

/-- A trace with entries at the given real times, and with their keys if there are some. Concrete
inputs are written with it. -/
def Trace.ofTimes (c : Category) (times : List Int) (keys : Option (List Int) := none) : Trace where
  id := ⟨c, 0⟩
  size := times.length
  timestamps := times.map fun time => .real (.clamp time)
  vsyncIds := keys
  dated := Or.inr (List.length_map _)

/-- Four links hand the frames of a recording on to the clients. The second client is as far from
the window manager entry before it as from the one after it. -/
theorem noLater_inputMethodClients :
    let traces := Traces.ofTraces [.ofTimes .screenRecording [10, 20, 30],
      .ofTimes .surfaceFlinger [5, 9, 25] (some [7, 7, 8]),
      .ofTimes .transactions [1, 2] (some [7, 8]), .ofTimes .windowManager [0, 2],
      .ofTimes .inputMethodClients [1, 1, 3]]
    let table := traces.correlate Relation.defaults
    table.rangeOf? .inputMethodClients 1 = some ⟨0, 2⟩ ∧
      table.rangeOf? .inputMethodClients 2 = some ⟨2, 3⟩ ∧ FrameRange.NoLater ⟨0, 2⟩ ⟨2, 3⟩ := by
  intro traces table
  have hmap : (traces.frameMaps Relation.defaults).get? .inputMethodClients =
      some #[some ⟨0, 2⟩, some ⟨0, 2⟩, some ⟨2, 3⟩] := by
    -- A hash map does not evaluate, so what is collected for a key is written out before.
    delta Traces.frameMaps Traces.follow Relation.propagate
    simp only [FrameMap.matchingKey_eq]
    cbv
  have ha : table.rangeOf? .inputMethodClients 1 = some ⟨0, 2⟩ :=
    Traces.rangeOf?_correlate_eq_some_iff.mpr ⟨_, hmap, rfl⟩
  have hb : table.rangeOf? .inputMethodClients 2 = some ⟨2, 3⟩ :=
    Traces.rangeOf?_correlate_eq_some_iff.mpr ⟨_, hmap, rfl⟩
  have htimes : ∀ t ∈ traces.values, t.Ascending := by decide
  have hkeys : ∀ r ∈ Relation.defaults, traces.KeysAscend r := by decide
  exact ⟨ha, hb, Traces.correlate_noLater htimes hkeys (by decide) ha hb⟩

end FrameAlign
