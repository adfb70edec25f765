import FrameAlign.Proofs.Frames.Order
import Mathlib

/-!
# Traces moved in time

Links compare times, measure distances between them and add gaps to them. If all traces are moved by
one amount, none of these changes, and so the frames stay the same, as long as no time and no sum
leaves the range of counts. The statements follow a table from the searches up: each search finds
the same place, each link the same entries and each relation hands the same frames on.
-/

namespace FrameAlign

namespace Nanos

/-- The count `k` nanoseconds later, stopped at the ends of the range. The hypotheses below keep it
from stopping. -/
def shift (k : Int) (t : Nanos) : Nanos := clamp (t.val + k)

variable {k : Int} {a b gap : Nanos}

/-- Within the range a moved count is the sum. -/
theorem val_shift (h : Fits (a.val + k)) : (a.shift k).val = a.val + k := val_clamp_of_mem h.1 h.2

/-- Times that are moved alike compare alike, so searches end at the same places. -/
theorem shift_lt_shift_iff (ha : Fits (a.val + k)) (hb : Fits (b.val + k)) :
    a.shift k < b.shift k ↔ a < b := by
  rw [lt_def, lt_def, val_shift ha, val_shift hb]
  omega

/-- Times that are moved alike stay as far from each other, so the same ones are within the gap. The
difference may saturate; it does so in both cases. -/
theorem satSub_shift_shift (ha : Fits (a.val + k)) (hb : Fits (b.val + k)) :
    (a.shift k).satSub (b.shift k) = a.satSub b := by
  have hdistance : a.val + k - (b.val + k) = a.val - b.val := by omega
  rw [satSub, satSub, val_shift ha, val_shift hb, hdistance]

/-- A sum with a gap within the range moves with its start. A sum that stops at the end of the range
would stay where it is. -/
theorem satAdd_shift (ha : Fits (a.val + k)) (hsum : Fits (a.val + gap.val)) :
    (a.shift k).satAdd gap = (a.satAdd gap).shift k := by
  have hsum' : (a.satAdd gap).val = a.val + gap.val := val_clamp_of_mem hsum.1 hsum.2
  have hmoved : a.val + k + gap.val = a.val + gap.val + k := by omega
  rw [satAdd, val_shift ha, shift, hsum', hmoved]

end Nanos

/-! ## Searches -/

namespace FrameMap

section Searches

variable {k : Int} {values : Array Nanos} {t : Nanos}
  (hvalues : ∀ v ∈ values, Nanos.Fits (v.val + k)) (ht : Nanos.Fits (t.val + k))

include hvalues ht

/-- As many values lie before a moment, since the search asks only for comparisons. -/
theorem countBefore_shift :
    countBefore (values.map (·.shift k)) (t.shift k) = countBefore values t := by
  refine bisect_map fun v hv => ?_
  rw [decide_eq_decide]
  exact Nanos.shift_lt_shift_iff (hvalues v hv) ht

/-- The last value before a moment is the same one, moved. -/
theorem lastBefore?_shift :
    lastBefore? (values.map (·.shift k)) (t.shift k) =
      (lastBefore? values t).map fun found => (found.1, found.2.shift k) := by
  rw [lastBefore?, lastBefore?, countBefore_shift hvalues ht]
  cases countBefore values t with
  | zero => rfl
  | succ i => simp only [Array.getElem?_map, Option.map_map, Function.comp_def]

/-- The first value at or after a moment is the same one, moved. -/
theorem firstFrom?_shift :
    firstFrom? (values.map (·.shift k)) (t.shift k) =
      (firstFrom? values t).map fun found => (found.1, found.2.shift k) := by
  simp only [firstFrom?, countBefore_shift hvalues ht, Array.getElem?_map, Option.map_map,
    Function.comp_def]

/-- The closest value is the same one, as far away. Its distance is not moved, as it is the
difference of two times that are. -/
theorem closest?_shift : closest? (values.map (·.shift k)) (t.shift k) = closest? values t := by
  have hbefore : ∀ i v, lastBefore? values t = some (i, v) →
      (t.shift k).satSub (v.shift k) = t.satSub v := by
    intro i v hv
    have hmem := Array.mem_of_getElem? (lastBefore?_eq_some_iff.mp hv).2
    exact Nanos.satSub_shift_shift ht (hvalues v hmem)
  have hafter : ∀ j v, firstFrom? values t = some (j, v) →
      (v.shift k).satSub (t.shift k) = v.satSub t := by
    intro j v hv
    have hmem := Array.mem_of_getElem? (firstFrom?_eq_some_iff.mp hv).2
    exact Nanos.satSub_shift_shift (hvalues v hmem) ht
  rw [closest?, closest?, lastBefore?_shift hvalues ht, firstFrom?_shift hvalues ht]
  cases hlast : lastBefore? values t with
  | none => cases hfirst : firstFrom? values t with
    | none => rfl
    | some after => simp only [Option.map_none, Option.map_some, hafter _ _ hfirst]
  | some before => cases hfirst : firstFrom? values t with
    | none => simp only [Option.map_none, Option.map_some, hbefore _ _ hlast]
    | some after => simp only [Option.map_some, hbefore _ _ hlast, hafter _ _ hfirst]

end Searches

/-! ## Links -/

section Links

variable {k : Int} {target source : Array Nanos} {gap : Nanos}
  (htarget : ∀ t ∈ target, Nanos.Fits (t.val + k)) (hsource : ∀ s ∈ source, Nanos.Fits (s.val + k))

include htarget in
/-- A source entry hands its frames to the same target entry. -/
theorem latestTarget?_shift {s : Nanos} (hs : Nanos.Fits (s.val + k)) :
    latestTarget? (target.map (·.shift k)) gap (s.shift k) = latestTarget? target gap s := by
  rw [latestTarget?, latestTarget?, lastBefore?_shift htarget hs]
  cases hlast : lastBefore? target s with
  | none => rfl
  | some found =>
    have hmem := Array.mem_of_getElem? (lastBefore?_eq_some_iff.mp hlast).2
    have hdistance := Nanos.satSub_shift_shift hs (htarget _ hmem)
    by_cases hgap : s.satSub found.2 ≤ gap <;> simp [Option.filter_some, hdistance, hgap]

include hsource in
/-- A target entry takes the frames of the same source entry as the first one from it on. -/
theorem precedingSource?_shift {t : Nanos} (ht : Nanos.Fits (t.val + k)) :
    precedingSource? (source.map (·.shift k)) gap (t.shift k) = precedingSource? source gap t := by
  rw [precedingSource?, precedingSource?, firstFrom?_shift hsource ht]
  cases hfirst : firstFrom? source t with
  | none => rfl
  | some found =>
    have hmem := Array.mem_of_getElem? (firstFrom?_eq_some_iff.mp hfirst).2
    have hdistance := Nanos.satSub_shift_shift (hsource _ hmem) ht
    by_cases hgap : found.2.satSub t ≤ gap <;> simp [Option.filter_some, hdistance, hgap]

include hsource in
/-- A target entry takes the frames of the same source entry as the closest one. -/
theorem nearestSource?_shift {t : Nanos} (ht : Nanos.Fits (t.val + k)) :
    nearestSource? (source.map (·.shift k)) gap (t.shift k) = nearestSource? source gap t := by
  rw [nearestSource?, nearestSource?, closest?_shift hsource ht]

include htarget in
/-- Where every target entry takes the frames of a source entry that does not move, it takes the
same ones. Two kinds of links are of this form. -/
theorem map_source_shift {frames : FrameMap} {from? moved? : Nanos → Option Nat}
    (hfrom : ∀ t, Nanos.Fits (t.val + k) → moved? (t.shift k) = from? t) :
    ((target.map (·.shift k)).map fun t => (moved? t).bind fun j => frames[j]?.join) =
      target.map fun t => (from? t).bind fun j => frames[j]?.join := by
  rw [Array.map_map]
  refine Array.map_congr_left fun t ht => ?_
  rw [Function.comp_apply, hfrom t (htarget t ht)]

/-- The moment up to which an entry takes frames moves with the entries and the gap, and stays
within the range, so that it can be searched for. -/
theorem followingStop_shift {i : Nat} {start : Nanos} (hstart : Nanos.Fits (start.val + k))
    (hnext : ∀ next, target[i + 1]? = some next → Nanos.Fits (next.val + k))
    (hsum : Nanos.Fits (start.val + gap.val)) (hsum' : Nanos.Fits (start.val + k + gap.val)) :
    followingStop (target.map (·.shift k)) gap i (start.shift k) =
        (followingStop target gap i start).shift k ∧
      Nanos.Fits ((followingStop target gap i start).val + k) := by
  have hval : (start.satAdd gap).val = start.val + gap.val :=
    Nanos.val_clamp_of_mem hsum.1 hsum.2
  have hmoved : start.val + k + gap.val = start.val + gap.val + k := by omega
  have hlimit : Nanos.Fits ((start.satAdd gap).val + k) := by rwa [hval, ← hmoved]
  rw [followingStop, followingStop, Array.getElem?_map, Nanos.satAdd_shift hstart hsum]
  cases htarget : target[i + 1]? with
  | none => exact ⟨rfl, hlimit⟩
  | some next =>
    have hiff := Nanos.shift_lt_shift_iff (hnext next htarget) hlimit
    simp only [Option.map_some, hiff]
    split
    · exact ⟨rfl, hnext next htarget⟩
    · exact ⟨rfl, hlimit⟩

include htarget hsource

/-- By `latestBefore` the moved target gets the same frames. -/
theorem latestBefore_shift (frames : FrameMap) :
    latestBefore (target.map (·.shift k)) (source.map (·.shift k)) frames gap =
      latestBefore target source frames gap := by
  rw [latestBefore_eq, latestBefore_eq, Array.size_map, Array.toList_zip, Array.toList_zip,
    Array.toList_map, List.zip_map_left, List.foldl_map]
  refine List.foldl_ext _ _ _ fun map s hs => ?_
  have hmem : s.1 ∈ source := Array.mem_toList_iff.mp (List.of_mem_zip hs).1
  rw [Prod.map_fst, Prod.map_snd, latestTarget?_shift htarget (hsource _ hmem)]
  rfl

/-- By `precedingInterval` the moved target gets the same frames. -/
theorem precedingInterval_shift (frames : FrameMap) :
    precedingInterval (target.map (·.shift k)) (source.map (·.shift k)) frames gap =
      precedingInterval target source frames gap := by
  rw [precedingInterval_eq, precedingInterval_eq]
  exact map_source_shift htarget fun t ht => precedingSource?_shift hsource ht

/-- By `nearest` the moved target gets the same frames. -/
theorem nearest_shift (frames : FrameMap) :
    nearest (target.map (·.shift k)) (source.map (·.shift k)) frames gap =
      nearest target source frames gap := by
  rw [nearest_eq, nearest_eq]
  exact map_source_shift htarget fun t ht => nearestSource?_shift hsource ht

/-- By `followingInterval` the moved target gets the same frames. This is the one link that adds the
gap to a time, so the sums have to be in the range. -/
theorem followingInterval_shift (frames : FrameMap)
    (hsum : ∀ t ∈ target, Nanos.Fits (t.val + gap.val))
    (hsum' : ∀ t ∈ target, Nanos.Fits (t.val + k + gap.val)) :
    followingInterval (target.map (·.shift k)) (source.map (·.shift k)) frames gap =
      followingInterval target source frames gap := by
  rw [followingInterval_eq, followingInterval_eq]
  refine Array.ext_getElem? fun i => ?_
  rw [Array.getElem?_mapIdx, Array.getElem?_mapIdx, Array.getElem?_map]
  cases hget : target[i]? with
  | none => simp only [Option.map_none]
  | some start =>
    have hmem := Array.mem_of_getElem? hget
    obtain ⟨hstop, hfits⟩ := followingStop_shift (i := i) (htarget start hmem)
      (fun next hnext => htarget next (Array.mem_of_getElem? hnext)) (hsum start hmem)
      (hsum' start hmem)
    simp only [Option.map_some, hstop, countBefore_shift hsource (htarget start hmem),
      countBefore_shift hsource hfits]

end Links

end FrameMap

/-! ## Tables -/

/-- The moment `k` nanoseconds later on the same clock. Clocks play no part in the correlation. -/
def Timestamp.shift (k : Int) (s : Timestamp) : Timestamp := { s with value := s.value.shift k }

/-- The trace with all its entries `k` nanoseconds later. Its keys and its size stay. -/
def Trace.shift (k : Int) (t : Trace) : Trace :=
  { t with
    timestamps := t.timestamps.map (·.shift k)
    dated := t.dated.imp (fun h => by rw [h, List.map_nil]) fun h => by rw [List.length_map, h] }

/-- The times of a moved trace are moved times. -/
theorem Trace.times_shift (k : Int) (t : Trace) : (t.shift k).times = t.times.map (·.shift k) := by
  simp only [times, shift, List.map_map, List.map_toArray]
  rfl

/-- What holds of the counts of all timestamps holds of all times. The hypotheses of a table are
about timestamps, those of links about times. -/
theorem Trace.forall_mem_times {t : Trace} {P : Nanos → Prop} (h : ∀ s ∈ t.timestamps, P s.value) :
    ∀ v ∈ t.times, P v := by
  intro v hv
  rw [times, List.mem_toArray] at hv
  obtain ⟨s, hs, rfl⟩ := List.mem_map.mp hv
  exact h s hs

/-- All traces `k` nanoseconds later. -/
def Traces.shift (k : Int) (traces : Traces) : Traces := traces.map (·.shift k)

/-- Traces that are moved alike get the same frames along a relation. Whether the link can be
evaluated depends on keys, which do not move. -/
theorem Relation.propagate_shift {r : Relation} {k : Int} {target source : Trace}
    (frames : FrameMap) (htarget : ∀ s ∈ target.timestamps, Nanos.Fits (s.value.val + k))
    (hsource : ∀ s ∈ source.timestamps, Nanos.Fits (s.value.val + k))
    (hsum : ∀ s ∈ target.timestamps, Nanos.Fits (s.value.val + r.maxGap.val) ∧
      Nanos.Fits (s.value.val + k + r.maxGap.val)) :
    r.propagate (target.shift k) (source.shift k) frames = r.propagate target source frames := by
  have htarget' : ∀ v ∈ target.times, Nanos.Fits (v.val + k) := Trace.forall_mem_times htarget
  have hsource' : ∀ v ∈ source.times, Nanos.Fits (v.val + k) := Trace.forall_mem_times hsource
  have hsum' : ∀ v ∈ target.times, Nanos.Fits (v.val + r.maxGap.val) ∧
      Nanos.Fits (v.val + k + r.maxGap.val) := Trace.forall_mem_times hsum
  rw [propagate, propagate, Trace.times_shift, Trace.times_shift]
  cases r.link with
  | matchingVsync => rfl
  | latestBefore => exact congrArg some (FrameMap.latestBefore_shift htarget' hsource' frames)
  | followingInterval =>
    exact congrArg some (FrameMap.followingInterval_shift htarget' hsource' frames
      (fun t ht => (hsum' t ht).1) fun t ht => (hsum' t ht).2)
  | precedingInterval =>
    exact congrArg some (FrameMap.precedingInterval_shift htarget' hsource' frames)
  | nearest => exact congrArg some (FrameMap.nearest_shift htarget' hsource' frames)

namespace Traces

/-- The numbering starts from the same trace, as moving leaves every trace as many entries
as it had. -/
theorem root?_shift (k : Int) (traces : Traces) :
    (traces.shift k).root? = traces.root?.map (·.shift k) := by
  have hget : (traces.shift k).get? = fun c => (traces.get? c).map (·.shift k) :=
    funext fun c => CategoryMap.get?_map _ _ c
  rw [root?, root?, hget, ← List.map_filterMap, List.find?_map]
  rfl

/-- Frames flow alike along a relation, from the same frames before it. The table of frames needs no
move, as it holds no times. -/
theorem follow_shift {k : Int} {traces : Traces} {r : Relation} (maps : CategoryMap FrameMap)
    (htimes : ∀ t ∈ traces.values, ∀ s ∈ t.timestamps, Nanos.Fits (s.value.val + k))
    (hsums : ∀ t ∈ traces.values, ∀ s ∈ t.timestamps,
      Nanos.Fits (s.value.val + r.maxGap.val) ∧ Nanos.Fits (s.value.val + k + r.maxGap.val)) :
    (traces.shift k).follow maps r = traces.follow maps r := by
  rw [follow, follow, shift, CategoryMap.get?_map, CategoryMap.get?_map]
  split
  · rfl
  · cases htarget : traces.get? r.target with
    | none => rfl
    | some target => cases hsource : traces.get? r.source with
      | none => rfl
      | some source => cases maps.get? r.source with
        | none => rfl
        | some frames =>
          have htarget' := CategoryMap.mem_values.mpr ⟨_, htarget⟩
          have hsource' := CategoryMap.mem_values.mpr ⟨_, hsource⟩
          simp only [Option.map_some, r.propagate_shift frames (htimes target htarget')
            (htimes source hsource') (hsums target htarget')]
          rfl

/-- **Only relative time counts.** If all traces are moved by `k` nanoseconds, in whatever order
their timestamps are, the table of their frames stays the same, provided that every moved time and
every sum of a time, moved or not, and the gap of a relation is in the range of counts. -/
theorem correlate_shift {traces : Traces} {relations : List Relation} {k : Int}
    (htimes : ∀ t ∈ traces.values, ∀ s ∈ t.timestamps, Nanos.Fits (s.value.val + k))
    (hsums : ∀ r ∈ relations, ∀ t ∈ traces.values, ∀ s ∈ t.timestamps,
      Nanos.Fits (s.value.val + r.maxGap.val) ∧ Nanos.Fits (s.value.val + k + r.maxGap.val)) :
    (traces.shift k).correlate relations = traces.correlate relations := by
  have hmaps : (traces.shift k).frameMaps relations = traces.frameMaps relations := by
    rw [frameMaps, frameMaps, root?_shift]
    cases traces.root? with
    | none => rfl
    | some root =>
      refine List.foldl_ext _ _ _ fun maps r hr => ?_
      exact follow_shift maps htimes (hsums r hr)
  rw [correlate, correlate, hmaps]

/-- All four links that look at times, on a clock that starts with the recording and on one that
starts in 1970. The client is as far from the window manager entry before it as from the next. -/
theorem correlate_shift_to_date :
    let traces := ofTraces [.ofTimes .screenRecording [10, 20, 30],
      .ofTimes .surfaceFlinger [5, 9, 25], .ofTimes .windowManager [4, 8, 24],
      .ofTimes .protoLog [7, 9], .ofTimes .inputMethodClients [16]]
    let relations : List Relation :=
      [{ target := .surfaceFlinger, source := .screenRecording, link := .latestBefore },
        { target := .windowManager, source := .surfaceFlinger, link := .followingInterval },
        { target := .protoLog, source := .windowManager, link := .precedingInterval },
        { target := .inputMethodClients, source := .windowManager, link := .nearest }]
    let moved := traces.shift 1700000000000000000
    moved.correlate relations = traces.correlate relations ∧
      (moved.correlate relations).rangeOf? .protoLog 1 = some ⟨2, 3⟩ ∧
      (moved.correlate relations).rangeOf? .inputMethodClients 0 = some ⟨0, 2⟩ := by
  intro traces relations moved
  have htimes : ∀ t ∈ traces.values, ∀ s ∈ t.timestamps,
      Nanos.Fits (s.value.val + 1700000000000000000) := by decide
  have hsums : ∀ r ∈ relations, ∀ t ∈ traces.values, ∀ s ∈ t.timestamps,
      Nanos.Fits (s.value.val + r.maxGap.val) ∧
        Nanos.Fits (s.value.val + 1700000000000000000 + r.maxGap.val) := by decide
  have hsame : moved.correlate relations = traces.correlate relations :=
    correlate_shift htimes hsums
  rw [hsame]
  have hlog : (traces.frameMaps relations).get? .protoLog = some #[some ⟨0, 2⟩, some ⟨2, 3⟩] := by
    cbv
  have hclients : (traces.frameMaps relations).get? .inputMethodClients =
      some #[some ⟨0, 2⟩] := by cbv
  exact ⟨rfl, rangeOf?_correlate_eq_some_iff.mpr ⟨_, hlog, rfl⟩,
    rangeOf?_correlate_eq_some_iff.mpr ⟨_, hclients, rfl⟩⟩

end Traces

end FrameAlign
