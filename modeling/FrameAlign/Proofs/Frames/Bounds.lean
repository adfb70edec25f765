import FrameAlign.Proofs.Frames.Numbering
import Mathlib

/-!
# Nothing out of bounds

The frames of traces are computed here once more, by steps that can fail: to read, to change or to
cut out items that are not there, to count down from zero, and to keep a number that is no count of
nanoseconds. It is shown link by link that the guards in front of these steps suffice: the strict
computation never fails, and what it finds is what is found without it.

Nothing is assumed of the order of the times of a trace, nor of its keys. Of the number of its times
the type of traces knows that there is one for each entry or none, `Trace.dated`. The proofs make no
use of that: a time is only ever looked up among the times, and frames are looked up by places that
need not be there.
-/

namespace FrameAlign

/-! ## Steps that can fail -/

namespace Strict

/-- The number as a count of nanoseconds, which it has to be. An operation on counts that leaves the
range fails here. -/
def count (n : Int) : Option Nanos :=
  if h : Nanos.Fits n then some ⟨n, h.1, h.2⟩ else none

/-- The sum of two counts, stopped at the ends of the range and then kept as a count. The sum itself
is taken of whole numbers, so that the stop has something to do. -/
def satAdd (a b : Nanos) : Option Nanos :=
  count (max (-9223372036854775808) (min (a.val + b.val) 9223372036854775807))

/-- The difference of two counts, stopped at the ends of the range and then kept as a count. The
difference of the last and the first count needs the stop. -/
def satSub (a b : Nanos) : Option Nanos :=
  count (max (-9223372036854775808) (min (a.val - b.val) 9223372036854775807))

variable {α β : Type}

/-- The item at a place of the array. To read where there is none is a failure, not a default. -/
def read (xs : Array α) (i : Nat) : Option α := xs[i]?

/-- The array with the item at one of its places changed. A place behind the end is a failure,
whereas the library leaves the array as it is. -/
def modify (xs : Array α) (i : Nat) (f : α → α) : Option (Array α) :=
  if i < xs.size then some (xs.modify i f) else none

/-- The items from one place of the array up to another. The places have to be in order and within
the array; the library would cut off what is not. -/
def slice (xs : Array α) (start stop : Nat) : Option (Array α) :=
  if start ≤ stop ∧ stop ≤ xs.size then some (xs.extract start stop) else none

/-- A stopped sum is a count, so this step never fails. -/
theorem satAdd_eq (a b : Nanos) : satAdd a b = some (a.satAdd b) :=
  dif_pos ⟨by omega, by omega⟩

/-- A stopped difference is a count, so this step never fails. -/
theorem satSub_eq (a b : Nanos) : satSub a b = some (a.satSub b) :=
  dif_pos ⟨by omega, by omega⟩

/-- Without the stop a difference can be no count. -/
example : count (0 - -9223372036854775808) = none := by decide

/-- An interval that ends before it starts is not cut out. -/
example : slice #[1, 2] 2 1 = none := by decide

/-- A fold does not fail if no step fails on what the steps before it made. The property carries
what a step needs of those before it, such as the size of an array. -/
theorem foldlM_eq_some {P : β → Prop} {f : β → α → Option β} {g : β → α → β} (items : List α)
    (hstep : ∀ acc, P acc → ∀ x ∈ items, f acc x = some (g acc x) ∧ P (g acc x)) :
    ∀ acc, P acc → items.foldlM f acc = some (items.foldl g acc) ∧ P (items.foldl g acc) := by
  induction items with
  | nil => exact fun acc hacc => ⟨rfl, hacc⟩
  | cons x items ih =>
    intro acc hacc
    obtain ⟨hx, hnext⟩ := hstep acc hacc x List.mem_cons_self
    rw [List.foldlM_cons, hx, List.foldl_cons]
    exact ih (fun acc hacc y hy => hstep acc hacc y (List.mem_cons_of_mem x hy)) _ hnext

/-- A map does not fail if it does not fail on any item. Each item is treated apart from
the others. -/
theorem mapM_eq_some {f : α → Option β} {g : α → β} {items : List α}
    (h : ∀ x ∈ items, f x = some (g x)) : items.mapM f = some (items.map g) := by
  induction items with
  | nil => rfl
  | cons x items ih =>
    rw [List.mapM_cons, h x List.mem_cons_self,
      ih fun y hy => h y (List.mem_cons_of_mem x hy)]
    rfl

/-- The same for the items of an array, which is how links go through their target entries. -/
theorem array_mapM_eq_some {f : α → Option β} {g : α → β} {xs : Array α}
    (h : ∀ x ∈ xs, f x = some (g x)) : xs.mapM f = some (xs.map g) := by
  have hlist : xs.toList.mapM f = some (xs.toList.map g) :=
    mapM_eq_some fun x hx => h x (Array.mem_toList_iff.mp hx)
  rw [Array.mapM_eq_mapM_toList, hlist, Option.map_eq_map, Option.map_some, ← Array.toList_map]

/-! ## The numbering -/

/-- Whether a key differs from the one in front of it among all keys. The place in front of the
first key is a count down from zero, which the guard keeps off. -/
def isApart (keys : Array Int) (key : Int) (i : Nat) : Option Bool :=
  if i = 0 then some false
  else do
    let before ← read keys (← i.ppred)
    return decide (before ≠ key)

/-- Numbers keys with their places, a new number for each key apart from the one in front of it.
Keys are looked up by their places, so the key in front has to be there. -/
def numberKeys (keys : Array Int) (frame : Nat) : List (Int × Nat) → Option (List Nat)
  | [] => some []
  | (key, i) :: rest => do
    let frame := if ← isApart keys key i then frame + 1 else frame
    return frame :: (← numberKeys keys frame rest)

/-- The frames of the trace that the numbering starts from. Keys are compared only if there is one
for each entry. -/
def root (size : Nat) (keys : Option (List Int)) : Option FrameMap := do
  let numbers ←
    match keys with
    | some ks =>
      if ks.length = size then numberKeys ks.toArray 0 ks.zipIdx else some (List.range size)
    | none => some (List.range size)
  return (numbers.map fun frame => some (FrameRange.single frame)).toArray

/-- One key is numbered, and then the rest. The two steps that can fail are the hypotheses. -/
theorem numberKeys_cons {keys : Array Int} {key : Int} {i : Nat} {apart : Bool} {frame : Nat}
    {rest : List (Int × Nat)} {numbers : List Nat} (hapart : isApart keys key i = some apart)
    (hrest : numberKeys keys (if apart then frame + 1 else frame) rest = some numbers) :
    numberKeys keys frame ((key, i) :: rest) =
      some ((if apart then frame + 1 else frame) :: numbers) := by
  simp only [numberKeys, hapart, hrest, Option.bind_eq_bind, Option.bind_some]
  rfl

/-- Behind a key that is there the others are numbered on. By induction on the others, with those
before in the statement, since each key is compared with the last of them. -/
theorem numberKeys_behind {keys before rest : List Int} {key : Int} (frame : Nat)
    (hkeys : keys = before ++ key :: rest) :
    numberKeys keys.toArray frame (rest.zipIdx (before.length + 1)) =
      some (FrameMap.runNumbers frame (key :: rest)).tail := by
  induction rest generalizing before key frame with
  | nil => rfl
  | cons next rest ih =>
    have hread : read keys.toArray before.length = some key := by
      rw [read, List.getElem?_toArray, hkeys, List.getElem?_append_right (Nat.le_refl _),
        Nat.sub_self]
      rfl
    have hapart : isApart keys.toArray next (before.length + 1) = some (decide (key ≠ next)) := by
      rw [isApart, if_neg (Nat.succ_ne_zero _), Nat.ppred_succ, Option.bind_eq_bind,
        Option.bind_some, hread]
      rfl
    have hsplit : keys = (before ++ [key]) ++ next :: rest := by
      rw [hkeys, List.append_assoc, List.singleton_append]
    have hrest := ih (if decide (key ≠ next) then frame + 1 else frame) hsplit
    rw [List.length_append, List.length_singleton] at hrest
    rw [List.zipIdx_cons, numberKeys_cons hapart hrest]
    by_cases hequal : key = next <;> cases rest <;> simp [FrameMap.runNumbers, hequal]

/-- Numbering all keys compares no key with one that is not there. The first has none in front of it
and is not compared. -/
theorem numberKeys_eq (keys : List Int) :
    numberKeys keys.toArray 0 keys.zipIdx = some (FrameMap.runNumbers 0 keys) := by
  cases keys with
  | nil => rfl
  | cons key rest =>
    have hapart : isApart (key :: rest).toArray key 0 = some false := rfl
    have hrest : numberKeys (key :: rest).toArray 0 (rest.zipIdx 1) =
        some (FrameMap.runNumbers 0 (key :: rest)).tail :=
      numberKeys_behind 0 (List.nil_append (key :: rest)).symm
    rw [List.zipIdx_cons, numberKeys_cons hapart hrest]
    cases rest <;> rfl

/-- The numbering never fails, whether there are keys or not. -/
theorem root_eq (size : Nat) (keys : Option (List Int)) :
    root size keys = some (FrameMap.root size keys) := by
  cases keys with
  | none => rfl
  | some keys =>
    by_cases hlength : keys.length = size
    · simp only [root, FrameMap.root, if_pos hlength, numberKeys_eq]
      rfl
    · simp only [root, FrameMap.root, if_neg hlength]
      rfl

/-! ## The links -/

section Links

variable (target source : Array Nanos) (frames : FrameMap) (gap : Nanos)

/-- A source entry hands its frames on, if it has any and some target entry lies before it. The
second condition guards the count down to the target entry. -/
def hand (map : FrameMap) (s : Nanos × Option FrameRange) : Option FrameMap :=
  let before := FrameMap.countBefore target s.1
  if before = 0 ∨ s.2 = none then some map
  else do
    let i ← before.ppred
    let distance ← satSub s.1 (← read target i)
    if distance ≤ gap then modify map i (FrameRange.join · s.2) else return map

/-- Each source entry hands its frames to the last target entry before it. The map keeps the size of
the target, which is what the steps rely on. -/
def latestBefore : Option FrameMap :=
  (source.zip frames).toList.foldlM (hand target gap) (Array.replicate target.size none)

/-- The moment up to which a target entry at `start` takes frames: the next entry or the gap. Only
the sum with the gap can fail. -/
def followingStop (i : Nat) (start : Nanos) : Option Nanos := do
  let limit ← satAdd start gap
  return match target[i + 1]? with
    | some next => if next < limit then next else limit
    | none => limit

/-- The frames of the source entries from a target entry on up to where it stops. The
interval is cut out only if it is in order and ends within the frames, of which there may be
fewer than times. -/
def takeFollowing (entry : Nanos × Nat) : Option (Option FrameRange) := do
  let stop ← followingStop target gap entry.2 entry.1
  let lo := FrameMap.countBefore source entry.1
  let hi := min (FrameMap.countBefore source stop) frames.size
  if hi ≤ lo then return none
  else return (← slice frames lo hi).foldl FrameRange.join none

/-- Each target entry takes the frames of an interval of source entries. This is the one link
that cuts out. -/
def followingInterval : Option FrameMap :=
  target.zipIdx.mapM (takeFollowing target source frames gap)

/-- The frames of the first source entry at or after a moment. Frames that are not there are none,
which is no failure. -/
def takePreceding (t : Nanos) : Option (Option FrameRange) :=
  let j := FrameMap.countBefore source t
  match source[j]? with
  | some s => do
    let distance ← satSub s t
    return if distance ≤ gap then frames[j]?.join else none
  | none => some none

/-- Each target entry takes the frames of the first source entry at or after it. It fails if that
fails for one of them. -/
def precedingInterval : Option FrameMap :=
  target.mapM (takePreceding source frames gap)

/-- The last source entry before a moment and its distance. That there is none is an answer; a place
that cannot be read is a failure. -/
def distanceBefore (t : Nanos) : Option (Option (Nat × Nanos)) :=
  match (FrameMap.countBefore source t).ppred with
  | some i => do
    let distance ← satSub t (← read source i)
    return some (i, distance)
  | none => some none

/-- The first source entry at or after a moment and its distance. Again none is an answer. -/
def distanceAfter (t : Nanos) : Option (Option (Nat × Nanos)) :=
  let j := FrameMap.countBefore source t
  match source[j]? with
  | some s => do
    let distance ← satSub s t
    return some (j, distance)
  | none => some none

/-- The frames of the closest source entry, the earlier of two. It needs both distances. -/
def takeNearest (t : Nanos) : Option (Option FrameRange) := do
  let closest :=
    match ← distanceBefore source t, ← distanceAfter source t with
    | some b, some a => some (if b.2 ≤ a.2 then b else a)
    | some b, none => some b
    | none, a => a
  return match closest with
    | some (i, distance) => if distance ≤ gap then frames[i]?.join else none
    | none => none

/-- Each target entry takes the frames of the closest source entry. It fails if that fails for
one of them. -/
def nearest : Option FrameMap :=
  target.mapM (takeNearest source frames gap)

end Links

/-! ## No link fails -/

section LinksSucceed

variable {target source : Array Nanos} {frames : FrameMap} {gap : Nanos}

/-- Handing on no frames changes nothing, so a source entry without frames can be passed over before
its target entry is searched. -/
theorem modify_join_none (map : FrameMap) (i : Nat) :
    map.modify i (FrameRange.join · none) = map := by
  have hjoin : (FrameRange.join · none) = id := by
    funext range
    cases range <;> rfl
  refine Array.ext_getElem? fun k => ?_
  rw [hjoin, Array.getElem?_modify, Option.map_id, id_eq, ite_self]

/-- The entry counted last among those before a moment is there, so it can be read. A count is never
above the size, whatever order the values are in. -/
theorem lastBefore?_of_countBefore {t : Nanos} {i : Nat}
    (hcount : FrameMap.countBefore source t = i + 1) :
    ∃ v, read source i = some v ∧ FrameMap.lastBefore? source t = some (i, v) := by
  have hle := FrameMap.countBefore_le_size source t
  have hi : i < source.size := by omega
  have hread := Array.getElem?_eq_getElem hi
  exact ⟨source[i], hread, FrameMap.lastBefore?_eq_some_iff.mpr ⟨hcount, hread⟩⟩

/-- Handing on never fails on a map of the size of the target, and finds what is found without
the guards. -/
theorem hand_eq {map : FrameMap} (hsize : map.size = target.size)
    (s : Nanos × Option FrameRange) :
    hand target gap map s = some
      (match FrameMap.latestTarget? target gap s.1 with
        | some i => map.modify i (FrameRange.join · s.2)
        | none => map) := by
  cases hcount : FrameMap.countBefore target s.1 with
  | zero => simp [hand, hcount, FrameMap.latestTarget?, FrameMap.lastBefore?]
  | succ i =>
    obtain ⟨t, hread, hlast⟩ := lastBefore?_of_countBefore hcount
    have hle := FrameMap.countBefore_le_size target s.1
    have hi : i < map.size := by omega
    rw [hand, FrameMap.latestTarget?, hlast]
    cases hframes : s.2 with
    | none =>
      -- The strict step stops here before it measures the gap, and the other one changes nothing.
      by_cases hgap : s.1.satSub t ≤ gap <;>
        simp [Option.filter_some, hgap, modify_join_none]
    | some r =>
      by_cases hgap : s.1.satSub t ≤ gap <;>
        simp [Option.filter_some, hgap, hcount, hread, satSub_eq, modify, hi]

/-- The first link never fails: every step keeps the size that the next one needs. -/
theorem latestBefore_eq :
    latestBefore target source frames gap =
      some (FrameMap.latestBefore target source frames gap) := by
  rw [latestBefore, FrameMap.latestBefore_eq]
  -- The map keeps a place for every target entry, so what is counted before is one of its places.
  refine (foldlM_eq_some (P := fun map => map.size = target.size) _ ?_ _ Array.size_replicate).1
  intro map hsize s _
  refine ⟨hand_eq hsize s, ?_⟩
  split
  · rw [Array.size_modify, hsize]
  · exact hsize

/-- The end of an interval is always found. -/
theorem followingStop_eq (i : Nat) (start : Nanos) :
    followingStop target gap i start = some (FrameMap.followingStop target gap i start) := by
  rw [followingStop, satAdd_eq]
  rfl

/-- An interval is cut out within the frames, and what it would hold behind them is not there. So
cutting at the end of the frames loses nothing. -/
theorem takeFollowing_eq (entry : Nanos × Nat) :
    takeFollowing target source frames gap entry = some
      ((frames.extract (FrameMap.countBefore source entry.1)
        (FrameMap.countBefore source (FrameMap.followingStop target gap entry.2 entry.1))).foldl
          FrameRange.join none) := by
  rw [takeFollowing, followingStop_eq, Option.bind_eq_bind, Option.bind_some]
  generalize FrameMap.countBefore source entry.1 = lo
  generalize FrameMap.countBefore source (FrameMap.followingStop target gap entry.2 entry.1) = stop
  have hclip : frames.extract lo stop = frames.extract lo (min stop frames.size) := by
    rw [Array.extract_eq_extract_right]
    omega
  dsimp only
  by_cases hempty : min stop frames.size ≤ lo
  · rw [if_pos hempty, Array.extract_eq_empty_of_le hempty]
    rfl
  · have hbounds : lo ≤ min stop frames.size ∧ min stop frames.size ≤ frames.size := by omega
    rw [if_neg hempty, slice, if_pos hbounds, hclip]
    rfl

/-- The link by intervals never fails, for frames of whatever number. -/
theorem followingInterval_eq :
    followingInterval target source frames gap =
      some (FrameMap.followingInterval target source frames gap) := by
  rw [followingInterval, array_mapM_eq_some fun entry _ => takeFollowing_eq entry,
    FrameMap.followingInterval_eq, Array.mapIdx_eq_zipIdx_map]

/-- The first entry from a moment on is read where it is. -/
theorem takePreceding_eq (t : Nanos) :
    takePreceding source frames gap t = some
      ((FrameMap.precedingSource? source gap t).bind fun j => frames[j]?.join) := by
  rw [takePreceding, FrameMap.precedingSource?, FrameMap.firstFrom?]
  cases source[FrameMap.countBefore source t]? with
  | none => rfl
  | some s =>
    by_cases hgap : s.satSub t ≤ gap <;> simp [satSub_eq, Option.filter_some, hgap]

/-- The link to the first entry from a moment on never fails. -/
theorem precedingInterval_eq :
    precedingInterval target source frames gap =
      some (FrameMap.precedingInterval target source frames gap) := by
  rw [precedingInterval, array_mapM_eq_some fun t _ => takePreceding_eq t,
    FrameMap.precedingInterval_eq]

/-- The entry before a moment is read where it is, and its distance is a count. -/
theorem distanceBefore_eq (t : Nanos) :
    distanceBefore source t =
      some ((FrameMap.lastBefore? source t).map fun (i, s) => (i, t.satSub s)) := by
  cases hcount : FrameMap.countBefore source t with
  | zero => simp [distanceBefore, hcount, FrameMap.lastBefore?]
  | succ i =>
    obtain ⟨s, hread, hlast⟩ := lastBefore?_of_countBefore hcount
    simp [distanceBefore, hcount, hread, hlast, satSub_eq]

/-- The entry from a moment on is read where it is, and its distance is a count. -/
theorem distanceAfter_eq (t : Nanos) :
    distanceAfter source t =
      some ((FrameMap.firstFrom? source t).map fun (i, s) => (i, s.satSub t)) := by
  rw [distanceAfter, FrameMap.firstFrom?]
  cases source[FrameMap.countBefore source t]? with
  | none => rfl
  | some s => simp [satSub_eq]

/-- Both neighbours are found, so the closest one is. -/
theorem takeNearest_eq (t : Nanos) :
    takeNearest source frames gap t = some
      ((FrameMap.nearestSource? source gap t).bind fun j => frames[j]?.join) := by
  rw [takeNearest, distanceBefore_eq, distanceAfter_eq, FrameMap.nearestSource?]
  change some (match FrameMap.closest? source t with
    | some (i, distance) => if distance ≤ gap then frames[i]?.join else none
    | none => none) = _
  cases FrameMap.closest? source t with
  | none => rfl
  | some found => by_cases hgap : found.2 ≤ gap <;> simp [Option.filter_some, hgap]

/-- The link to the closest entry never fails. -/
theorem nearest_eq :
    nearest target source frames gap = some (FrameMap.nearest target source frames gap) := by
  rw [nearest, array_mapM_eq_some fun t _ => takeNearest_eq t, FrameMap.nearest_eq]

end LinksSucceed

/-! ## The flow of frames -/

/-- The frames that a target trace gets, if the link can be evaluated. The outer answer says whether
a step failed, the inner one whether there are the keys that the link needs. -/
def propagate (r : Relation) (target source : Trace) (frames : FrameMap) :
    Option (Option FrameMap) :=
  match r.link with
  | .matchingVsync => some do
    let targetKeys ← target.completeVsyncIds?
    let sourceKeys ← source.completeVsyncIds?
    return FrameMap.matchingKey targetKeys.toArray sourceKeys.toArray frames
  | .latestBefore => some <$> latestBefore target.times source.times frames r.maxGap
  | .followingInterval => some <$> followingInterval target.times source.times frames r.maxGap
  | .precedingInterval => some <$> precedingInterval target.times source.times frames r.maxGap
  | .nearest => some <$> nearest target.times source.times frames r.maxGap

/-- Lets frames flow along one relation, if both traces are there and only one has frames. What is
handed on is brought to the size of the target. -/
def follow (traces : Traces) (maps : CategoryMap FrameMap) (r : Relation) :
    Option (CategoryMap FrameMap) :=
  if maps.contains r.target then some maps
  else
    match traces.get? r.target, traces.get? r.source, maps.get? r.source with
    | some target, some source, some frames => do
      match ← propagate r target source frames with
      | some map => return maps.insert r.target (map.resize target.size)
      | none => return maps
    | _, _, _ => some maps

/-- The frames of all traces that the relations reach. One relation that fails makes all
of it fail. -/
def frameMaps (traces : Traces) (relations : List Relation) : Option (CategoryMap FrameMap) :=
  match traces.root? with
  | none => some CategoryMap.empty
  | some trace => do
    let map ← root trace.size trace.vsyncIds
    relations.foldlM (follow traces) (CategoryMap.empty.insert trace.category map)

/-- No link fails, for any two traces. The link by keys has no step that can. -/
theorem propagate_eq (r : Relation) (target source : Trace) (frames : FrameMap) :
    propagate r target source frames = some (r.propagate target source frames) := by
  rw [propagate, Relation.propagate]
  cases r.link with
  | matchingVsync => rfl
  | latestBefore => exact congrArg (some <$> ·) latestBefore_eq
  | followingInterval => exact congrArg (some <$> ·) followingInterval_eq
  | precedingInterval => exact congrArg (some <$> ·) precedingInterval_eq
  | nearest => exact congrArg (some <$> ·) nearest_eq

/-- A relation never fails, whatever the frames are that it starts from. -/
theorem follow_eq (traces : Traces) (maps : CategoryMap FrameMap) (r : Relation) :
    follow traces maps r = some (traces.follow maps r) := by
  rw [follow, Traces.follow]
  split
  · rfl
  · cases traces.get? r.target with
    | none => rfl
    | some target => cases traces.get? r.source with
      | none => rfl
      | some source => cases maps.get? r.source with
        | none => rfl
        | some frames =>
          simp only [propagate_eq, Option.bind_eq_bind, Option.bind_some]
          cases r.propagate target source frames <;> rfl

/-- All relations together never fail. -/
theorem frameMaps_eq (traces : Traces) (relations : List Relation) :
    frameMaps traces relations = some (traces.frameMaps relations) := by
  rw [frameMaps, Traces.frameMaps]
  cases traces.root? with
  | none => rfl
  | some trace =>
    have hstep : follow traces = fun maps r => pure (traces.follow maps r) := by
      funext maps r
      exact follow_eq traces maps r
    simp only [root_eq, Option.bind_eq_bind, Option.bind_some, hstep, List.foldlM_pure]
    rfl

/-! ## The table -/

/-- Adds an entry to the lists of its frames. There has to be a list for every frame of
its range. -/
def scatterEntry (lists : Array (Array Nat)) (item : Option FrameRange × Nat) :
    Option (Array (Array Nat)) :=
  match item.1 with
  | none => some lists
  | some r => r.frames.foldlM (fun acc frame => modify acc frame (·.push item.2)) lists

/-- The entries of a trace for each of `count` frames. The number of lists is set before the entries
are looked at. -/
def scatter (count : Nat) (map : FrameMap) : Option (Array (Array Nat)) :=
  map.toList.zipIdx.foldlM scatterEntry (Array.replicate count #[])

/-- One frame with its entries of all categories. Each category has to have a list for it. -/
def frame (lists : List (Category × Array (Array Nat))) (i : Nat) : Option Frame := do
  let entries ← lists.mapM fun p => do return (p.1, ← read p.2 i)
  return ⟨i, CategoryMap.ofList entries⟩

/-- The table in which the entries have the given frames. The number of frames is the largest end of
a range, and all lists are made for that number. -/
def ofMaps (maps : CategoryMap FrameMap) : Option FrameTable := do
  let count := (maps.values.map FrameTable.reach).foldl max 0
  let lists ← maps.toList.mapM fun p => do return (p.1, ← scatter count p.2)
  let frames ← (Array.range count).mapM (frame lists)
  return { maps, frames }

/-- The table of the frames that the relations give to the traces, from the numbering up to
the lists. -/
def correlate (traces : Traces) (relations : List Relation) : Option FrameTable := do
  ofMaps (← frameMaps traces relations)

/-- Scattering an entry whose range ends in time reaches only frames that are there. The size is
part of the statement, as the next entry needs it. -/
theorem scatterEntry_eq {count : Nat} {lists : Array (Array Nat)} (hsize : lists.size = count)
    (entry : Nat) {range : Option FrameRange} (hrange : ∀ r, range = some r → r.stop ≤ count) :
    scatterEntry lists (range, entry) = some (FrameTable.scatterEntry lists entry range) ∧
      (FrameTable.scatterEntry lists entry range).size = count := by
  cases range with
  | none => exact ⟨rfl, hsize⟩
  | some r =>
    refine foldlM_eq_some (P := fun acc : Array (Array Nat) => acc.size = count) _ ?_ _ hsize
    intro acc hacc i hi
    have hstop := hrange r rfl
    have hmem := FrameRange.mem_frames.mp hi
    have hlt : i < acc.size := by omega
    exact ⟨if_pos hlt, by rw [Array.size_modify, hacc]⟩

/-- Scattering a whole trace never fails when the lists reach as far as its ranges. -/
theorem scatter_eq {count : Nat} {map : FrameMap} (h : FrameTable.reach map ≤ count) :
    scatter count map = some (FrameTable.scatter count map) ∧
      (FrameTable.scatter count map).size = count := by
  refine foldlM_eq_some (P := fun acc : Array (Array Nat) => acc.size = count) _ ?_ _
    Array.size_replicate
  rintro acc hacc ⟨range, entry⟩ hitem
  refine scatterEntry_eq hacc entry ?_
  rintro r rfl
  rw [List.mem_zipIdx_iff_getElem?, Array.getElem?_toList] at hitem
  exact (FrameTable.reach_le_iff map count).mp h entry r hitem

/-- A frame below the number of lists is read from each of them. -/
theorem frame_eq {count : Nat} {maps : CategoryMap FrameMap}
    (hsize : ∀ p ∈ maps.toList, (FrameTable.scatter count p.2).size = count) {i : Nat}
    (hi : i < count) :
    frame (maps.toList.map fun p => (p.1, FrameTable.scatter count p.2)) i =
      some ⟨i, (maps.map (FrameTable.scatter count)).map fun l => l[i]?.getD #[]⟩ := by
  have hread : ∀ p ∈ maps.toList.map fun p => (p.1, FrameTable.scatter count p.2),
      (do return (p.1, ← read p.2 i)) = some (p.1, p.2[i]?.getD #[]) := by
    intro p hp
    obtain ⟨q, hq, rfl⟩ := List.mem_map.mp hp
    have hlt : i < (FrameTable.scatter count q.2).size := by rwa [hsize q hq]
    rw [read, Array.getElem?_eq_getElem hlt]
    rfl
  rw [frame, mapM_eq_some hread, Option.bind_eq_bind, Option.bind_some, List.map_map,
    CategoryMap.map_map, ← CategoryMap.ofList_map_toList]
  rfl

/-- There are as many frames as the largest end of a range says, so none is missing, and the table
is built for whatever ranges. -/
theorem ofMaps_eq (maps : CategoryMap FrameMap) : ofMaps maps = some (FrameTable.ofMaps maps) := by
  rw [ofMaps, FrameTable.ofMaps]
  generalize hcount : (maps.values.map FrameTable.reach).foldl max 0 = count
  have hreach : ∀ p ∈ maps.toList, FrameTable.reach p.2 ≤ count := by
    intro p hp
    have hvalue : p.2 ∈ maps.values := CategoryMap.mem_values.mpr ⟨_, CategoryMap.mem_toList.mp hp⟩
    exact ((FrameTable.foldl_max_le_iff _ 0 count).mp hcount.le).2 _ (List.mem_map_of_mem hvalue)
  have hlists : ∀ p ∈ maps.toList, (do return (p.1, ← scatter count p.2)) =
      some (p.1, FrameTable.scatter count p.2) := by
    intro p hp
    rw [(scatter_eq (hreach p hp)).1]
    rfl
  have hframes : ∀ i ∈ Array.range count,
      frame (maps.toList.map fun p => (p.1, FrameTable.scatter count p.2)) i =
        some ⟨i, (maps.map (FrameTable.scatter count)).map fun l => l[i]?.getD #[]⟩ := fun i hi =>
    frame_eq (fun p hp => (scatter_eq (hreach p hp)).2) (Array.mem_range.mp hi)
  rw [mapM_eq_some hlists, Option.bind_eq_bind, Option.bind_some, array_mapM_eq_some hframes]
  rfl

/-- The strict computation finds the table, for all traces and relations. -/
theorem correlate_eq (traces : Traces) (relations : List Relation) :
    correlate traces relations = some (traces.correlate relations) := by
  rw [correlate, frameMaps_eq, Option.bind_eq_bind, Option.bind_some, ofMaps_eq]
  rfl

end Strict

/-! ## Entries within their traces -/

namespace Traces

variable {traces : Traces} {relations : List Relation}

/-- A framed category has a trace, and frames for as many entries as that has. With this a listed
entry is known to be an entry. -/
theorem size_of_get?_frameMaps (hfiled : traces.Filed) {c : Category} {map : FrameMap}
    (hget : (traces.frameMaps relations).get? c = some map) :
    ∃ t, traces.get? c = some t ∧ map.size = t.size := by
  refine frameMaps_induction (P := fun c map => ∃ t, traces.get? c = some t ∧ map.size = t.size)
    ?_ ?_ hget
  · intro root hroot
    -- The root is looked up by a preferred category, which is its own.
    obtain ⟨d, -, hd⟩ := List.mem_filterMap.mp (List.mem_of_find?_eq_some hroot)
    refine ⟨root, by rwa [hfiled d root hd], ?_⟩
    rw [root.root_eq, List.size_toArray, List.length_map, root.length_frameNumbers]
  · rintro r - frames _ - ⟨htarget, -, -⟩
    exact ⟨_, htarget, FrameMap.size_resize _ _⟩

/-- **Nothing out of bounds.** Whatever the traces, the relations and their gaps are, the strict
computation of the table does not fail and finds the same table. If every trace is the one of its
own category, every entry listed in a frame is an entry of the trace of its category. -/
theorem correlate_inBounds (hfiled : traces.Filed) (relations : List Relation) :
    Strict.correlate traces relations = some (traces.correlate relations) ∧
      ∀ i c, ∀ entry ∈ (traces.correlate relations).entries i c,
        ∃ t, traces.get? c = some t ∧ entry < t.size ∧ (t.entry? entry).isSome = true := by
  refine ⟨Strict.correlate_eq traces relations, fun i c entry hentry => ?_⟩
  have hdual : (traces.correlate relations).Dual := FrameTable.dual_ofMaps _
  have hframe := (hdual.mem_entries_iff i c entry).mp hentry
  obtain ⟨r, hr, -⟩ := FrameTable.mem_framesOf.mp hframe
  obtain ⟨map, hmap, hrange⟩ := rangeOf?_correlate_eq_some_iff.mp hr
  obtain ⟨t, ht, hsize⟩ := size_of_get?_frameMaps hfiled hmap
  have hlt : entry < t.size := hsize ▸ (Array.getElem?_eq_some_iff.mp hrange).1
  exact ⟨t, ht, hlt, by rw [Trace.entry?, if_pos hlt, Option.isSome_some]⟩

/-- Times out of order, a trace that is not dated, a key too few, the first and the last count, and
gaps at both ends of the range. -/
theorem correlate_inBounds_extreme :
    let traces := ofTraces [.ofTimes .screenRecording [30, 10, 20] (some [7, 8]),
      { id := ⟨.surfaceFlinger, 1⟩, size := 3 },
      .ofTimes .windowManager [9223372036854775807, -9223372036854775808]]
    let relations : List Relation :=
      [{ target := .windowManager, source := .screenRecording, link := .followingInterval,
          maxGap := .clamp (-9223372036854775808) },
        { target := .surfaceFlinger, source := .windowManager, link := .nearest,
          maxGap := .clamp 9223372036854775807 },
        { target := .transactions, source := .surfaceFlinger, link := .matchingVsync }]
    traces.Filed ∧ Strict.correlate traces relations = some (traces.correlate relations) ∧
      ∀ i, ∀ entry ∈ (traces.correlate relations).entries i .windowManager, entry < 2 := by
  intro traces relations
  have hfiled : traces.Filed := filed_ofTraces _
  obtain ⟨hstrict, hentries⟩ := correlate_inBounds hfiled relations
  refine ⟨hfiled, hstrict, fun i entry hentry => ?_⟩
  have hwindow : traces.get? .windowManager =
      some (.ofTimes .windowManager [9223372036854775807, -9223372036854775808]) := by cbv
  obtain ⟨t, ht, hlt, -⟩ := hentries i .windowManager entry hentry
  cases hwindow.symm.trans ht
  exact hlt

end Traces

end FrameAlign
