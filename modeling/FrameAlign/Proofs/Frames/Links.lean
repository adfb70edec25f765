import FrameAlign.Proofs.Frames.Hull
import FrameAlign.Proofs.Frames.Search

/-!
# What the links link

For every link it is said which source entries a target entry is linked to, and that the target
entry gets the smallest range that covers the frames of exactly these. Then each link is shown never
to go backwards: a later target entry is not linked to an earlier source entry.
-/

namespace FrameAlign.FrameMap

variable {target source : Array Nanos} {frames : FrameMap} {gap : Nanos}

/-! ## Frames handed on by source entries -/

/-- The frames of those source entries that are selected, in their order. What an entry gets is such
a list, joined. -/
def selected {α : Type} (items : List (α × Option FrameRange)) (p : α → Bool) :
    List (Option FrameRange) :=
  (items.filter fun s => p s.1).map (·.2)

/-- A range is among the selected ones exactly if it belongs to an entry whose key is selected. This
turns lists back into indices, by which links are stated. -/
theorem mem_selected_zip {α : Type} {keys : Array α} {p : α → Bool} {range : Option FrameRange} :
    range ∈ selected (keys.zip frames).toList p ↔
      ∃ (j : Nat) (key : α), keys[j]? = some key ∧ p key = true ∧ frames[j]? = some range := by
  have hzip : ∀ key, (key, range) ∈ (keys.zip frames).toList ↔
      ∃ j : Nat, keys[j]? = some key ∧ frames[j]? = some range := by
    intro key
    simp only [Array.toList_zip, List.mem_iff_getElem?, List.getElem?_zip_eq_some,
      Array.getElem?_toList]
  simp only [selected, List.mem_map, List.mem_filter, Prod.exists, exists_eq_right, hzip]
  constructor
  · rintro ⟨key, ⟨j, hkey, hrange⟩, hp⟩
    exact ⟨j, key, hkey, hp, hrange⟩
  · rintro ⟨j, key, hkey, hp, hrange⟩
    exact ⟨key, ⟨j, hkey, hrange⟩, hp⟩

/-- The target entry to which a source entry at `s` hands its frames. Where the last entry before
lies too far back there is none, though an earlier one might exist. -/
def latestTarget? (target : Array Nanos) (gap s : Nanos) : Option Nat :=
  ((lastBefore? target s).filter fun (_, t) => s.satSub t ≤ gap).map (·.1)

/-- A source entry hands its frames to the last target entry before it if that lies within the gap,
and to no other. -/
theorem latestTarget?_eq_some_iff {s : Nanos} {i : Nat} :
    latestTarget? target gap s = some i ↔
      ∃ t, lastBefore? target s = some (i, t) ∧ s.satSub t ≤ gap := by
  simp [latestTarget?, Option.filter_eq_some_iff]

/-- Handing frames on one after the other joins at every entry what is handed to it. So the loop
over the source is seen from one target entry. -/
theorem getElem?_foldl_hand {α : Type} (to? : α → Option Nat)
    (items : List (α × Option FrameRange)) (map : FrameMap) (i : Nat) :
    (items.foldl (fun map s =>
      match to? s.1 with
      | some i => map.modify i (FrameRange.join · s.2)
      | none => map) map)[i]? =
      map[i]?.map fun range =>
        (selected items fun s => to? s = some i).foldl FrameRange.join range := by
  induction items generalizing map with
  | nil => simp [selected]
  | cons item items ih =>
    rw [List.foldl_cons, ih]
    cases hto : to? item.1 with
    | none => simp [selected, hto]
    | some k =>
      by_cases hk : k = i
      · subst hk
        simp [selected, hto, Array.getElem?_modify, Function.comp_def]
      · simp [selected, hto, hk, Array.getElem?_modify]

/-- Handing frames on adds no entry and takes none away, since it only changes entries in place. -/
theorem size_foldl_hand {α : Type} (to? : α → Option Nat) (items : List (α × Option FrameRange))
    (map : FrameMap) :
    (items.foldl (fun map s =>
      match to? s.1 with
      | some i => map.modify i (FrameRange.join · s.2)
      | none => map) map).size = map.size := by
  induction items generalizing map with
  | nil => rfl
  | cons item items ih =>
    rw [List.foldl_cons, ih]
    cases to? item.1 with
    | none => rfl
    | some i => exact Array.size_modify

/-- By `latestBefore` every source entry hands its frames to the target entry that it is told. The
search is named here, so the fold can be treated for any way to choose an entry. -/
theorem latestBefore_eq (target source : Array Nanos) (frames : FrameMap) (gap : Nanos) :
    latestBefore target source frames gap =
      (source.zip frames).toList.foldl (fun map s =>
        match latestTarget? target gap s.1 with
        | some i => map.modify i (FrameRange.join · s.2)
        | none => map) (Array.replicate target.size none) := by
  rw [latestBefore, ← Array.foldl_toList]
  congr 1
  funext map s
  rw [latestTarget?]
  cases lastBefore? target s.1 with
  | none => rfl
  | some found => by_cases hgap : s.1.satSub found.2 ≤ gap <;> simp [Option.filter_some, hgap]

/-- By `latestBefore` every target entry gets an answer, also the ones that nothing is handed to. -/
theorem size_latestBefore (target source : Array Nanos) (frames : FrameMap) (gap : Nanos) :
    (latestBefore target source frames gap).size = target.size := by
  rw [latestBefore_eq, size_foldl_hand, Array.size_replicate]

/-- By `latestBefore` a target entry is linked to the source entries that it is the last before.
There may be many of them, or none. -/
theorem linked_latestBefore (target source : Array Nanos) (frames : FrameMap) (gap : Nanos) :
    Linked (fun i j => ∃ s, source[j]? = some s ∧ latestTarget? target gap s = some i) frames
      (latestBefore target source frames gap) := by
  intro i range hrange
  rw [latestBefore_eq, getElem?_foldl_hand, Array.getElem?_replicate] at hrange
  split at hrange
  · cases hrange
    refine (FrameRange.spans_foldl_join_none _).congr fun a => mem_selected_zip.trans ?_
    simp only [decide_eq_true_eq]
    constructor
    · rintro ⟨j, s, hs, hto, ha⟩
      exact ⟨j, ⟨s, hs, hto⟩, ha⟩
    · rintro ⟨j, ⟨s, hs, hto⟩, ha⟩
      exact ⟨j, s, hs, hto, ha⟩
  · contradiction

/-- Collecting frames by keys joins for every key what is collected for it. Other keys in between
leave it alone. -/
theorem getElem?_foldl_alter (items : List (Int × Option FrameRange))
    (byKey : Std.HashMap Int FrameRange) (key : Int) :
    (items.foldl (fun m s => m.alter s.1 (FrameRange.join · s.2)) byKey)[key]? =
      (selected items fun s => s = key).foldl FrameRange.join byKey[key]? := by
  induction items generalizing byKey with
  | nil => rfl
  | cons item items ih =>
    rw [List.foldl_cons, ih, Std.HashMap.getElem?_alter]
    by_cases hkey : item.1 = key <;> simp [selected, hkey]

/-- By `matchingKey` every entry gets the frames of the source entries with its key, joined. The
table of keys is gone from this form. -/
theorem matchingKey_eq (target source : Array Int) (frames : FrameMap) :
    matchingKey target source frames = target.map fun key =>
      (selected (source.zip frames).toList fun s => s = key).foldl FrameRange.join none := by
  rw [matchingKey]
  congr 1
  funext key
  rw [← Array.foldl_toList, getElem?_foldl_alter, Std.HashMap.getElem?_empty]

/-- By `matchingKey` entries with equal keys are linked, wherever they stand. -/
theorem linked_matchingKey (target source : Array Int) (frames : FrameMap) :
    Linked (fun i j => ∃ key, target[i]? = some key ∧ source[j]? = some key) frames
      (matchingKey target source frames) := by
  intro i range hrange
  rw [matchingKey_eq, Array.getElem?_map, Option.map_eq_some_iff] at hrange
  obtain ⟨key, hkey, rfl⟩ := hrange
  refine (FrameRange.spans_foldl_join_none _).congr fun a => mem_selected_zip.trans ?_
  simp only [decide_eq_true_eq]
  constructor
  · rintro ⟨j, key', hs, heq, ha⟩
    subst heq
    exact ⟨j, ⟨key', hkey, hs⟩, ha⟩
  · rintro ⟨j, ⟨key', hkey', hs⟩, ha⟩
    cases hkey.symm.trans hkey'
    exact ⟨j, key, hs, rfl, ha⟩

/-! ## Frames taken by target entries -/

/-- The moment up to which a target entry at `start` takes frames: the next entry or the gap,
whichever comes first. -/
def followingStop (target : Array Nanos) (gap : Nanos) (i : Nat) (start : Nanos) : Nanos :=
  match target[i + 1]? with
  | some next => if next < start.satAdd gap then next else start.satAdd gap
  | none => start.satAdd gap

/-- By `followingInterval` every target entry takes the frames of an interval of source entries. The
end of the interval gets a name, as all that is proved of this link is about it. -/
theorem followingInterval_eq (target source : Array Nanos) (frames : FrameMap) (gap : Nanos) :
    followingInterval target source frames gap = target.mapIdx fun i start =>
      (frames.extract (countBefore source start)
        (countBefore source (followingStop target gap i start))).foldl FrameRange.join none := rfl

/-- By `followingInterval` a target entry is linked to the source entries from its own time up to
the next target entry or the gap. -/
theorem linked_followingInterval (target source : Array Nanos) (frames : FrameMap) (gap : Nanos) :
    Linked (fun i j => ∃ start, target[i]? = some start ∧ countBefore source start ≤ j ∧
      j < countBefore source (followingStop target gap i start)) frames
      (followingInterval target source frames gap) := by
  intro i range hrange
  rw [followingInterval_eq, Array.getElem?_mapIdx, Option.map_eq_some_iff] at hrange
  obtain ⟨start, hstart, rfl⟩ := hrange
  rw [← Array.foldl_toList]
  refine (FrameRange.spans_foldl_join_none _).congr fun a => ?_
  rw [Array.mem_toList_iff, Array.mem_iff_getElem?]
  constructor
  · rintro ⟨n, hn⟩
    rw [Array.getElem?_extract, Option.ite_none_right_eq_some] at hn
    exact ⟨_, ⟨start, hstart, Nat.le_add_right _ n, by omega⟩, hn.2⟩
  · rintro ⟨j, ⟨start', hstart', hle, hlt⟩, ha⟩
    cases hstart.symm.trans hstart'
    obtain ⟨hj, -⟩ := Array.getElem?_eq_some_iff.mp ha
    refine ⟨j - countBefore source start, ?_⟩
    rw [Array.getElem?_extract, if_pos (by omega), Nat.add_sub_cancel' hle, ha]

/-- Where every target entry takes the frames of one source entry at most, it is linked to that. Two
kinds of links are of this form. -/
theorem linked_map (target : Array Nanos) (frames : FrameMap) (from? : Nanos → Option Nat) :
    Linked (fun i j => ∃ t, target[i]? = some t ∧ from? t = some j) frames
      (target.map fun t => (from? t).bind fun j => frames[j]?.join) := by
  intro i range hrange
  rw [Array.getElem?_map, Option.map_eq_some_iff] at hrange
  obtain ⟨t, ht, rfl⟩ := hrange
  refine (FrameRange.spans_eq_some _).congr fun a => ?_
  simp only [Option.bind_eq_some_iff, Option.join_eq_some_iff]
  constructor
  · rintro ⟨j, hj, ha⟩
    exact ⟨j, ⟨t, ht, hj⟩, ha⟩
  · rintro ⟨j, ⟨t', ht', hj⟩, ha⟩
    cases ht.symm.trans ht'
    exact ⟨j, hj, ha⟩

/-- The source entry whose frames a target entry at `t` takes as the first at or after it. When that
one lies beyond the gap, so do all behind it. -/
def precedingSource? (source : Array Nanos) (gap t : Nanos) : Option Nat :=
  ((firstFrom? source t).filter fun (_, s) => s.satSub t ≤ gap).map (·.1)

/-- It is the first source entry at or after the target entry, and it lies within the gap. -/
theorem precedingSource?_eq_some_iff {t : Nanos} {j : Nat} :
    precedingSource? source gap t = some j ↔
      ∃ s, firstFrom? source t = some (j, s) ∧ s.satSub t ≤ gap := by
  simp [precedingSource?, Option.filter_eq_some_iff]

/-- By `precedingInterval` every target entry takes the frames of the source entry it is told, and
none if that one has none. -/
theorem precedingInterval_eq (target source : Array Nanos) (frames : FrameMap) (gap : Nanos) :
    precedingInterval target source frames gap =
      target.map fun t => (precedingSource? source gap t).bind fun j => frames[j]?.join := by
  rw [precedingInterval]
  congr 1
  funext t
  rw [precedingSource?]
  cases firstFrom? source t with
  | none => rfl
  | some found => by_cases hgap : found.2.satSub t ≤ gap <;> simp [Option.filter_some, hgap]

/-- By `precedingInterval` a target entry is linked to the first source entry at or after it. It is
the case of `linked_map` for this search. -/
theorem linked_precedingInterval (target source : Array Nanos) (frames : FrameMap) (gap : Nanos) :
    Linked (fun i j => ∃ t, target[i]? = some t ∧ precedingSource? source gap t = some j) frames
      (precedingInterval target source frames gap) := by
  rw [precedingInterval_eq]
  exact linked_map target frames _

/-- The source entry whose frames a target entry at `t` takes as the closest. Only the closest is
compared with the gap. -/
def nearestSource? (source : Array Nanos) (gap t : Nanos) : Option Nat :=
  ((closest? source t).filter fun (_, distance) => distance ≤ gap).map (·.1)

/-- It is the closest source entry to the target entry, and it lies within the gap. -/
theorem nearestSource?_eq_some_iff {t : Nanos} {j : Nat} :
    nearestSource? source gap t = some j ↔
      ∃ distance, closest? source t = some (j, distance) ∧ distance ≤ gap := by
  simp [nearestSource?, Option.filter_eq_some_iff]

/-- By `nearest` every target entry takes the frames of the source entry it is told, and none if
that one has none. -/
theorem nearest_eq (target source : Array Nanos) (frames : FrameMap) (gap : Nanos) :
    nearest target source frames gap =
      target.map fun t => (nearestSource? source gap t).bind fun j => frames[j]?.join := by
  rw [nearest]
  congr 1
  funext t
  rw [nearestSource?]
  cases closest? source t with
  | none => rfl
  | some found => by_cases hgap : found.2 ≤ gap <;> simp [Option.filter_some, hgap]

/-- By `nearest` a target entry is linked to the closest source entry. It is the case of
`linked_map` for this search. -/
theorem linked_nearest (target source : Array Nanos) (frames : FrameMap) (gap : Nanos) :
    Linked (fun i j => ∃ t, target[i]? = some t ∧ nearestSource? source gap t = some j) frames
      (nearest target source frames gap) := by
  rw [nearest_eq]
  exact linked_map target frames _

/-! ## No link goes backwards -/

section Ascending

variable (hframes : frames.Ascending)

include hframes

/-- By `latestBefore` ascending frames are handed on: source entries that come later hand their
frames to no earlier target entry. -/
theorem ascending_latestBefore (htarget : Ascends target) (hsource : Ascends source) :
    (latestBefore target source frames gap).Ascending := by
  refine (linked_latestBefore target source frames gap).ascending hframes ?_
  rintro i k j j' hik ⟨s, hs, hi⟩ ⟨s', hs', hk⟩
  obtain ⟨_, hlast, -⟩ := latestTarget?_eq_some_iff.mp hi
  obtain ⟨_, hlast', -⟩ := latestTarget?_eq_some_iff.mp hk
  have hcount := (lastBefore?_eq_some_iff.mp hlast).1
  have hcount' := (lastBefore?_eq_some_iff.mp hlast').1
  apply Nat.le_of_not_lt
  intro hlt
  -- More target entries would lie before the earlier of the two source entries.
  have hmono := countBefore_mono htarget (hsource j' j s' s (Nat.le_of_lt hlt) hs' hs)
  omega

/-- By `followingInterval` ascending frames are handed on: the interval of an entry ends where that
of the next starts, or before. -/
theorem ascending_followingInterval (htarget : Ascends target) (hsource : Ascends source) :
    (followingInterval target source frames gap).Ascending := by
  refine (linked_followingInterval target source frames gap).ascending hframes ?_
  rintro i k j j' hik ⟨start, hstart, -, hj⟩ ⟨start', hstart', hj', -⟩
  obtain ⟨hk, -⟩ := Array.getElem?_eq_some_iff.mp hstart'
  have hsize : i + 1 < target.size := Nat.lt_of_le_of_lt hik hk
  have hnext := Array.getElem?_eq_getElem hsize
  -- The entry behind `i` limits what `i` takes and starts no later than `k`.
  have hlimit : followingStop target gap i start ≤ target[i + 1] := by
    rw [followingStop, hnext]
    dsimp only
    split
    · exact Int.le_refl _
    · next hge => exact Int.not_lt.mp hge
  have hstop : followingStop target gap i start ≤ start' :=
    Int.le_trans hlimit (htarget (i + 1) k _ _ hik hnext hstart')
  have hmono := countBefore_mono hsource hstop
  omega

/-- By `precedingInterval` ascending frames are handed on: the first source entry at or after a
later moment is no earlier. -/
theorem ascending_precedingInterval (htarget : Ascends target) (hsource : Ascends source) :
    (precedingInterval target source frames gap).Ascending := by
  refine (linked_precedingInterval target source frames gap).ascending hframes ?_
  rintro i k j j' hik ⟨t, ht, hj⟩ ⟨t', ht', hj'⟩
  obtain ⟨_, hfirst, -⟩ := precedingSource?_eq_some_iff.mp hj
  obtain ⟨_, hfirst', -⟩ := precedingSource?_eq_some_iff.mp hj'
  have hmono := countBefore_mono hsource (htarget i k t t' (Nat.le_of_lt hik) ht ht')
  rwa [(firstFrom?_eq_some_iff.mp hfirst).1, (firstFrom?_eq_some_iff.mp hfirst').1] at hmono

/-- By `nearest` ascending frames are handed on, by `Closest.le`. -/
theorem ascending_nearest (htarget : Ascends target) (hsource : Ascends source) :
    (nearest target source frames gap).Ascending := by
  refine (linked_nearest target source frames gap).ascending hframes ?_
  rintro i k j j' hik ⟨t, ht, hj⟩ ⟨t', ht', hj'⟩
  obtain ⟨_, hclosest, -⟩ := nearestSource?_eq_some_iff.mp hj
  obtain ⟨_, hclosest', -⟩ := nearestSource?_eq_some_iff.mp hj'
  exact (closest_of_closest? hclosest).le (closest_of_closest? hclosest') hsource
    (htarget i k t t' (Nat.le_of_lt hik) ht ht')

/-- By `matchingKey` ascending frames are handed on if the keys of both traces ascend. Here equal
keys must be treated apart: entries with one key get the same range, though an earlier one of them
is linked to a later source entry. -/
theorem ascending_matchingKey {targetKeys sourceKeys : Array Int} (htarget : Ascends targetKeys)
    (hsource : Ascends sourceKeys) :
    (matchingKey targetKeys sourceKeys frames).Ascending := by
  intro i k a b hik ha hb
  have ha' := ha
  have hb' := hb
  rw [matchingKey, Array.getElem?_map, Option.map_eq_some_iff] at ha' hb'
  obtain ⟨key, hkey, ha'⟩ := ha'
  obtain ⟨key', hkey', hb'⟩ := hb'
  rcases Int.lt_or_eq_of_le (htarget i k key key' hik hkey hkey') with hlt | rfl
  · refine (linked_matchingKey targetKeys sourceKeys frames).noLater hframes ha hb ?_
    rintro j j' ⟨_, htargetKey, hs⟩ ⟨_, htargetKey', hs'⟩
    cases hkey.symm.trans htargetKey
    cases hkey'.symm.trans htargetKey'
    apply Nat.le_of_not_lt
    intro hback
    have hle := hsource j' j key' key (Nat.le_of_lt hback) hs' hs
    omega
  · -- Entries with one key have the same frames.
    cases ha'.symm.trans hb'
    exact .refl a

end Ascending

end FrameAlign.FrameMap
