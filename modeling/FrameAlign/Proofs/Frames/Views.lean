import FrameAlign.Frames.Correlation
import FrameAlign.Proofs.Category.Values

/-!
# The two views of a frame table

A table answers which frames an entry belongs to and which entries belong to a frame. The first
answer is read off the ranges of the entries, the second is built by scattering every entry over its
frames. Both say the same for whatever ranges there are, also for empty and reversed ones.
-/

namespace FrameAlign

/-- Whether a frame belongs to a range, if there is a range. Both views of a table come
down to this. -/
def FrameRange.touches (frame : Nat) (range : Option FrameRange) : Bool :=
  range.any fun r => frame ∈ r.frames

/-- Put as a condition on the range, for the proofs about entries. -/
theorem FrameRange.touches_iff {frame : Nat} {range : Option FrameRange} :
    touches frame range = true ↔ ∃ r, range = some r ∧ frame ∈ r.frames := by
  cases range <;> simp [touches]

namespace FrameTable

/-! ## Scattering -/

/-- Changing the items at some different places changes just these, each once. That the frames of a
range are different is what keeps an entry from being listed twice. -/
theorem getElem?_foldl_modify {α : Type} (f : α → α) {places : List Nat} (hnodup : places.Nodup)
    (items : Array α) (i : Nat) :
    (places.foldl (fun acc place => acc.modify place f) items)[i]? =
      if i ∈ places then items[i]?.map f else items[i]? := by
  induction places generalizing items with
  | nil => simp
  | cons place places ih =>
    obtain ⟨hplace, hplaces⟩ := List.nodup_cons.mp hnodup
    rw [List.foldl_cons, ih hplaces, Array.getElem?_modify]
    by_cases hi : place = i
    · subst hi
      simp [hplace]
    · simp [hi, Ne.symm hi]

/-- An entry is added to the lists of the frames in its range and to no others. Frames behind the
last list are passed over. -/
theorem getElem?_scatterEntry (lists : Array (Array Nat)) (entry : Nat)
    (range : Option FrameRange) (i : Nat) :
    (scatterEntry lists entry range)[i]? =
      lists[i]?.map fun l => if FrameRange.touches i range then l.push entry else l := by
  cases range with
  | none => simp [scatterEntry, FrameRange.touches]
  | some r =>
    have hnodup : r.frames.Nodup := List.nodup_range' 1
    rw [scatterEntry, getElem?_foldl_modify _ hnodup]
    by_cases hi : i ∈ r.frames <;> simp [FrameRange.touches, hi]

/-- The entries that belong to a frame according to their ranges. This is what the list of the frame
should be, said without scattering. -/
def entriesIn (map : FrameMap) (i : Nat) : List Nat :=
  (map.toList.zipIdx.filter fun item => FrameRange.touches i item.1).map (·.2)

/-- Scattering some entries adds them in their order to the lists of their frames. By induction on
the entries, with what the lists hold already in the statement. -/
theorem getElem?_foldl_scatterEntry (items : List (Option FrameRange × Nat))
    (lists : Array (Array Nat)) (i : Nat) :
    (items.foldl (fun lists item => scatterEntry lists item.2 item.1) lists)[i]? =
      lists[i]?.map fun l =>
        l ++ ((items.filter fun item => FrameRange.touches i item.1).map (·.2)).toArray := by
  induction items generalizing lists with
  | nil => simp
  | cons item items ih =>
    rw [List.foldl_cons, ih, getElem?_scatterEntry, Option.map_map]
    congr 1
    funext l
    by_cases hitem : FrameRange.touches i item.1 = true
    · simp [hitem, Function.comp_apply]
    · simp [hitem, Function.comp_apply]

/-- Scattering lists for each frame the entries that belong to it: from empty lists nothing
else comes in. -/
theorem getElem?_scatter {count : Nat} (map : FrameMap) {i : Nat} (hi : i < count) :
    (scatter count map)[i]? = some (entriesIn map i).toArray := by
  rw [scatter, getElem?_foldl_scatterEntry, Array.getElem?_replicate, if_pos hi]
  simp [entriesIn]

/-- An entry belongs to a frame if its range does. -/
theorem mem_entriesIn {map : FrameMap} {i entry : Nat} :
    entry ∈ entriesIn map i ↔ ∃ r, map[entry]? = some (some r) ∧ i ∈ r.frames := by
  simp only [entriesIn, List.mem_map, List.mem_filter, Prod.exists, List.mem_zipIdx_iff_getElem?,
    Array.getElem?_toList, FrameRange.touches_iff]
  constructor
  · rintro ⟨_, _, ⟨hget, r, rfl, hi⟩, rfl⟩
    exact ⟨r, hget, hi⟩
  · rintro ⟨r, hget, hi⟩
    exact ⟨some r, entry, ⟨hget, r, rfl, hi⟩, rfl⟩

/-- The entries of a frame are listed in their order, each once, since they are a part of the list
of all entries. -/
theorem pairwise_entriesIn (map : FrameMap) (i : Nat) :
    (entriesIn map i).Pairwise (· < ·) := by
  have hindices : map.toList.zipIdx.Pairwise fun a b => a.2 < b.2 := by
    rw [← List.pairwise_map (f := Prod.snd) (R := (· < ·)), List.zipIdx_map_snd]
    exact List.pairwise_lt_range' 1
  exact List.pairwise_map.mpr (hindices.filter _)

/-! ## The number of frames -/

/-- The largest of some numbers is at most `n` when each of them is. Lengths of tables are
such maxima. -/
theorem foldl_max_le_iff (numbers : List Nat) (start n : Nat) :
    numbers.foldl max start ≤ n ↔ start ≤ n ∧ ∀ k ∈ numbers, k ≤ n := by
  induction numbers generalizing start with
  | nil => simp
  | cons k numbers ih => simp [ih, and_assoc]

/-- The entries of a trace reach up to the largest end of their ranges. Empty ranges
count as well. -/
theorem reach_le_iff (map : FrameMap) (n : Nat) :
    reach map ≤ n ↔ ∀ (entry : Nat) (r : FrameRange), map[entry]? = some (some r) → r.stop ≤ n := by
  have hreach : reach map =
      (map.toList.map fun range => (range.map (·.stop)).getD 0).foldl max 0 := by
    rw [reach, ← Array.foldl_toList, List.foldl_map]
  simp only [hreach, foldl_max_le_iff, Nat.zero_le, true_and, List.forall_mem_map]
  constructor
  · intro h entry r hr
    have hmem : some r ∈ map.toList := Array.mem_toList_iff.mpr (Array.mem_of_getElem? hr)
    exact h _ hmem
  · intro h range hrange
    obtain ⟨entry, hentry⟩ := List.mem_iff_getElem?.mp hrange
    cases range with
    | none => exact Nat.zero_le n
    | some r => exact h entry r (by rwa [Array.getElem?_toList] at hentry)

/-! ## Tables -/

/-- The range of the frames that an entry belongs to, if it has one. The first of the two views is
read off it. -/
def rangeOf? (t : FrameTable) (c : Category) (entry : Nat) : Option FrameRange :=
  ((t.maps.get? c).bind (·[entry]?)).join

/-- An entry has a range if its category is framed and its entry in the map has one. -/
theorem rangeOf?_eq_some_iff {t : FrameTable} {c : Category} {entry : Nat} {r : FrameRange} :
    t.rangeOf? c entry = some r ↔
      ∃ map, t.maps.get? c = some map ∧ map[entry]? = some (some r) := by
  cases hget : t.maps.get? c with
  | none => simp [rangeOf?, hget]
  | some map => simp [rangeOf?, hget, Option.join_eq_some_iff]

/-- An entry belongs to the frames in its range. -/
theorem mem_framesOf {t : FrameTable} {c : Category} {entry i : Nat} :
    i ∈ t.framesOf c entry ↔ ∃ r, t.rangeOf? c entry = some r ∧ i ∈ r.frames := by
  simp only [framesOf, rangeOf?]
  cases (t.maps.get? c).bind (·[entry]?) with
  | none => simp
  | some range => cases range <;> simp

/-- Agreement of the two views of a table with each other, and an exact account of its frames. -/
structure Dual (t : FrameTable) : Prop where
  /-- An entry is listed in a frame exactly when the frame is one of those it belongs to. -/
  mem_entries_iff : ∀ i c entry, entry ∈ t.entries i c ↔ i ∈ t.framesOf c entry
  /-- The entries of a frame are listed in their order, each once. -/
  entries_ascending : ∀ i c, (t.entries i c).toList.Pairwise (· < ·)
  /-- Frames are numbered from zero without a gap. -/
  map_index_frame? : ∀ i, (t.frame? i).map (·.index) = if i < t.size then some i else none
  /-- Every frame has a list for exactly the framed categories. -/
  keys_frame? : ∀ i frame, t.frame? i = some frame → frame.entries.keys = t.categories
  /-- The framed categories are those that are listed. -/
  mem_categories_iff : ∀ c, c ∈ t.categories ↔ t.isFramed c = true
  /-- The framed categories are listed in order, each once. -/
  categories_ascending : t.categories.Pairwise fun a b => a.index < b.index
  /-- No range ends behind the last frame. -/
  stop_le_size : ∀ c entry r, t.rangeOf? c entry = some r → r.stop ≤ t.size
  /-- If there is a frame, some range ends with the last one. -/
  exists_stop_eq_size : 0 < t.size → ∃ c entry r, t.rangeOf? c entry = some r ∧ r.stop = t.size

section OfMaps

variable (maps : CategoryMap FrameMap)

/-- The number of frames is the largest end of a range, and zero if there are no ranges. -/
theorem size_ofMaps : (ofMaps maps).size = (maps.values.map reach).foldl max 0 := by
  simp [size, ofMaps]

/-- A table has as many frames as the largest end of a range says. Put as a bound, so that a range
can be compared with it. -/
theorem size_ofMaps_le_iff (n : Nat) :
    (ofMaps maps).size ≤ n ↔ ∀ c entry r, (ofMaps maps).rangeOf? c entry = some r → r.stop ≤ n := by
  rw [size_ofMaps, foldl_max_le_iff]
  simp only [Nat.zero_le, true_and, List.forall_mem_map, CategoryMap.mem_values, reach_le_iff,
    rangeOf?_eq_some_iff]
  constructor
  · rintro h c entry r ⟨map, hmap, hr⟩
    exact h map ⟨c, hmap⟩ entry r hr
  · rintro h map ⟨c, hmap⟩ entry r hr
    exact h c entry r ⟨map, hmap, hr⟩

/-- The frames of a table list the entries that belong to them, for each framed category. So the
second view is that of `entriesIn`. -/
theorem frame?_ofMaps (i : Nat) :
    (ofMaps maps).frame? i =
      if i < (ofMaps maps).size then some ⟨i, maps.map fun map => (entriesIn map i).toArray⟩
      else none := by
  rw [size_ofMaps, frame?, ofMaps, Array.getElem?_map, Array.getElem?_range]
  split
  · next hi =>
    rw [Option.map_some]
    congr 2
    ext c l
    cases hget : maps.get? c with
    | none => simp [hget]
    | some map => simp [hget, getElem?_scatter map hi]
  · rfl

/-- A frame lists the entries whose ranges it is in, and there are none behind the last frame nor of
categories that are not framed. -/
theorem toList_entries_ofMaps (i : Nat) (c : Category) :
    ((ofMaps maps).entries i c).toList =
      if i < (ofMaps maps).size then (maps.get? c).elim [] (entriesIn · i) else [] := by
  rw [entries, frame?_ofMaps]
  split
  · cases hget : maps.get? c <;> simp [hget]
  · rfl

/-- An entry is listed in a frame of a table exactly when it belongs to the frame. Where it would
belong to a frame behind the last one, its range would end behind it, which no range does. -/
theorem mem_entries_ofMaps_iff (i : Nat) (c : Category) (entry : Nat) :
    entry ∈ (ofMaps maps).entries i c ↔ i ∈ (ofMaps maps).framesOf c entry := by
  have hranges : entry ∈ (maps.get? c).elim [] (entriesIn · i) ↔
      ∃ r, (ofMaps maps).rangeOf? c entry = some r ∧ i ∈ r.frames := by
    cases hget : maps.get? c with
    | none => simp [rangeOf?, ofMaps, hget]
    | some map => simp [rangeOf?, ofMaps, hget, mem_entriesIn, Option.join_eq_some_iff]
  rw [← Array.mem_toList_iff, toList_entries_ofMaps, mem_framesOf, ← hranges]
  split
  · rfl
  · next hi =>
    -- A range that held a frame behind the last one would end behind it.
    refine iff_of_false List.not_mem_nil fun hentry => ?_
    obtain ⟨r, hr, hframe⟩ := hranges.mp hentry
    have hstop := (size_ofMaps_le_iff maps _).mp le_rfl c entry r hr
    exact hi (Nat.lt_of_lt_of_le (FrameRange.mem_frames.mp hframe).2 hstop)

/-- If a table has a frame, some range ends with the last one, so the table is no longer than it
has to be. -/
theorem exists_stop_eq_size_ofMaps (h : 0 < (ofMaps maps).size) :
    ∃ c entry r, (ofMaps maps).rangeOf? c entry = some r ∧ r.stop = (ofMaps maps).size := by
  by_contra hnone
  push Not at hnone
  have hle : (ofMaps maps).size ≤ (ofMaps maps).size - 1 := by
    refine (size_ofMaps_le_iff maps _).mpr fun c entry r hr => ?_
    have hstop := (size_ofMaps_le_iff maps _).mp le_rfl c entry r hr
    have hne := hnone c entry r hr
    omega
  omega

/-- The two views of a table agree, whatever ranges it is made of. Nothing is asked of where they
come from. -/
theorem dual_ofMaps : (ofMaps maps).Dual where
  mem_entries_iff := mem_entries_ofMaps_iff maps
  entries_ascending := by
    intro i c
    rw [toList_entries_ofMaps]
    split
    · cases maps.get? c with
      | none => exact .nil
      | some map => exact pairwise_entriesIn map i
    · exact .nil
  map_index_frame? := by
    intro i
    rw [frame?_ofMaps]
    split <;> rfl
  keys_frame? := by
    intro i frame hframe
    rw [frame?_ofMaps, Option.ite_none_right_eq_some] at hframe
    cases hframe.2
    exact CategoryMap.keys_map _ maps
  mem_categories_iff := fun c => CategoryMap.mem_keys
  categories_ascending := Category.all_pairwise.filter _
  stop_le_size := (size_ofMaps_le_iff maps _).mp le_rfl
  exists_stop_eq_size := exists_stop_eq_size_ofMaps maps

end OfMaps

end FrameTable

/-- The ranges in the table are those that the entries get from the relations. This ties the views
to the flow of frames. -/
theorem Traces.rangeOf?_correlate_eq_some_iff {traces : Traces} {relations : List Relation}
    {c : Category} {entry : Nat} {r : FrameRange} :
    (traces.correlate relations).rangeOf? c entry = some r ↔
      ∃ map, (traces.frameMaps relations).get? c = some map ∧ map[entry]? = some (some r) :=
  FrameTable.rangeOf?_eq_some_iff

/-- **Two views of one table.** Whatever the traces and the relations are, the table of the frames
lists an entry in exactly the frames that the entry belongs to, each list in order and without
repetition. Its frames are numbered from zero up to the largest end of a range, and each of them has
a list, maybe an empty one, for exactly the framed categories in their order. -/
theorem Traces.correlate_dual (traces : Traces) (relations : List Relation) :
    (traces.correlate relations).Dual :=
  FrameTable.dual_ofMaps _

end FrameAlign
