import FrameAlign.Frames.Correlation

/-!
# The flow of frames along relations

What one relation can do to the frames of all traces is said once, in `follow_cases`. Whatever holds
of the frames of the root and is handed on by every relation then holds of all frames that the
relations reach, `frameMaps_induction`.
-/

namespace FrameAlign

/-- A map that was brought to a size has it. -/
theorem FrameMap.size_resize (map : FrameMap) (size : Nat) : (map.resize size).size = size := by
  rw [resize, Array.size_append, Array.size_extract, Array.size_replicate]
  omega

/-- Entries that a map does not know have no frames, and no entries are left behind the size. For
those between, nothing changes. -/
theorem FrameMap.getElem?_resize (map : FrameMap) (size i : Nat) :
    (map.resize size)[i]? = if i < size then some map[i]?.join else none := by
  simp only [resize, Array.getElem?_append, Array.size_extract, Array.getElem?_extract,
    Array.getElem?_replicate, Nat.sub_zero, Nat.zero_add]
  by_cases hsize : i < size
  · by_cases hmap : i < map.size
    · have hmin : i < min size map.size := Nat.lt_min.mpr ⟨hsize, hmap⟩
      simp [hsize, hmap, hmin]
    · have hnone : map[i]? = none := Array.getElem?_eq_none (Nat.le_of_not_lt hmap)
      rw [if_neg (by omega), if_pos (by omega), if_pos hsize, hnone, Option.join_none]
  · rw [if_neg (by omega), if_neg (by omega), if_neg hsize]

namespace Traces

variable {traces : Traces} {r : Relation} {maps : CategoryMap FrameMap}

/-- The frames that the target of a relation gets from those of its source. Both traces are present
and the relation applies to them; what it finds is brought to the size of the target. -/
inductive Flow (traces : Traces) (r : Relation) (frames : FrameMap) : FrameMap → Prop
  /-- What the link finds is brought to the size of the target. -/
  | intro {target source : Trace} {map : FrameMap} (htarget : traces.get? r.target = some target)
      (hsource : traces.get? r.source = some source)
      (hmap : r.propagate target source frames = some map) :
      Flow traces r frames (map.resize target.size)

/-- A relation changes nothing, as its target has frames or cannot get any, or it gives frames to
its target. All that is proved of relations starts from these two cases, so none of the proofs
unfolds the step. -/
theorem follow_cases (traces : Traces) (maps : CategoryMap FrameMap) (r : Relation) :
    traces.follow maps r = maps ∧ (maps.contains r.target = true ∨
        ∀ frames map, maps.get? r.source = some frames → ¬traces.Flow r frames map) ∨
      ∃ frames map, maps.contains r.target = false ∧ maps.get? r.source = some frames ∧
        traces.Flow r frames map ∧ traces.follow maps r = maps.insert r.target map := by
  rw [follow]
  by_cases hframed : maps.contains r.target = true
  · exact Or.inl ⟨if_pos hframed, Or.inl hframed⟩
  rw [if_neg hframed]
  split
  · next target source frames htarget hsource hframes =>
    cases hmap : r.propagate target source frames with
    | some map =>
      exact Or.inr ⟨frames, _, Bool.eq_false_iff.mpr hframed, hframes,
        .intro htarget hsource hmap, rfl⟩
    | none =>
      refine Or.inl ⟨rfl, Or.inr ?_⟩
      rintro frames' _ hframes' ⟨htarget', hsource', hmap'⟩
      cases hframes.symm.trans hframes'
      cases htarget.symm.trans htarget'
      cases hsource.symm.trans hsource'
      cases hmap.symm.trans hmap'
  · next hmissing =>
    refine Or.inl ⟨rfl, Or.inr ?_⟩
    rintro frames _ hframes ⟨htarget, hsource, -⟩
    exact hmissing _ _ _ htarget hsource hframes

/-- What holds of some frames and is handed on by some relations holds of all frames that these
relations reach. The property may depend on the category. -/
theorem foldl_follow_induction {P : Category → FrameMap → Prop} (relations : List Relation)
    (hstart : ∀ c map, maps.get? c = some map → P c map)
    (hflow : ∀ r ∈ relations, ∀ frames map, P r.source frames → traces.Flow r frames map →
      P r.target map) :
    ∀ c map, (relations.foldl traces.follow maps).get? c = some map → P c map := by
  induction relations generalizing maps with
  | nil => exact hstart
  | cons r relations ih =>
    rw [List.foldl_cons]
    refine ih ?_ fun r' hr' => hflow r' (List.mem_cons_of_mem r hr')
    rcases follow_cases traces maps r with ⟨hsame, -⟩ | ⟨frames, map, -, hframes, hmap, hinsert⟩
    · rwa [hsame]
    · intro c map' hget
      rw [hinsert, CategoryMap.get?_insert] at hget
      split at hget
      · next htarget =>
        subst htarget
        cases hget
        exact hflow r List.mem_cons_self frames map (hstart _ _ hframes) hmap
      · exact hstart c map' hget

/-- What holds of the frames of the root and is handed on by the relations holds of all frames. It
is the case of `foldl_follow_induction` that starts with the root alone, or with nothing when there
is no root. -/
theorem frameMaps_induction {P : Category → FrameMap → Prop} {relations : List Relation}
    (hroot : ∀ root, traces.root? = some root →
      P root.category (FrameMap.root root.size root.vsyncIds))
    (hflow : ∀ r ∈ relations, ∀ frames map, P r.source frames → traces.Flow r frames map →
      P r.target map)
    {c : Category} {map : FrameMap} (hget : (traces.frameMaps relations).get? c = some map) :
    P c map := by
  rw [frameMaps] at hget
  split at hget
  · rw [CategoryMap.get?_empty] at hget
    contradiction
  · next root hfound =>
    refine foldl_follow_induction relations ?_ hflow c map hget
    intro c map hget
    rw [CategoryMap.get?_insert, CategoryMap.get?_empty] at hget
    split at hget
    · next hcategory =>
      subst hcategory
      cases hget
      exact hroot root hfound
    · contradiction

end Traces

end FrameAlign
