/-!
# Bisection

The place where the items of an array stop having a property, found by halving. For an array in
which the items with the property come first, `bisect_spec` says that the place is right.
-/

namespace FrameAlign

variable {α : Type}

/-- The place where the property stops among the `size` items after the first `start`. -/
def bisectFrom (xs : Array α) (p : α → Bool) (start size : Nat)
    (h : start + size ≤ xs.size) : Nat :=
  if hs : 1 < size then
    let half := size / 2
    if p xs[start + half] then bisectFrom xs p (start + half) (size - half) (by omega)
    else bisectFrom xs p start (size - half) (by omega)
  else if h1 : size = 1 then if p xs[start] then start + 1 else start
  else start
termination_by size

/-- The place where the items stop having the property: the number of items before it. -/
def bisect (xs : Array α) (p : α → Bool) : Nat := bisectFrom xs p 0 xs.size (by omega)

/-- The items with the property come before those without. -/
def Partitioned (xs : Array α) (p : α → Bool) : Prop :=
  ∀ i j (hi : i < xs.size) (hj : j < xs.size), i ≤ j → p xs[j] = true → p xs[i] = true

/-- The search keeps `true` below its window and `false` above it, so what it ends at splits the
whole array. The induction is on the halvings of the window. -/
private theorem bisectFrom_spec {xs : Array α} {p : α → Bool} (hp : Partitioned xs p)
    (start size : Nat) (h : start + size ≤ xs.size)
    (below : ∀ i (hi : i < xs.size), i < start → p xs[i] = true)
    (above : ∀ i (hi : i < xs.size), start + size ≤ i → p xs[i] = false) :
    bisectFrom xs p start size h ≤ xs.size ∧
      ∀ i (hi : i < xs.size), p xs[i] = true ↔ i < bisectFrom xs p start size h := by
  fun_induction bisectFrom xs p start size h with
  | case1 start size h hs half hmid ih =>
    refine ih ?_ ?_
    · intro i hi hlt
      exact hp i (start + half) hi (by omega) (by omega) hmid
    · intro i hi hle
      exact above i hi (by omega)
  | case2 start size h hs half hmid ih =>
    refine ih below ?_
    intro i hi hle
    by_cases hi' : start + size ≤ i
    · exact above i hi hi'
    · have hlt : start + half ≤ i := by omega
      cases hpi : p xs[i] with
      | false => rfl
      | true => exact absurd (hp (start + half) i (by omega) hi hlt hpi) hmid
  | case3 start h hs hit =>
    refine ⟨by omega, fun i hi => ⟨fun hpi => ?_, fun hlt => ?_⟩⟩
    · by_cases hle : start + 1 ≤ i
      · simp [above i hi hle] at hpi
      · omega
    · by_cases heq : i = start
      · subst heq; exact hit
      · exact below i hi (by omega)
  | case4 start h hs miss =>
    refine ⟨by omega, fun i hi => ⟨fun hpi => ?_, fun hlt => below i hi hlt⟩⟩
    by_cases hle : start + 1 ≤ i
    · simp [above i hi hle] at hpi
    · by_cases heq : i = start
      · subst heq; exact absurd hpi miss
      · omega
  | case5 start size h hs h1 =>
    refine ⟨by omega, fun i hi => ⟨fun hpi => ?_, fun hlt => below i hi hlt⟩⟩
    by_cases hle : start + size ≤ i
    · simp [above i hi hle] at hpi
    · omega

/-- The search never leaves its window, whether or not the array is partitioned. -/
theorem bisectFrom_le (xs : Array α) (p : α → Bool) (start size : Nat)
    (h : start + size ≤ xs.size) : bisectFrom xs p start size h ≤ start + size := by
  fun_induction bisectFrom xs p start size h with
  | case1 start size h hs half hmid ih => omega
  | case2 start size h hs half hmid ih => omega
  | case3 start h hs hit => omega
  | case4 start h hs miss => omega
  | case5 start size h hs h1 => omega

/-- The place found is one of the array or right behind it, also in an unpartitioned array. -/
theorem bisect_le_size (xs : Array α) (p : α → Bool) : bisect xs p ≤ xs.size := by
  have hle : bisect xs p ≤ 0 + xs.size := bisectFrom_le xs p 0 xs.size (by omega)
  omega

/-- A bisection asks for nothing but the property, so items that keep it are found alike. -/
theorem bisectFrom_map {β : Type} {xs : Array α} {p : α → Bool} {q : β → Bool} {f : α → β}
    (hq : ∀ x ∈ xs, q (f x) = p x) (start size : Nat) (h : start + size ≤ xs.size) :
    bisectFrom (xs.map f) q start size (by rwa [Array.size_map]) =
      bisectFrom xs p start size h := by
  fun_induction bisectFrom xs p start size h with
  | case1 start size h hs half hmid ih =>
    have hsize : start + half < (xs.map f).size := by rw [Array.size_map]; omega
    have hmid' : q (xs.map f)[start + half] = true := by
      rwa [Array.getElem_map, hq _ (Array.getElem_mem _)]
    rw [bisectFrom, dif_pos hs]
    exact (if_pos hmid').trans ih
  | case2 start size h hs half hmid ih =>
    have hsize : start + half < (xs.map f).size := by rw [Array.size_map]; omega
    have hmid' : ¬q (xs.map f)[start + half] = true := by
      rwa [Array.getElem_map, hq _ (Array.getElem_mem _)]
    rw [bisectFrom, dif_pos hs]
    exact (if_neg hmid').trans ih
  | case3 start h hs hit =>
    rw [bisectFrom, dif_neg hs, dif_pos rfl, Array.getElem_map, hq _ (Array.getElem_mem _),
      if_pos hit]
  | case4 start h hs miss =>
    rw [bisectFrom, dif_neg hs, dif_pos rfl, Array.getElem_map, hq _ (Array.getElem_mem _),
      if_neg miss]
  | case5 start size h hs h1 => rw [bisectFrom, dif_neg hs, dif_neg h1]

/-- A search is not changed by mapping the array when the predicate reads the same
through the map. -/
theorem bisect_map {β : Type} {xs : Array α} {p : α → Bool} {q : β → Bool} {f : α → β}
    (hq : ∀ x ∈ xs, q (f x) = p x) : bisect (xs.map f) q = bisect xs p := by
  have hmap := bisectFrom_map hq 0 xs.size (by omega)
  simpa only [bisect, Array.size_map] using hmap

/-- In a partitioned array exactly the items before the place found have the property. -/
theorem bisect_spec {xs : Array α} {p : α → Bool} (hp : Partitioned xs p) :
    bisect xs p ≤ xs.size ∧ ∀ i (hi : i < xs.size), p xs[i] = true ↔ i < bisect xs p :=
  bisectFrom_spec hp 0 xs.size (by omega) (fun i _ h => absurd h (by omega))
    (fun i hi h => absurd hi (by omega))

end FrameAlign
