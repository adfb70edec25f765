import FrameAlign.Proofs.Registry.Listing

/-!
# The offset of a registry

A load asks the registry for the largest offset among those that its traces report and those of the
traces in use. It gets one whenever any of them reports an offset, and none of them exceeds it.
-/

namespace FrameAlign

/-- An offset is the largest of those known. Equal offsets need not be told apart. -/
structure IsLargest (known : List Nanos) (offset : Nanos) : Prop where
  /-- It is one of them. -/
  mem : offset ∈ known
  /-- None of them exceeds it. -/
  le_of_mem : ∀ n ∈ known, n ≤ offset

/-- The largest offset stays so next to others that do not exceed some of those known. One step of
the search adds such an offset. -/
theorem IsLargest.of_subset {known known' : List Nanos} {offset : Nanos}
    (h : IsLargest known offset) (hsubset : known ⊆ known')
    (hle : ∀ n ∈ known', ∃ k ∈ known, n ≤ k) : IsLargest known' offset where
  mem := hsubset h.mem
  le_of_mem := by
    intro n hn
    obtain ⟨k, hk, hnk⟩ := hle n hn
    exact Int.le_trans hnk (h.le_of_mem k hk)

namespace Registry

/-- The offset that is kept when another one is met: the larger of the two. -/
def largerOffset (best : Option Nanos) (n : Nanos) : Option Nanos :=
  match best with
  | some b => if b < n then some n else some b
  | none => some n

/-- Going through a list keeps the largest offset met. The one that it starts from is counted
among the list. -/
theorem foldl_largerOffset (known : List Nanos) (best : Nanos) :
    ∃ offset, known.foldl largerOffset (some best) = some offset ∧
      IsLargest (best :: known) offset := by
  induction known generalizing best with
  | nil => exact ⟨best, rfl, by simp, by simp [Nanos.le_def]⟩
  | cons n known ih =>
    rw [List.foldl_cons]
    by_cases hlt : best < n
    · obtain ⟨offset, hfold, hlargest⟩ := ih n
      refine ⟨offset, by rwa [largerOffset, if_pos hlt], hlargest.of_subset (by simp) ?_⟩
      intro k hk
      rcases List.mem_cons.mp hk with rfl | hk
      · exact ⟨n, by simp, Int.le_of_lt hlt⟩
      · exact ⟨k, hk, Int.le_refl _⟩
    · obtain ⟨offset, hfold, hlargest⟩ := ih best
      refine ⟨offset, by rwa [largerOffset, if_neg hlt], hlargest.of_subset (by simp) ?_⟩
      intro k hk
      rcases List.mem_cons.mp hk with rfl | hk
      · exact ⟨k, by simp, Int.le_refl _⟩
      rcases List.mem_cons.mp hk with rfl | hk
      · exact ⟨best, by simp, Nanos.not_lt.mp hlt⟩
      · exact ⟨k, by simp [hk], Int.le_refl _⟩

/-- The offsets that are reported among those given and by the traces in use. Traces without an
offset report none. -/
def knownOffsets (r : Registry) (offsets : List (Option Nanos)) : List Nanos :=
  offsets.filterMap id ++ r.traces.filterMap (·.offset)

/-- Among reported offsets are those given, which a load reads from its recordings. -/
theorem mem_knownOffsets_of_mem {r : Registry} {offsets : List (Option Nanos)} {n : Nanos}
    (h : some n ∈ offsets) : n ∈ r.knownOffsets offsets :=
  List.mem_append_left _ (List.mem_filterMap.mpr ⟨some n, h, rfl⟩)

/-- Among reported offsets are those of the traces in use, from whatever load they are. -/
theorem mem_knownOffsets_of_mem_loaded {r : Registry} {offsets : List (Option Nanos)}
    {l : LoadedTrace} {n : Nanos} (hl : l ∈ r.loaded) (hn : l.trace.offset = some n) :
    n ∈ r.knownOffsets offsets :=
  List.mem_append_right _ (List.mem_filterMap.mpr ⟨l.trace, List.mem_map_of_mem hl, hn⟩)

/-- A load gets the largest offset that is reported if any is, and otherwise keeps what it has. -/
theorem exists_latestOffset? {r : Registry} {offsets : List (Option Nanos)} {n : Nanos}
    (h : n ∈ r.knownOffsets offsets) :
    ∃ offset, r.latestOffset? offsets = some offset ∧
      IsLargest (r.knownOffsets offsets) offset := by
  have hfold : r.latestOffset? offsets = (r.knownOffsets offsets).foldl largerOffset none := rfl
  rw [hfold]
  cases hknown : r.knownOffsets offsets with
  | nil =>
    rw [hknown] at h
    cases h
  | cons first rest => exact foldl_largerOffset rest first

end Registry

end FrameAlign
