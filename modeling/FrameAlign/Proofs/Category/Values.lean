import FrameAlign.Category.Map
import Mathlib.Algebra.Order.Group.Multiset

/-!
# The values of a category map

A map from categories lists its values in the order of the categories, each one once. The
statements here say what an insertion, an erasure and a selection do to that list. They count
values, so they are stated on multisets where the order has no meaning.
-/

namespace FrameAlign

/-- The list of all categories is in strictly increasing order. Listings of maps are in order
because of this. -/
theorem Category.all_pairwise : Category.all.Pairwise (·.index < ·.index) := by
  decide

/-- No category is listed twice, so erasing one from the list takes out all of it. -/
theorem Category.all_nodup : Category.all.Nodup := by
  decide

namespace CategoryMap

variable {α : Type}

/-- A category is in a map exactly if the map has a value for it. -/
theorem contains_iff {m : CategoryMap α} {c : Category} :
    m.contains c = true ↔ ∃ a, m.get? c = some a := by
  rw [contains, Option.isSome_iff_exists]

/-- A category is not in a map exactly if the map has no value for it. -/
theorem contains_eq_false_iff {m : CategoryMap α} {c : Category} :
    m.contains c = false ↔ m.get? c = none := by
  rw [contains, Option.isSome_eq_false_iff, Option.isNone_iff_eq_none]

/-- An insertion adds its category to those with a value, also when it replaces one. -/
theorem contains_insert (m : CategoryMap α) (c d : Category) (a : α) :
    (m.insert c a).contains d = (decide (c = d) || m.contains d) := by
  rw [contains, get?_insert, contains]
  by_cases h : c = d
  · simp [h]
  · simp [h]

/-- An erasure takes its category out of those with a value, and no other. -/
theorem contains_erase (m : CategoryMap α) (c d : Category) :
    (m.erase c).contains d = (decide (c ≠ d) && m.contains d) := by
  rw [contains, get?_erase, contains]
  by_cases h : c = d
  · simp [h]
  · simp [h]

/-- An erasure of a category without a value changes nothing, so removing twice is removing once. -/
theorem erase_eq_self {m : CategoryMap α} {c : Category} (h : m.contains c = false) :
    m.erase c = m := by
  ext1 d
  rw [get?_erase, ite_eq_right_iff]
  rintro rfl
  exact (contains_eq_false_iff.mp h).symm

/-- The empty map has no values. -/
@[simp] theorem values_empty : (empty : CategoryMap α).values = [] := by
  simp [values]

/-- A map from value to value has the same categories, so what is done to all values leaves the
presence of each. -/
theorem keys_map {β : Type} (f : α → β) (m : CategoryMap α) : (m.map f).keys = m.keys := by
  refine List.filter_congr fun c _ => ?_
  rw [contains, contains, get?_map, Option.isSome_map]

/-- Two changes of all values are one change by both. The changes of views are put together with
this. -/
theorem map_map {β γ : Type} (f : α → β) (g : β → γ) (m : CategoryMap α) :
    (m.map f).map g = m.map (g ∘ f) := by
  ext1 c
  rw [get?_map, get?_map, get?_map, Option.map_map]

/-- A map in which every value changes has the changed values, in the same order. -/
theorem values_map {β : Type} (f : α → β) (m : CategoryMap α) :
    (m.map f).values = m.values.map f := by
  rw [values, values, List.map_filterMap]
  exact List.filterMap_congr fun c _ => get?_map f m c

/-- A map without one category holds what the whole map holds for the others. This is the form in
which an erasure only makes a map smaller. -/
theorem get?_of_get?_erase {m : CategoryMap α} {c d : Category} {a : α}
    (h : (m.erase c).get? d = some a) : m.get? d = some a := by
  rw [get?_erase] at h
  split at h
  · contradiction
  · exact h

/-- A map that holds no more than another has no other values. Steps that only drop values are known
by the hypothesis. -/
theorem values_subset_of_get?_le {m n : CategoryMap α}
    (h : ∀ {c a}, n.get? c = some a → m.get? c = some a) : n.values ⊆ m.values := by
  intro a ha
  obtain ⟨c, hc⟩ := mem_values.mp ha
  exact mem_values.mpr ⟨c, h hc⟩

/-- A map that holds no more than an empty one is empty, so a step that only drops values leaves
nothing to look at. -/
theorem eq_empty_of_get?_le {m n : CategoryMap α}
    (h : ∀ {c a}, n.get? c = some a → m.get? c = some a) (hm : m = empty) : n = empty := by
  ext1 c
  rw [get?_empty, Option.eq_none_iff_forall_ne_some]
  intro a ha
  have hempty := h ha
  rw [hm, get?_empty] at hempty
  cases hempty

/-- A map has as many values as categories with a value, as each category has one at most. -/
theorem size_eq_length_values (m : CategoryMap α) : m.size = m.values.length := by
  rw [size, keys, values, List.length_filterMap_eq_countP, List.countP_eq_length_filter]
  rfl

/-- The value of one category can be counted apart from those of all the others. Here the order has
no meaning, so the values are a multiset. -/
theorem values_eq_get?_add (m : CategoryMap α) (c : Category) :
    (m.values : Multiset α) =
      ((m.get? c).toList : Multiset α) + ((Category.all.erase c).filterMap m.get? : List α) := by
  have hperm : Category.all.Perm (c :: Category.all.erase c) :=
    List.perm_cons_erase (Category.mem_all c)
  have hvalues := hperm.filterMap m.get?
  rw [Multiset.coe_add, Multiset.coe_eq_coe]
  cases hget : m.get? c with
  | none => simpa [values, hget] using hvalues
  | some a => simpa [values, hget] using hvalues

/-- Maps that agree outside of a category list the same other values. An insertion and an erasure
agree so with the map they started from. -/
theorem filterMap_others_congr {m n : CategoryMap α} {c : Category}
    (h : ∀ d, c ≠ d → n.get? d = m.get? d) :
    (Category.all.erase c).filterMap n.get? = (Category.all.erase c).filterMap m.get? := by
  apply List.filterMap_congr
  intro d hd
  have hne : d ≠ c := ((Category.all_nodup.mem_erase_iff).mp hd).1
  exact h d hne.symm

/-- An erasure takes out exactly the value of its category. The balance of what is dropped counts
with this. -/
theorem values_eq_get?_add_erase (m : CategoryMap α) (c : Category) :
    (m.values : Multiset α) = ((m.get? c).toList : Multiset α) + (m.erase c).values := by
  have hothers : (Category.all.erase c).filterMap (m.erase c).get? =
      (Category.all.erase c).filterMap m.get? :=
    filterMap_others_congr fun d hne => by rw [get?_erase, if_neg hne]
  have herase := values_eq_get?_add (m.erase c) c
  rw [get?_erase, if_pos rfl, hothers] at herase
  rw [values_eq_get?_add m c, herase]
  simp

/-- An insertion adds its value and takes out the one that its category had. Both sides of an
exchange are counted, so nothing gets lost by it. -/
theorem values_insert_add_get? (m : CategoryMap α) (c : Category) (a : α) :
    ((m.insert c a).values : Multiset α) + ((m.get? c).toList : Multiset α) =
      a ::ₘ (m.values : Multiset α) := by
  have hothers : (Category.all.erase c).filterMap (m.insert c a).get? =
      (Category.all.erase c).filterMap m.get? :=
    filterMap_others_congr fun d hne => by rw [get?_insert, if_neg hne]
  rw [values_eq_get?_add (m.insert c a) c, get?_insert, if_pos rfl, hothers,
    values_eq_get?_add m c]
  simp only [Option.toList_some, Multiset.coe_singleton, Multiset.singleton_add,
    Multiset.cons_add, add_comm]

/-- Selecting in every category selects in the list of values. The order is kept, so this holds of
lists. -/
theorem values_eq_filter {m n : CategoryMap α} {p : α → Bool}
    (h : ∀ c, n.get? c = (m.get? c).filter p) : n.values = m.values.filter p := by
  have hget : n.get? = fun c => (m.get? c).filter p := funext h
  rw [values, values, hget, List.filter_filterMap]

/-- The values are those of the listed pairs. A sweep runs over pairs, and its account is about
values. -/
theorem map_snd_toList (m : CategoryMap α) : m.toList.map (·.2) = m.values := by
  rw [toList, values, List.map_filterMap]
  congr 1
  funext c
  cases m.get? c <;> rfl

/-- Erasing some categories one after the other leaves the values of the others. The order of the
erasures plays no part. -/
theorem get?_foldl_erase {β : Type} (pairs : List (Category × β)) (m : CategoryMap α)
    (d : Category) :
    (pairs.foldl (fun held p => held.erase p.1) m).get? d =
      if d ∈ pairs.map (·.1) then none else m.get? d := by
  induction pairs generalizing m with
  | nil => simp
  | cons p pairs ih =>
    rw [List.foldl_cons, ih, get?_erase]
    by_cases hp : p.1 = d
    · simp [hp]
    · have hd : ¬d = p.1 := fun h => hp h.symm
      simp only [List.map_cons, List.mem_cons, if_neg hp, hd, false_or]

/-- Inserting some values that a map has makes a map with just these in place. Every pair has the
value of that map, so a category that comes twice does no harm. -/
theorem get?_foldl_insert {n : CategoryMap α} (pairs : List (Category × α))
    (hpairs : ∀ p ∈ pairs, n.get? p.1 = some p.2) (m : CategoryMap α) (c : Category) :
    (pairs.foldl (fun m p => m.insert p.1 p.2) m).get? c =
      if c ∈ pairs.map (·.1) then n.get? c else m.get? c := by
  induction pairs generalizing m with
  | nil => simp
  | cons p pairs ih =>
    rw [List.foldl_cons, ih fun q hq => hpairs q (List.mem_cons_of_mem p hq), get?_insert]
    by_cases hrest : c ∈ pairs.map (·.1)
    · simp [hrest]
    · by_cases hp : p.1 = c
      · subst hp
        simp [hpairs p List.mem_cons_self]
      · have hc : ¬c = p.1 := fun h => hp h.symm
        simp [hrest, hp, hc]

/-- A map with changed values is made from the pairs with these. A view that is built from pairs is
compared with a map in this way. -/
theorem ofList_map_toList {β : Type} (f : α → β) (m : CategoryMap α) :
    ofList (m.toList.map fun p => (p.1, f p.2)) = m.map f := by
  have hpairs : ∀ p ∈ m.toList.map fun p => (p.1, f p.2), (m.map f).get? p.1 = some p.2 := by
    intro p hp
    obtain ⟨q, hq, rfl⟩ := List.mem_map.mp hp
    rw [get?_map, mem_toList.mp hq, Option.map_some]
  ext1 c
  rw [ofList, get?_foldl_insert _ hpairs, get?_empty, ite_eq_left_iff]
  intro hc
  cases hget : (m.map f).get? c with
  | none => rfl
  | some b =>
    rw [get?_map, Option.map_eq_some_iff] at hget
    obtain ⟨a, ha, -⟩ := hget
    refine absurd ?_ hc
    exact List.mem_map.mpr ⟨(c, f a), List.mem_map.mpr ⟨(c, a), mem_toList.mpr ha, rfl⟩, rfl⟩

end CategoryMap

end FrameAlign
