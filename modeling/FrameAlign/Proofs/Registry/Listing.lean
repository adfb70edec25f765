import FrameAlign.Proofs.Category.Values
import FrameAlign.Registry.Basic

/-!
# The listing of a registry

A registry keeps its traces in two maps and lists them sorted by what they record. In a consistent
registry the two maps agree with each other, and then the listing is exact: one trace for each
category held, in the order of the categories, the same that a look-up finds.
-/

namespace FrameAlign.Registry

/-- Agreement of the two maps of a registry with each other and with the traces in them. The listing
reads both maps, so it is exact only if they agree. -/
structure Consistent (r : Registry) (file : TraceFile) : Prop where
  /-- A single file is held for the category it records. -/
  legacy_category : ∀ {c l}, r.legacy.get? c = some l → l.category = c
  /-- A trace of the session is held for the category it records. -/
  modern_category : ∀ {c l}, r.modern.get? c = some l → l.category = c
  /-- No category is held both as a single file and by the session. -/
  disjoint : ∀ {c}, r.legacy.contains c = true → r.modern.contains c = false
  /-- All traces of the session come from one file. -/
  session_file : ∀ {c l}, r.modern.get? c = some l → l.file = file

/-- An exact account of the traces of a registry. -/
structure Listed (r : Registry) : Prop where
  /-- The categories of the listing increase, so that none is listed twice. -/
  ordered : (r.loaded.map (·.category)).Pairwise fun a b => a.index < b.index
  /-- Exactly the categories held in one of the maps are listed. -/
  complete : ∀ c, c ∈ r.loaded.map (·.category) ↔
    r.legacy.contains c = true ∨ r.modern.contains c = true
  /-- The traces alone are listed alike. -/
  traces_category : r.traces.map (·.category) = r.loaded.map (·.category)
  /-- The number of traces is that of the listing. -/
  size_eq : r.size = r.loaded.length
  /-- A look-up finds the listed trace of its category and nothing else. -/
  get?_eq_some_iff : ∀ c l, r.get? c = some l ↔ l ∈ r.loaded ∧ l.category = c
  /-- A removal reports whether the category was listed. -/
  take_fst : ∀ c, (r.take c).1 = true ↔ c ∈ r.loaded.map (·.category)
  /-- A removal leaves the listed traces of all other categories as they are. -/
  take_snd : ∀ c, (r.take c).2.loaded = r.loaded.filter fun l => l.category ≠ c

/-- Registries with one policy and the same traces in all places are the same. Two histories are
compared place by place in this way. -/
theorem eq_of_get?_eq {r r' : Registry} (hpolicy : r.policy = r'.policy)
    (hlegacy : ∀ c, r.legacy.get? c = r'.legacy.get? c)
    (hmodern : ∀ c, r.modern.get? c = r'.modern.get? c) : r = r' := by
  obtain ⟨policy, legacy, modern⟩ := r
  obtain ⟨policy', legacy', modern'⟩ := r'
  simp only [mk.injEq]
  exact ⟨hpolicy, CategoryMap.ext hlegacy, CategoryMap.ext hmodern⟩

/-- A category has a trace when one of the maps holds it. -/
theorem contains_eq_or (r : Registry) (c : Category) :
    r.contains c = (r.legacy.contains c || r.modern.contains c) := by
  rw [contains, get?, CategoryMap.contains, CategoryMap.contains]
  cases r.modern.get? c <;> simp

/-- A removal takes its category out of those with a trace, from both maps. -/
theorem contains_remove (r : Registry) (c d : Category) :
    (r.remove c).contains d = (decide (c ≠ d) && r.contains d) := by
  rw [contains_eq_or, contains_eq_or, remove, CategoryMap.contains_erase,
    CategoryMap.contains_erase, Bool.and_or_distrib_left]

/-- The removal of a category without traces changes nothing, so it need not be asked whether
there is one. -/
theorem remove_eq_self {r : Registry} {c : Category} (h : r.contains c = false) :
    r.remove c = r := by
  rw [contains_eq_or, Bool.or_eq_false_iff] at h
  rw [remove, CategoryMap.erase_eq_self h.1, CategoryMap.erase_eq_self h.2]

/-- The listing holds the traces of both maps, whatever they are. Sorting does not change how often
a trace is listed. -/
theorem coe_loaded (r : Registry) :
    (r.loaded : Multiset LoadedTrace) =
      (r.legacy.values : Multiset LoadedTrace) + r.modern.values := by
  rw [Multiset.coe_add, Multiset.coe_eq_coe]
  exact List.mergeSort_perm _ _

/-- A trace is listed when one of the maps holds it. -/
theorem mem_loaded {r : Registry} {l : LoadedTrace} :
    l ∈ r.loaded ↔ l ∈ r.legacy.values ∨ l ∈ r.modern.values := by
  rw [← Multiset.mem_coe, coe_loaded, Multiset.mem_add, Multiset.mem_coe, Multiset.mem_coe]

/-- A registry whose maps hold no more than those of another lists no more. Removals are compared in
this way with what was before. -/
theorem loaded_subset_of_get?_le {r r' : Registry}
    (hlegacy : ∀ {c l}, r'.legacy.get? c = some l → r.legacy.get? c = some l)
    (hmodern : ∀ {c l}, r'.modern.get? c = some l → r.modern.get? c = some l) :
    r'.loaded ⊆ r.loaded := by
  intro l hl
  rcases mem_loaded.mp hl with hl | hl
  · exact mem_loaded.mpr (Or.inl (CategoryMap.values_subset_of_get?_le hlegacy hl))
  · exact mem_loaded.mpr (Or.inr (CategoryMap.values_subset_of_get?_le hmodern hl))

/-- The number of traces is that of the listing, also in a registry that is not consistent. -/
theorem size_eq_length_loaded (r : Registry) : r.size = r.loaded.length := by
  have hcard := congrArg Multiset.card (coe_loaded r)
  rw [Multiset.card_add, Multiset.coe_card, Multiset.coe_card, Multiset.coe_card] at hcard
  rw [size, CategoryMap.size_eq_length_values, CategoryMap.size_eq_length_values, hcard]

namespace Consistent

variable {r : Registry} {file : TraceFile}

/-- What a look-up finds records the category looked up. -/
theorem get?_category (h : r.Consistent file) {c : Category} {l : LoadedTrace}
    (hl : r.get? c = some l) : l.category = c := by
  rw [get?] at hl
  cases hmodern : r.modern.get? c with
  | none =>
    rw [hmodern] at hl
    exact h.legacy_category hl
  | some k =>
    rw [hmodern] at hl
    cases hl
    exact h.modern_category hmodern

/-- A single file is held exactly for the category it records, so the map is known from
its values. -/
theorem legacy_get?_eq_some_iff (h : r.Consistent file) {c : Category} {l : LoadedTrace} :
    r.legacy.get? c = some l ↔ l ∈ r.legacy.values ∧ l.category = c := by
  constructor
  · intro hl
    exact ⟨CategoryMap.mem_values.mpr ⟨c, hl⟩, h.legacy_category hl⟩
  · rintro ⟨hl, rfl⟩
    obtain ⟨c, hc⟩ := CategoryMap.mem_values.mp hl
    rwa [h.legacy_category hc]

/-- Over any categories, the values of the two maps are what look-ups find. Since no category is in
both, no look-up hides a trace. -/
theorem filterMap_perm (h : r.Consistent file) (categories : List Category) :
    (categories.filterMap r.legacy.get? ++ categories.filterMap r.modern.get?).Perm
      (categories.filterMap r.get?) := by
  induction categories with
  | nil => exact .refl _
  | cons c categories ih =>
    cases hlegacy : r.legacy.get? c with
    | none =>
      cases hmodern : r.modern.get? c with
      | none => simpa [get?, hlegacy, hmodern] using ih
      | some k => simpa [get?, hlegacy, hmodern] using List.perm_middle.trans (ih.cons k)
    | some l =>
      have hmodern : r.modern.get? c = none :=
        CategoryMap.contains_eq_false_iff.mp
          (h.disjoint (CategoryMap.contains_iff.mpr ⟨l, hlegacy⟩))
      simpa [get?, hlegacy, hmodern] using ih.cons l

/-- The listing looks up every category in order. Single files and session traces come in turns, as
the sort has them. -/
theorem loaded_eq (h : r.Consistent file) : r.loaded = Category.all.filterMap r.get? := by
  have hperm : r.loaded.Perm (Category.all.filterMap r.get?) :=
    (List.mergeSort_perm _ _).trans (h.filterMap_perm Category.all)
  have hsorted : r.loaded.Pairwise fun a b => a.category.index ≤ b.category.index := by
    have hmerge := @List.pairwise_mergeSort LoadedTrace
      (fun a b => decide (a.category.index ≤ b.category.index))
      (fun a b c hab hbc => by
        simp only [decide_eq_true_eq] at hab hbc ⊢
        exact Fin.le_trans hab hbc)
      (fun a b => by simpa using Fin.le_total a.category.index b.category.index)
      (r.legacy.values ++ r.modern.values)
    simpa only [loaded, decide_eq_true_eq] using hmerge
  have hlookup : (Category.all.filterMap r.get?).Pairwise
      fun a b => a.category.index ≤ b.category.index := by
    refine Category.all_pairwise.filterMap _ ?_
    intro c d hcd a ha b hb
    rw [h.get?_category ha, h.get?_category hb]
    exact Fin.le_of_lt hcd
  refine hperm.eq_of_pairwise ?_ hsorted hlookup
  -- Two traces of one place in the order have one category and are found by one look-up.
  intro a b ha hb hab hba
  obtain ⟨c, -, hc⟩ := List.mem_filterMap.mp (hperm.mem_iff.mp ha)
  obtain ⟨d, -, hd⟩ := List.mem_filterMap.mp hb
  have hcategory : a.category = b.category := Category.index_injective (Fin.le_antisymm hab hba)
  rw [h.get?_category hc, h.get?_category hd] at hcategory
  subst hcategory
  exact Option.some.inj (hc.symm.trans hd)

/-- The categories of the listing are those with a trace, in order. -/
theorem map_category_loaded (h : r.Consistent file) :
    r.loaded.map (·.category) = Category.all.filter r.contains := by
  rw [h.loaded_eq, List.map_filterMap, ← List.filterMap_eq_filter]
  apply List.filterMap_congr
  intro c _
  rw [Option.guard, contains]
  cases hget : r.get? c with
  | none => simp
  | some l => simp [h.get?_category hget]

/-- A category is listed when it has a trace. -/
theorem mem_map_category (h : r.Consistent file) {c : Category} :
    c ∈ r.loaded.map (·.category) ↔ r.contains c = true := by
  rw [h.map_category_loaded, List.mem_filter]
  exact and_iff_right (Category.mem_all c)

/-- A look-up finds the listed trace of its category and nothing else. So the listing and look-ups
say the same. -/
theorem get?_eq_some_iff (h : r.Consistent file) {c : Category} {l : LoadedTrace} :
    r.get? c = some l ↔ l ∈ r.loaded ∧ l.category = c := by
  rw [h.loaded_eq, List.mem_filterMap]
  constructor
  · intro hl
    exact ⟨⟨c, Category.mem_all c, hl⟩, h.get?_category hl⟩
  · rintro ⟨⟨d, -, hd⟩, hcategory⟩
    rwa [← hcategory, h.get?_category hd]

/-- Two listed traces of one category are the same, so a trace in use is known by its category. -/
theorem eq_of_category_eq (h : r.Consistent file) {l k : LoadedTrace} (hl : l ∈ r.loaded)
    (hk : k ∈ r.loaded) (hcategory : l.category = k.category) : l = k := by
  have hfound := h.get?_eq_some_iff.mpr ⟨hl, hcategory⟩
  have hfound' := h.get?_eq_some_iff.mpr ⟨hk, rfl⟩
  exact Option.some.inj (hfound.symm.trans hfound')

/-- A registry whose maps hold no more than those of a consistent one is consistent. Dropping traces
needs no other argument. -/
theorem of_get?_le (h : r.Consistent file) {r' : Registry}
    (hlegacy : ∀ {c l}, r'.legacy.get? c = some l → r.legacy.get? c = some l)
    (hmodern : ∀ {c l}, r'.modern.get? c = some l → r.modern.get? c = some l) :
    r'.Consistent file where
  legacy_category := fun hl => h.legacy_category (hlegacy hl)
  modern_category := fun hl => h.modern_category (hmodern hl)
  disjoint := by
    intro c hc
    obtain ⟨l, hl⟩ := CategoryMap.contains_iff.mp hc
    have hfree := h.disjoint (CategoryMap.contains_iff.mpr ⟨l, hlegacy hl⟩)
    rw [CategoryMap.contains_eq_false_iff, Option.eq_none_iff_forall_ne_some] at hfree ⊢
    exact fun k hk => hfree k (hmodern hk)
  session_file := fun hl => h.session_file (hmodern hl)

/-- A removal keeps a registry consistent, since it only drops traces. -/
theorem remove (h : r.Consistent file) (c : Category) : (r.remove c).Consistent file :=
  h.of_get?_le CategoryMap.get?_of_get?_erase CategoryMap.get?_of_get?_erase

/-- After a removal a look-up finds what it found before, but for the removed category. -/
theorem get?_remove (h : r.Consistent file) (c d : Category) :
    (r.remove c).get? d = (r.get? d).filter fun l => l.category ≠ c := by
  rw [Registry.remove, get?, CategoryMap.get?_erase, CategoryMap.get?_erase]
  by_cases hc : c = d
  · subst hc
    cases hget : r.get? c with
    | none => simp
    | some l => simp [Option.filter_some, h.get?_category hget]
  · rw [if_neg hc, if_neg hc, ← get?]
    cases hget : r.get? d with
    | none => simp
    | some l =>
      have hne : d ≠ c := fun heq => hc heq.symm
      simp [Option.filter_some, h.get?_category hget, hne]

/-- A consistent registry has an exact listing: the parts of the account, put together. -/
theorem listed (h : r.Consistent file) : r.Listed where
  ordered := by
    rw [h.map_category_loaded]
    exact Category.all_pairwise.filter _
  complete := by
    intro c
    rw [h.mem_map_category, contains_eq_or, Bool.or_eq_true]
  traces_category := by
    rw [traces, List.map_map]
    rfl
  size_eq := size_eq_length_loaded r
  get?_eq_some_iff := fun _ _ => h.get?_eq_some_iff
  take_fst := by
    intro c
    rw [h.mem_map_category, contains_eq_or]
    rfl
  take_snd := by
    intro c
    have hlookup : (r.remove c).get? = fun d => (r.get? d).filter fun l => l.category ≠ c :=
      funext (h.get?_remove c)
    rw [take, (h.remove c).loaded_eq, h.loaded_eq, hlookup, List.filter_filterMap]

end Consistent

end FrameAlign.Registry
