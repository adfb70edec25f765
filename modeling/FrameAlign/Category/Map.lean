import FrameAlign.Category

/-!
# Maps from categories

One slot for each category. Everything about a map is said through `get?`: `get?_insert` and
`get?_erase` are the laws of the two updates, and maps with equal look-ups are equal.
-/

namespace FrameAlign

/-- A map with at most one value for each category. -/
structure CategoryMap (α : Type) where
  slots : Vector (Option α) 15

namespace CategoryMap

variable {α : Type}

/-- The map without values. -/
def empty : CategoryMap α := ⟨Vector.replicate 15 none⟩

instance : EmptyCollection (CategoryMap α) := ⟨empty⟩

instance : Inhabited (CategoryMap α) := ⟨empty⟩

/-- The value of a category. -/
def get? (m : CategoryMap α) (c : Category) : Option α := m.slots[c.index]

/-- The map in which `c` has the value `a`. -/
def insert (m : CategoryMap α) (c : Category) (a : α) : CategoryMap α :=
  ⟨m.slots.set c.index (some a) c.index.isLt⟩

/-- The map in which `c` has no value. -/
def erase (m : CategoryMap α) (c : Category) : CategoryMap α :=
  ⟨m.slots.set c.index none c.index.isLt⟩

/-- Whether `c` has a value. -/
def contains (m : CategoryMap α) (c : Category) : Bool := (m.get? c).isSome

/-- The categories with a value, in order. -/
def keys (m : CategoryMap α) : List Category := Category.all.filter m.contains

/-- The values, in the order of their categories. -/
def values (m : CategoryMap α) : List α := Category.all.filterMap m.get?

/-- The categories together with their values, in order. -/
def toList (m : CategoryMap α) : List (Category × α) :=
  Category.all.filterMap fun c => (m.get? c).map (c, ·)

/-- How many categories have a value. -/
def size (m : CategoryMap α) : Nat := m.keys.length

/-- Whether no category has a value. -/
def isEmpty (m : CategoryMap α) : Bool := m.keys.isEmpty

/-- The map with `f` applied to every value. -/
def map {β : Type} (f : α → β) (m : CategoryMap α) : CategoryMap β := ⟨m.slots.map (·.map f)⟩

/-- The map with the given values; of two for one category the later stays. -/
def ofList (pairs : List (Category × α)) : CategoryMap α :=
  pairs.foldl (fun m p => m.insert p.1 p.2) empty

/-- Nothing is held where nothing was inserted yet. -/
@[simp] theorem get?_empty (c : Category) : (empty : CategoryMap α).get? c = none := by
  simp [get?, empty]

/-- An insertion changes what is held at its own category and at no other. -/
theorem get?_insert (m : CategoryMap α) (c d : Category) (a : α) :
    (m.insert c a).get? d = if c = d then some a else m.get? d := by
  by_cases h : c = d
  · subst h
    simp [get?, insert]
  · have h' : c.index.val ≠ d.index.val := fun e => h (Category.index_injective (Fin.ext e))
    simp [get?, insert, h, h']

/-- An erasure empties its own place and leaves every other as it was. -/
theorem get?_erase (m : CategoryMap α) (c d : Category) :
    (m.erase c).get? d = if c = d then none else m.get? d := by
  by_cases h : c = d
  · subst h
    simp [get?, erase]
  · have h' : c.index.val ≠ d.index.val := fun e => h (Category.index_injective (Fin.ext e))
    simp [get?, erase, h, h']

/-- A map changes what is held and never where. -/
@[simp] theorem get?_map {β : Type} (f : α → β) (m : CategoryMap α) (c : Category) :
    (m.map f).get? c = (m.get? c).map f := by
  simp [get?, map]

/-- The empty map has no category at all. -/
@[simp] theorem contains_empty (c : Category) : (empty : CategoryMap α).contains c = false := by
  simp [contains]

/-- The listed keys are exactly the categories at which something is held. -/
theorem mem_keys {m : CategoryMap α} {c : Category} : c ∈ m.keys ↔ m.contains c = true := by
  simp [keys, Category.mem_all]

/-- The listed values are exactly what is held at some category. -/
theorem mem_values {m : CategoryMap α} {a : α} : a ∈ m.values ↔ ∃ c, m.get? c = some a := by
  simp [values, Category.mem_all]

/-- The listed pairs are the map read as a relation, so lists over it can be taken apart
by look-ups. -/
theorem mem_toList {m : CategoryMap α} {c : Category} {a : α} :
    (c, a) ∈ m.toList ↔ m.get? c = some a := by
  simp [toList, Category.mem_all]

/-- The category at a place of the order. -/
private theorem exists_index : ∀ i : Fin 15, ∃ c ∈ Category.all, c.index = i := by
  decide

/-- Maps that look up alike are equal. -/
@[ext] theorem ext {m n : CategoryMap α} (h : ∀ c, m.get? c = n.get? c) : m = n := by
  cases m with | mk s => cases n with | mk t =>
  congr 1
  ext i hi a
  obtain ⟨c, -, hc⟩ := exists_index ⟨i, hi⟩
  have := h c
  simp only [get?, hc] at this
  exact Option.ext_iff.mp this a

end CategoryMap

end FrameAlign
