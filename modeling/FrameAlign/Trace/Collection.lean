import FrameAlign.Category.Map
import FrameAlign.Trace.Basic

/-!
# Collections of traces

The traces that are correlated with each other, at most one for each category.
-/

namespace FrameAlign

/-- At most one trace for each category. -/
abbrev Traces := CategoryMap Trace

namespace Traces

/-- The collection in which `t` is the trace of its category. -/
def set (traces : Traces) (t : Trace) : Traces := traces.insert t.category t

/-- The collection of the given traces; of two of one category the later stays. -/
def ofTraces (list : List Trace) : Traces := list.foldl set CategoryMap.empty

/-- The categories with the numbers of their entries. -/
def summary (traces : Traces) : String :=
  let counts := traces.toList.map fun (c, t) => c.tag ++ ": " ++ toString t.size
  "\x7b" ++ ", ".intercalate counts ++ "\x7d"

/-- Every trace is the one of its own category. -/
def Filed (traces : Traces) : Prop := ∀ c t, traces.get? c = some t → t.category = c

/-- Nothing is misfiled where nothing is held, which is where every collection starts. -/
theorem filed_empty : Filed CategoryMap.empty := by
  intro c t h
  rw [CategoryMap.get?_empty] at h
  contradiction

/-- A trace that is put in becomes the one of its category. -/
theorem Filed.set {traces : Traces} (h : traces.Filed) (t : Trace) : (traces.set t).Filed := by
  intro c u hu
  rw [Traces.set, CategoryMap.get?_insert] at hu
  split at hu
  · next hcategory =>
    cases hu
    exact hcategory
  · exact h c u hu

/-- A trace that is taken out leaves the others where they are. -/
theorem Filed.erase {traces : Traces} (h : traces.Filed) (c : Category) :
    Filed (traces.erase c) := by
  intro d t ht
  rw [CategoryMap.get?_erase] at ht
  split at ht
  · contradiction
  · exact h d t ht

/-- A collection of given traces holds each of them for its category. -/
theorem filed_ofTraces (list : List Trace) : (ofTraces list).Filed := by
  have hfold (traces : Traces) (h : traces.Filed) : Filed (list.foldl Traces.set traces) := by
    induction list generalizing traces with
    | nil => exact h
    | cons t list ih => exact ih _ (h.set t)
  exact hfold _ filed_empty

end Traces

end FrameAlign
