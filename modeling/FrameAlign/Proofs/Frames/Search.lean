import FrameAlign.Frames.Link

/-!
# Searching ascending values

Links search the ascending values of a trace for a moment: for the last value before it, for the
first at or after it, or for the closest one. All three are read off the number of values before the
moment, and none of them goes backwards when the moment moves on.
-/

namespace FrameAlign

/-- Values that do not get smaller, though maybe stay equal. Equal values are common, so nothing
here asks for a strict order. -/
def Ascends {α : Type} [LE α] (values : Array α) : Prop :=
  ∀ (i j : Nat) (a b : α), i ≤ j → values[i]? = some a → values[j]? = some b → a ≤ b

/-- A list without a smaller item behind a larger one ascends as an array. Traces hold lists, and
links search arrays. -/
theorem ascends_toArray {α : Type} [LE α] (hrefl : ∀ a : α, a ≤ a) {values : List α}
    (h : values.Pairwise (· ≤ ·)) : Ascends values.toArray := by
  intro i j a b hij ha hb
  rw [List.getElem?_toArray] at ha hb
  obtain ⟨hi, rfl⟩ := List.getElem?_eq_some_iff.mp ha
  obtain ⟨hj, rfl⟩ := List.getElem?_eq_some_iff.mp hb
  rcases Nat.lt_or_eq_of_le hij with hlt | rfl
  · exact List.pairwise_iff_getElem.mp h i j hi hj hlt
  · exact hrefl _

/-- For times the two forms say the same, so whether some times ascend can be decided. -/
theorem ascends_iff_pairwise {values : Array Nanos} :
    Ascends values ↔ values.toList.Pairwise (· ≤ ·) := by
  constructor
  · intro h
    refine List.pairwise_iff_getElem.mpr fun i j hi hj hij => ?_
    exact h i j _ _ (Nat.le_of_lt hij) (Array.getElem?_eq_getElem hi)
      (Array.getElem?_eq_getElem hj)
  · intro h
    have hlist := ascends_toArray (fun a : Nanos => Int.le_refl a.val) h
    rwa [Array.toArray_toList] at hlist

/-- With this a concrete input can be shown to meet the hypotheses on its times. -/
instance (values : Array Nanos) : Decidable (Ascends values) :=
  decidable_of_iff' _ ascends_iff_pairwise

namespace FrameMap

variable {values : Array Nanos} {t t' v : Nanos} {i j : Nat}

/-- The values before a moment come before all the others. The binary search is correct for values
that are parted in this way. -/
theorem partitioned_of_ascends (h : Ascends values) (t : Nanos) :
    Partitioned values fun v => decide (v < t) := by
  intro i j hi hj hij hlt
  have hle : values[i].val ≤ values[j].val :=
    h i j _ _ hij (Array.getElem?_eq_getElem hi) (Array.getElem?_eq_getElem hj)
  have hlt' : values[j].val < t.val := of_decide_eq_true hlt
  exact decide_eq_true (Int.lt_of_le_of_lt hle hlt')

/-- No more values are counted than there are, so a count is an index or the size. -/
theorem countBefore_le_size (values : Array Nanos) (t : Nanos) :
    countBefore values t ≤ values.size := bisect_le_size values _

/-- Exactly the values counted lie before the moment. The count stands for the moment
from here on. -/
theorem lt_iff_lt_countBefore (h : Ascends values) (hv : values[i]? = some v) :
    v < t ↔ i < countBefore values t := by
  obtain ⟨hi, rfl⟩ := Array.getElem?_eq_some_iff.mp hv
  rw [countBefore, ← (bisect_spec (partitioned_of_ascends h t)).2 i hi, decide_eq_true_iff]

/-- Exactly the values behind those counted lie at or after the moment: the other side of the same
cut. -/
theorem le_iff_countBefore_le (h : Ascends values) (hv : values[i]? = some v) :
    t ≤ v ↔ countBefore values t ≤ i := by
  rw [← Nanos.not_lt, lt_iff_lt_countBefore h hv, Nat.not_lt]

/-- No fewer values lie before a later moment. That links do not go backwards comes down to this. -/
theorem countBefore_mono (h : Ascends values) (hle : t ≤ t') :
    countBefore values t ≤ countBefore values t' := by
  apply Nat.le_of_not_lt
  intro hlt
  -- The first value that is not before `t'` would be before `t`.
  have hsize : countBefore values t' < values.size :=
    Nat.lt_of_lt_of_le hlt (countBefore_le_size values t)
  have hv := Array.getElem?_eq_getElem hsize
  have hbefore : values[countBefore values t'].val < t.val := (lt_iff_lt_countBefore h hv).mpr hlt
  have hbefore' : values[countBefore values t'] < t' := Int.lt_of_lt_of_le hbefore hle
  exact Nat.lt_irrefl _ ((lt_iff_lt_countBefore h hv).mp hbefore')

/-- The last value before a moment is the one in front of the cut, and there is none when nothing is
counted. -/
theorem lastBefore?_eq_some_iff :
    lastBefore? values t = some (i, v) ↔ countBefore values t = i + 1 ∧ values[i]? = some v := by
  rw [lastBefore?]
  cases hcount : countBefore values t with
  | zero => simp
  | succ n =>
    simp only [Option.map_eq_some_iff, Prod.mk.injEq, Nat.add_right_cancel_iff]
    constructor
    · rintro ⟨_, hv, rfl, rfl⟩
      exact ⟨rfl, hv⟩
    · rintro ⟨rfl, hv⟩
      exact ⟨v, hv, rfl, rfl⟩

/-- The first value at or after a moment is the one behind the cut. -/
theorem firstFrom?_eq_some_iff :
    firstFrom? values t = some (j, v) ↔ countBefore values t = j ∧ values[j]? = some v := by
  simp only [firstFrom?, Option.map_eq_some_iff, Prod.mk.injEq]
  constructor
  · rintro ⟨_, hv, rfl, rfl⟩
    exact ⟨rfl, hv⟩
  · rintro ⟨rfl, hv⟩
    exact ⟨v, hv, rfl, rfl⟩

/-! ## The closest value -/

/-- What is closest to a moment: the last value before it unless the next one is closer. At equal
distances the one before is taken, so the condition on the other is strict. -/
inductive Closest (values : Array Nanos) (t : Nanos) : Nat × Nanos → Prop
  /-- The value before the moment is at least as close as the next one. -/
  | before {i : Nat} {v : Nanos} (hbefore : lastBefore? values t = some (i, v))
      (hafter : ∀ j w, firstFrom? values t = some (j, w) → t.satSub v ≤ w.satSub t) :
      Closest values t (i, t.satSub v)
  /-- The value at or after the moment is closer than the one before. -/
  | after {j : Nat} {w : Nanos} (hafter : firstFrom? values t = some (j, w))
      (hbefore : ∀ i v, lastBefore? values t = some (i, v) → w.satSub t < t.satSub v) :
      Closest values t (j, w.satSub t)

/-- The search for the closest value finds one that is closest. With values on one side only, the
condition on the other side is empty. -/
theorem closest_of_closest? {found : Nat × Nanos} (h : closest? values t = some found) :
    Closest values t found := by
  rw [closest?] at h
  cases hbefore : lastBefore? values t with
  | none => cases hafter : firstFrom? values t with
    | none => simp [hbefore, hafter] at h
    | some after =>
      simp only [hbefore, hafter, Option.map_none, Option.map_some, Option.some.injEq] at h
      subst h
      exact .after hafter fun i v hv => by simp [hbefore] at hv
  | some before => cases hafter : firstFrom? values t with
    | none =>
      simp only [hbefore, hafter, Option.map_none, Option.map_some, Option.some.injEq] at h
      subst h
      exact .before hbefore fun j w hw => by simp [hafter] at hw
    | some after =>
      simp only [hbefore, hafter, Option.map_some, Option.some.injEq] at h
      split at h
      · next hle =>
        subst h
        refine .before hbefore fun j w hw => ?_
        cases hafter.symm.trans hw
        exact hle
      · next hlt =>
        subst h
        refine .after hafter fun i v hv => ?_
        cases hbefore.symm.trans hv
        exact Int.not_le.mp hlt

/-- The closest value does not go backwards when the moment moves on. The hard case is a later
moment that takes the value before it and an earlier one that takes the value after it: both lie
between the same two values, and their distances decide. -/
theorem Closest.le {d d' : Nanos} (h : Closest values t (i, d)) (h' : Closest values t' (j, d'))
    (hvalues : Ascends values) (hle : t ≤ t') : i ≤ j := by
  have hcount := countBefore_mono hvalues hle
  cases h with
  | before hbefore hafter =>
    have hi := (lastBefore?_eq_some_iff.mp hbefore).1
    cases h' with
    | before hbefore' hafter' =>
      have hj := (lastBefore?_eq_some_iff.mp hbefore').1
      omega
    | after hafter' hbefore' =>
      have hj := (firstFrom?_eq_some_iff.mp hafter').1
      omega
  | @after _ w hafter hbefore =>
    obtain ⟨hi, hw⟩ := firstFrom?_eq_some_iff.mp hafter
    cases h' with
    | @before _ v hbefore' hafter' =>
      obtain ⟨hj, hv⟩ := lastBefore?_eq_some_iff.mp hbefore'
      -- Between two neighbours the value after can only become closer.
      apply Nat.le_of_not_lt
      intro hlt
      have hsame : countBefore values t = j + 1 := by omega
      have hcloser : w.satSub t < t.satSub v :=
        hbefore j v (lastBefore?_eq_some_iff.mpr ⟨hsame, hv⟩)
      have hcloser' : t'.satSub v ≤ w.satSub t' :=
        hafter' i w (firstFrom?_eq_some_iff.mpr ⟨by omega, hw⟩)
      have hmono : t.satSub v ≤ t'.satSub v := Nanos.satSub_mono_left v hle
      have hanti : w.satSub t' ≤ w.satSub t := Nanos.satSub_anti_right w hle
      simp only [Nanos.le_def, Nanos.lt_def] at hcloser hcloser' hmono hanti
      omega
    | after hafter' hbefore' =>
      have hj := (firstFrom?_eq_some_iff.mp hafter').1
      omega

end FrameMap

end FrameAlign
