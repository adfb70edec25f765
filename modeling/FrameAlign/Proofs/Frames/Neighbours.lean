import FrameAlign.Proofs.Frames.Search

/-!
# Neighbours of a moment

The searches among ascending values go by halving. Here what they find is said without a search: it
is the first or the last place at which a value has a property, so that equal values are told apart.
Only the two neighbours of a moment compete for being the closest to it, `closest?_eq_some_iff`.
-/

namespace FrameAlign

namespace Nanos

/-- How far apart two moments are, at most the longest count. It does not depend on which of the two
is earlier. -/
def distance (a b : Nanos) : Nanos := clamp (a.val - b.val).natAbs

/-- The distance of an earlier moment is the difference, which the search takes on this side. -/
theorem distance_of_le {a b : Nanos} (h : a ≤ b) : a.distance b = b.satSub a := by
  have hle : a.val ≤ b.val := h
  rw [distance, satSub]
  congr 1
  omega

/-- The distance of a later moment is the difference, taken the other way around. -/
theorem distance_of_ge {a b : Nanos} (h : b ≤ a) : a.distance b = a.satSub b := by
  have hle : b.val ≤ a.val := h
  rw [distance, satSub]
  congr 1
  omega

end Nanos

namespace FrameMap

section Places

variable {α : Type} {values : Array α} {p : α → Prop} {i j : Nat} {v w : α}

/-- The first place at which the values have a property, and the value there. Places tell equal
values apart. -/
structure IsFirst (values : Array α) (p : α → Prop) (i : Nat) (v : α) : Prop where
  /-- The value stands at the place. -/
  getElem?_eq : values[i]? = some v
  /-- It has the property. -/
  holds : p v
  /-- No place before it has a value with the property. -/
  le : ∀ k w, values[k]? = some w → p w → i ≤ k

/-- The last place at which the values have a property, and the value there. -/
structure IsLast (values : Array α) (p : α → Prop) (i : Nat) (v : α) : Prop where
  /-- The value stands at the place. -/
  getElem?_eq : values[i]? = some v
  /-- It has the property. -/
  holds : p v
  /-- No place behind it has a value with the property. -/
  le : ∀ k w, values[k]? = some w → p w → k ≤ i

/-- There is one first place, so the place can be spoken of as the one that is found. -/
theorem IsFirst.unique (h : IsFirst values p i v) (h' : IsFirst values p j w) :
    i = j ∧ v = w := by
  obtain rfl : i = j := Nat.le_antisymm (h.le j w h'.getElem?_eq h'.holds)
    (h'.le i v h.getElem?_eq h.holds)
  exact ⟨rfl, Option.some.inj (h.getElem?_eq.symm.trans h'.getElem?_eq)⟩

/-- There is one last place. -/
theorem IsLast.unique (h : IsLast values p i v) (h' : IsLast values p j w) :
    i = j ∧ v = w := by
  obtain rfl : i = j := Nat.le_antisymm (h'.le i v h.getElem?_eq h.holds)
    (h.le j w h'.getElem?_eq h'.holds)
  exact ⟨rfl, Option.some.inj (h.getElem?_eq.symm.trans h'.getElem?_eq)⟩

end Places

variable {values : Array Nanos} {t v w x : Nanos} {i j : Nat}

/-- In ascending values the last value before a moment is found at its last place: of equal values
the last one. -/
theorem lastBefore?_eq_some_iff_isLast (h : Ascends values) :
    lastBefore? values t = some (i, v) ↔ IsLast values (· < t) i v := by
  rw [lastBefore?_eq_some_iff]
  constructor
  · rintro ⟨hcount, hv⟩
    refine ⟨hv, (lt_iff_lt_countBefore h hv).mpr (by omega), fun k w hw hlt => ?_⟩
    have hk := (lt_iff_lt_countBefore h hw).mp hlt
    omega
  · intro hlast
    have hi := (lt_iff_lt_countBefore h hlast.getElem?_eq).mp hlast.holds
    refine ⟨Nat.le_antisymm (Nat.le_of_not_lt fun hmore => ?_) hi, hlast.getElem?_eq⟩
    -- The next value would be counted as well and be a later one before the moment.
    have hsize := Nat.lt_of_lt_of_le hmore (countBefore_le_size values t)
    have hnext := Array.getElem?_eq_getElem hsize
    have hle := hlast.le _ _ hnext ((lt_iff_lt_countBefore h hnext).mpr hmore)
    omega

/-- In ascending values the first value at or after a moment is found at its first place: of equal
values the first one. -/
theorem firstFrom?_eq_some_iff_isFirst (h : Ascends values) :
    firstFrom? values t = some (j, v) ↔ IsFirst values (t ≤ ·) j v := by
  rw [firstFrom?_eq_some_iff]
  constructor
  · rintro ⟨rfl, hv⟩
    exact ⟨hv, (le_iff_countBefore_le h hv).mpr (Nat.le_refl _),
      fun k w hw => (le_iff_countBefore_le h hw).mp⟩
  · intro hfirst
    have hj := (le_iff_countBefore_le h hfirst.getElem?_eq).mp hfirst.holds
    refine ⟨Nat.le_antisymm hj (Nat.le_of_not_lt fun hless => ?_), hfirst.getElem?_eq⟩
    -- The value behind those counted would be an earlier one at or after the moment.
    have hsize := (Array.getElem?_eq_some_iff.mp hfirst.getElem?_eq).1
    have hnext := Array.getElem?_eq_getElem (Nat.lt_trans hless hsize)
    have hle := hfirst.le _ _ hnext ((le_iff_countBefore_le h hnext).mpr (Nat.le_refl _))
    omega

/-- If any value lies before a moment, there is a last one. It is the one in front of the cut that
the search finds. -/
theorem exists_isLast_before (h : Ascends values) (hv : values[i]? = some v) (hlt : v < t) :
    ∃ k w, IsLast values (· < t) k w := by
  have hi := (lt_iff_lt_countBefore h hv).mp hlt
  have hsize := countBefore_le_size values t
  have hlast := Array.getElem?_eq_getElem (show countBefore values t - 1 < values.size by omega)
  have hcount : countBefore values t = countBefore values t - 1 + 1 := by omega
  have hfound := lastBefore?_eq_some_iff.mpr ⟨hcount, hlast⟩
  exact ⟨_, _, (lastBefore?_eq_some_iff_isLast h).mp hfound⟩

/-- If any value lies at or after a moment, there is a first one. It is the one behind the cut. -/
theorem exists_isFirst_from (h : Ascends values) (hv : values[i]? = some v) (hle : t ≤ v) :
    ∃ k w, IsFirst values (t ≤ ·) k w := by
  have hi := (le_iff_countBefore_le h hv).mp hle
  have hsize := (Array.getElem?_eq_some_iff.mp hv).1
  have hfirst := Array.getElem?_eq_getElem (Nat.lt_of_le_of_lt hi hsize)
  have hfound := firstFrom?_eq_some_iff.mpr ⟨rfl, hfirst⟩
  exact ⟨_, _, (firstFrom?_eq_some_iff_isFirst h).mp hfound⟩

/-! ## The closest of all values -/

/-- No value before a moment is closer to it than the last one, since the others are no later. -/
theorem IsLast.distance_le (h : Ascends values) (hv : IsLast values (· < t) i v)
    (hw : values[j]? = some w) (hlt : w < t) : v.distance t ≤ w.distance t := by
  rw [Nanos.distance_of_le (Int.le_of_lt hv.holds), Nanos.distance_of_le (Int.le_of_lt hlt)]
  exact Nanos.satSub_anti_right t (h j i w v (hv.le j w hw hlt) hw hv.getElem?_eq)

/-- No value at or after a moment is closer to it than the first one, since the others are
no earlier. -/
theorem IsFirst.distance_le (h : Ascends values) (hv : IsFirst values (t ≤ ·) i v)
    (hw : values[j]? = some w) (hle : t ≤ w) : v.distance t ≤ w.distance t := by
  rw [Nanos.distance_of_ge hv.holds, Nanos.distance_of_ge hle]
  exact Nanos.satSub_mono_left t (h i j v w (hv.le j w hw hle) hv.getElem?_eq hw)

/-- No value is closer to the moment. Several values may be as close, on either side. -/
def NoneCloser (values : Array Nanos) (t v : Nanos) : Prop :=
  ∀ (k : Nat) (w : Nanos), values[k]? = some w → v.distance t ≤ w.distance t

/-- If neither neighbour of a moment is closer to it than a value, no value is. So two values stand
for all of them. -/
theorem noneCloser_of_neighbours (h : Ascends values)
    (hbefore : ∀ k w, IsLast values (· < t) k w → v.distance t ≤ w.distance t)
    (hfrom : ∀ k w, IsFirst values (t ≤ ·) k w → v.distance t ≤ w.distance t) :
    NoneCloser values t v := by
  intro k x hx
  by_cases hlt : x < t
  · obtain ⟨i, w, hw⟩ := exists_isLast_before h hx hlt
    exact Int.le_trans (hbefore i w hw) (hw.distance_le h hx hlt)
  · have hle := Nanos.not_lt.mp hlt
    obtain ⟨j, w, hw⟩ := exists_isFirst_from h hx hle
    exact Int.le_trans (hfrom j w hw) (hw.distance_le h hx hle)

/-- The place that is taken as the closest to a moment. It goes by places, so that of equal values
one is taken: before the moment the last, behind it the first. -/
inductive Elected (values : Array Nanos) (t : Nanos) (j : Nat) (v : Nanos) : Prop
  /-- The last of the closest values before the moment. -/
  | before (hlast : IsLast values (fun w => w < t ∧ NoneCloser values t w) j v)
  /-- The first of the closest values, if none of these is before the moment. -/
  | behind (hnone : ∀ (k : Nat) (w : Nanos), values[k]? = some w → NoneCloser values t w → t ≤ w)
      (hfirst : IsFirst values (NoneCloser values t) j v)

/-- An elected value is one of the values. -/
theorem Elected.getElem?_eq (h : Elected values t j v) : values[j]? = some v := by
  cases h with
  | before hlast => exact hlast.getElem?_eq
  | behind hnone hfirst => exact hfirst.getElem?_eq

/-- One place is elected at most. The two ways to be elected exclude each other. -/
theorem Elected.unique (h : Elected values t i v) (h' : Elected values t j w) :
    i = j ∧ v = w := by
  cases h with
  | before hlast =>
    cases h' with
    | before hlast' => exact hlast.unique hlast'
    | behind hnone _ =>
      obtain ⟨hlt, hcloser⟩ := hlast.holds
      exact absurd hlt (Nanos.not_lt.mpr (hnone i v hlast.getElem?_eq hcloser))
  | behind hnone hfirst =>
    cases h' with
    | before hlast' =>
      obtain ⟨hlt, hcloser⟩ := hlast'.holds
      exact absurd hlt (Nanos.not_lt.mpr (hnone j w hlast'.getElem?_eq hcloser))
    | behind _ hfirst' => exact hfirst.unique hfirst'

/-- The first of the closest values is elected unless another one before the moment is as close.
This is the difference between what is taken and the earliest of the closest values. -/
theorem IsFirst.elected_iff (h : IsFirst values (NoneCloser values t) j v) :
    Elected values t j v ↔
      ∀ (k : Nat) (w : Nanos), values[k]? = some w → w < t → NoneCloser values t w → k = j := by
  constructor
  · intro helected k w hw hlt hcloser
    cases helected with
    | before hlast => exact Nat.le_antisymm (hlast.le k w hw ⟨hlt, hcloser⟩) (h.le k w hw hcloser)
    | behind hnone _ => exact absurd hlt (Nanos.not_lt.mpr (hnone k w hw hcloser))
  · intro honly
    by_cases hlt : v < t
    · refine .before ⟨h.getElem?_eq, ⟨hlt, h.holds⟩, fun k w hw hp => ?_⟩
      exact Nat.le_of_eq (honly k w hw hp.1 hp.2)
    · refine .behind (fun k w hw hcloser => Nanos.not_lt.mp fun hlt' => hlt ?_) h
      cases honly k w hw hlt' hcloser
      cases hw.symm.trans h.getElem?_eq
      exact hlt'

/-- Among ascending values the better of the two neighbours is elected. The two cases are the ones
in which the search takes the neighbour before and the one behind. -/
theorem Closest.elected (h : Ascends values) {d : Nanos} (hclosest : Closest values t (j, d)) :
    ∃ v, Elected values t j v ∧ d = v.distance t := by
  cases hclosest with
  | @before _ v hbefore hafter =>
    have hlast := (lastBefore?_eq_some_iff_isLast h).mp hbefore
    have hdistance := Nanos.distance_of_le (Int.le_of_lt hlast.holds)
    have hcloser : NoneCloser values t v := by
      refine noneCloser_of_neighbours h (fun k w hw => ?_) fun k w hw => ?_
      · obtain ⟨rfl, rfl⟩ := hlast.unique hw
        exact Int.le_refl _
      · rw [hdistance, Nanos.distance_of_ge hw.holds]
        exact hafter k w ((firstFrom?_eq_some_iff_isFirst h).mpr hw)
    refine ⟨v, .before ⟨hlast.getElem?_eq, ⟨hlast.holds, hcloser⟩, ?_⟩, hdistance.symm⟩
    exact fun k w hw hp => hlast.le k w hw hp.1
  | @after _ v hafter hbefore =>
    have hfirst := (firstFrom?_eq_some_iff_isFirst h).mp hafter
    have hdistance := Nanos.distance_of_ge hfirst.holds
    have hfarther : ∀ k w, IsLast values (· < t) k w → v.distance t < w.distance t := by
      intro k w hw
      rw [hdistance, Nanos.distance_of_le (Int.le_of_lt hw.holds)]
      exact hbefore k w ((lastBefore?_eq_some_iff_isLast h).mpr hw)
    have hcloser : NoneCloser values t v := by
      refine noneCloser_of_neighbours h (fun k w hw => ?_) fun k w hw => ?_
      · exact Int.le_of_lt (hfarther k w hw)
      · obtain ⟨rfl, rfl⟩ := hfirst.unique hw
        exact Int.le_refl _
    have hnone : ∀ (k : Nat) (w : Nanos), values[k]? = some w → NoneCloser values t w → t ≤ w := by
      refine fun k w hw hp => Nanos.not_lt.mp fun hlt => ?_
      -- The last value before the moment is as close as any before it, but farther than this one.
      obtain ⟨i, x, hx⟩ := exists_isLast_before h hw hlt
      have hle := Int.le_trans (hx.distance_le h hw hlt) (hp j v hfirst.getElem?_eq)
      exact Nanos.not_lt.mpr hle (hfarther i x hx)
    refine ⟨v, .behind hnone ⟨hfirst.getElem?_eq, hcloser, ?_⟩, hdistance.symm⟩
    exact fun k w hw hp => hfirst.le k w hw (hnone k w hw hp)

/-- Among ascending values one is found as the closest if there is any, on whatever side of
the moment. -/
theorem exists_closest? (h : Ascends values) (hv : values[j]? = some v) (t : Nanos) :
    ∃ found, closest? values t = some found := by
  by_cases hlt : v < t
  · obtain ⟨i, w, hw⟩ := exists_isLast_before h hv hlt
    rw [closest?, (lastBefore?_eq_some_iff_isLast h).mpr hw]
    cases firstFrom? values t <;> exact ⟨_, rfl⟩
  · obtain ⟨i, w, hw⟩ := exists_isFirst_from h hv (Nanos.not_lt.mp hlt)
    rw [closest?, (firstFrom?_eq_some_iff_isFirst h).mpr hw]
    cases lastBefore? values t <;> exact ⟨_, rfl⟩

/-- Among ascending values the search for the closest finds the elected one and its distance. From
here on nothing depends on how it is searched. -/
theorem closest?_eq_some_iff (h : Ascends values) {d : Nanos} :
    closest? values t = some (j, d) ↔ ∃ v, Elected values t j v ∧ d = v.distance t := by
  refine ⟨fun hfound => (closest_of_closest? hfound).elected h, ?_⟩
  rintro ⟨v, hv, rfl⟩
  obtain ⟨⟨k, d⟩, hfound⟩ := exists_closest? h hv.getElem?_eq t
  obtain ⟨w, hw, rfl⟩ := (closest_of_closest? hfound).elected h
  obtain ⟨rfl, rfl⟩ := hv.unique hw
  exact hfound

end FrameMap

end FrameAlign
