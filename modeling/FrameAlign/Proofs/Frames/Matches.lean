import FrameAlign.Proofs.Frames.Links
import FrameAlign.Proofs.Frames.Neighbours

/-!
# What the links match

The links that look at times search ascending values and saturate at the ends of the range. Here the
source entries that a target entry is linked to are told by comparing times alone, among which equal
ones may stand, and every link is shown to hand on the frames of exactly these.
-/

namespace FrameAlign

namespace Nanos

/-- The greatest count, at which sums stop, so that no interval ends behind it. -/
def latest : Nanos := ⟨9223372036854775807, by decide, by decide⟩

/-- The counts below a clamped number are those below the number but for the greatest of all. That
exception is where an interval differs from its description. -/
theorem lt_clamp_iff {a : Nanos} {n : Int} : a < clamp n ↔ a.val < n ∧ a ≠ latest := by
  have hmin := a.min_le
  have hmax := a.le_max
  rw [ne_eq, Nanos.ext_iff, lt_def]
  simp only [clamp, latest]
  omega

end Nanos

namespace FrameMap

variable {target source : Array Nanos} {i j : Nat}

/-! ## The last target entry before a source entry -/

/-- The target entry is the last one before the source entry and lies within the gap. Of equal times
the last one counts. -/
def HandsTo (target source : Array Nanos) (gap : Nanos) (i j : Nat) : Prop :=
  ∃ s, source[j]? = some s ∧ ∃ t, IsLast target (· < s) i t ∧ s.satSub t ≤ gap

/-- **Frames handed on to the last entry before.** A target entry has the smallest range that covers
those of the source entries within the gap that it is the last target entry before. A source entry
hands its frames to one target entry at most, and that is before it. -/
theorem linked_handsTo_latestBefore (htarget : Ascends target) (source : Array Nanos)
    (frames : FrameMap) (gap : Nanos) :
    (latestBefore target source frames gap).size = target.size ∧
      Linked (HandsTo target source gap) frames (latestBefore target source frames gap) ∧
      ∀ i j, HandsTo target source gap i j →
        (∀ i', HandsTo target source gap i' j → i' = i) ∧
          ∃ t s, target[i]? = some t ∧ source[j]? = some s ∧ t < s := by
  refine ⟨size_latestBefore target source frames gap, ?_, ?_⟩
  · refine (linked_latestBefore target source frames gap).congr fun i j => ?_
    simp only [HandsTo, latestTarget?_eq_some_iff, lastBefore?_eq_some_iff_isLast htarget]
  · rintro i j ⟨s, hs, t, hlast, -⟩
    refine ⟨?_, t, s, hlast.getElem?_eq, hs, hlast.holds⟩
    rintro i' ⟨s', hs', t', hlast', -⟩
    cases hs.symm.trans hs'
    exact (hlast'.unique hlast).1

/-- Equal times in the target and in the source, one of a source entry without frames, a source
entry at the time of a target entry, and one that is as far away as the gap. -/
theorem linked_handsTo_latestBefore_equals :
    let target : Array Nanos := #[.clamp 5, .clamp 5, .clamp 7]
    let source : Array Nanos := #[.clamp 5, .clamp 6, .clamp 7, .clamp 7, .clamp 107]
    let frames : FrameMap :=
      #[some (.single 0), some (.single 1), none, some (.single 2), some (.single 3)]
    let map := latestBefore target source frames (.clamp 100)
    Ascends target ∧ map = #[none, some ⟨1, 3⟩, some (.single 3)] ∧
      HandsTo target source (.clamp 100) 1 3 ∧
      ∀ i, HandsTo target source (.clamp 100) i 3 → i = 1 := by
  intro target source frames map
  have htarget : Ascends target := by decide
  have hmap : map = #[none, some ⟨1, 3⟩, some (.single 3)] := by decide +kernel
  have hlast : lastBefore? target (.clamp 7) = some (1, .clamp 5) := by decide +kernel
  have hto : HandsTo target source (.clamp 100) 1 3 :=
    ⟨_, rfl, _, (lastBefore?_eq_some_iff_isLast htarget).mp hlast, by decide⟩
  obtain ⟨-, -, hone⟩ := linked_handsTo_latestBefore htarget source frames (.clamp 100)
  exact ⟨htarget, hmap, hto, (hone 1 3 hto).1⟩

/-! ## An interval of source entries -/

/-- The source entry lies at or after the target entry, before the next one, and within the gap. The
sum with the gap is taken of whole numbers, with no end to the range. -/
def Follows (target source : Array Nanos) (gap : Nanos) (i j : Nat) : Prop :=
  ∃ t s, target[i]? = some t ∧ source[j]? = some s ∧ t ≤ s ∧ s.val < t.val + gap.val ∧
    ∀ next, target[i + 1]? = some next → s < next

/-- An interval ends at the next target entry or at the gap, whichever is first. The sum saturates
here, as it does where the frames are computed. -/
theorem lt_followingStop_iff {gap t s : Nanos} :
    s < followingStop target gap i t ↔
      s < t.satAdd gap ∧ ∀ next, target[i + 1]? = some next → s < next := by
  rw [followingStop]
  cases target[i + 1]? with
  | none => simp
  | some next =>
    simp only [Option.some.injEq, forall_eq', Nanos.lt_def]
    split <;> omega

/-- The target entry is then the last one at or before the source entry, so no source entry belongs
to two of them. -/
theorem Follows.isLast (htarget : Ascends target) {gap s : Nanos} (hs : source[j]? = some s)
    (h : Follows target source gap i j) : ∃ t, IsLast target (· ≤ s) i t := by
  obtain ⟨t, s', ht, hs', hle, -, hnext⟩ := h
  cases hs.symm.trans hs'
  refine ⟨t, ht, hle, fun k u hu hus => Nat.le_of_not_lt fun hlt => ?_⟩
  have hsize : i + 1 < target.size :=
    Nat.lt_of_le_of_lt hlt (Array.getElem?_eq_some_iff.mp hu).1
  have hget := Array.getElem?_eq_getElem hsize
  have hback : target[i + 1] ≤ u := htarget (i + 1) k _ _ hlt hget hu
  exact Nanos.not_lt.mpr (Int.le_trans hback hus) (hnext _ hget)

/-- **Frames of an interval.** A target entry has the smallest range that covers those of the source
entries from its own time up to the next target entry within the gap, but for source entries at the
greatest count: no interval reaches beyond it. A source entry is in the interval of one target entry
at most, the last one at or before it. -/
theorem linked_follows_followingInterval (htarget : Ascends target) (hsource : Ascends source)
    (frames : FrameMap) (gap : Nanos) :
    (followingInterval target source frames gap).size = target.size ∧
      Linked (fun i j => Follows target source gap i j ∧ source[j]? ≠ some Nanos.latest) frames
        (followingInterval target source frames gap) ∧
      ∀ i j s, source[j]? = some s → Follows target source gap i j →
        ∃ t, IsLast target (· ≤ s) i t := by
  refine ⟨by rw [followingInterval_eq, Array.size_mapIdx], ?_, ?_⟩
  · refine (linked_followingInterval target source frames gap).congr fun i j => ?_
    constructor
    · rintro ⟨t, ht, hle, hlt⟩
      have hs := Array.getElem?_eq_getElem (Nat.lt_of_lt_of_le hlt (countBefore_le_size source _))
      obtain ⟨hgap, hnext⟩ := lt_followingStop_iff.mp ((lt_iff_lt_countBefore hsource hs).mpr hlt)
      obtain ⟨hlt', hlatest⟩ := Nanos.lt_clamp_iff.mp hgap
      have hfrom := (le_iff_countBefore_le hsource hs).mpr hle
      refine ⟨⟨t, _, ht, hs, hfrom, hlt', hnext⟩, fun h => hlatest ?_⟩
      exact Option.some.inj (hs.symm.trans h)
    · rintro ⟨⟨t, s, ht, hs, hle, hgap, hnext⟩, hlatest⟩
      have hne : s ≠ Nanos.latest := fun h => hlatest (h ▸ hs)
      have hstop := lt_followingStop_iff.mpr ⟨Nanos.lt_clamp_iff.mpr ⟨hgap, hne⟩, hnext⟩
      exact ⟨t, ht, (le_iff_countBefore_le hsource hs).mp hle,
        (lt_iff_lt_countBefore hsource hs).mp hstop⟩
  · intro i j s hs h
    exact h.isLast htarget hs

/-- Equal target times, of which the first has an empty interval, and an interval that would reach
beyond the greatest count. -/
theorem linked_follows_followingInterval_latest :
    let target : Array Nanos := #[.clamp 5, .clamp 5, .clamp 9223372036854775806]
    let source : Array Nanos := #[.clamp 5, .clamp 9223372036854775806, .latest]
    let frames : FrameMap := #[some (.single 0), some (.single 1), some (.single 2)]
    let map := followingInterval target source frames (.clamp 100)
    Ascends target ∧ Ascends source ∧ map = #[none, some (.single 0), some (.single 1)] ∧
      Follows target source (.clamp 100) 2 2 ∧ ¬Follows target source (.clamp 100) 0 0 ∧
      FrameRange.IsHull (fun a => ∃ j, (Follows target source (.clamp 100) 2 j ∧
        source[j]? ≠ some .latest) ∧ frames[j]? = some (some a)) (.single 1) := by
  intro target source frames map
  have htarget : Ascends target := by decide
  have hsource : Ascends source := by decide
  have hmap : map = #[none, some (.single 0), some (.single 1)] := by decide +kernel
  have hget : map[2]? = some (some (.single 1)) := by rw [hmap]; rfl
  have hfollows : Follows target source (.clamp 100) 2 2 :=
    ⟨_, _, rfl, rfl, by decide, by decide +kernel, by simp [target]⟩
  obtain ⟨-, hlinked, hlast⟩ :=
    linked_follows_followingInterval htarget hsource frames (.clamp 100)
  refine ⟨htarget, hsource, hmap, hfollows, fun h => ?_, hlinked 2 _ hget⟩
  -- The second target entry has the same time, so the first is not the last one at it.
  obtain ⟨t, ht⟩ := hlast 0 0 _ rfl h
  exact absurd (ht.le 1 _ rfl (by decide)) (by decide)

/-- At the greatest count a target entry does not have the frames of the source entry at its own
time, since the interval that starts there ends there. -/
theorem not_forall_linked_follows :
    ¬∀ (target source : Array Nanos) (frames : FrameMap) (gap : Nanos), Ascends target →
      Ascends source → frames.size = source.size → 0 ≤ gap.val →
        Linked (Follows target source gap) frames (followingInterval target source frames gap) := by
  intro hexact
  have hascends : Ascends #[Nanos.latest] := by decide
  have hlinked := hexact #[.latest] #[.latest] #[some (.single 0)] (.clamp 100) hascends hascends
    rfl (by decide)
  have hnone : (followingInterval #[.latest] #[.latest] #[some (.single 0)] (.clamp 100))[0]? =
      some none := by decide +kernel
  exact hlinked 0 none hnone (.single 0)
    ⟨0, ⟨_, _, rfl, rfl, Int.le_refl _, by decide +kernel, by simp⟩, rfl⟩

/-! ## One source entry -/

/-- A target entry that takes the frames of one source entry at most has exactly these. The links to
the first and to the closest entry have this form. -/
theorem getElem?_map_taken {t : Nanos} (ht : target[i]? = some t) (frames : FrameMap)
    (source? : Nanos → Option Nat) :
    ∃ range, (target.map fun t => (source? t).bind fun j => frames[j]?.join)[i]? = some range ∧
      ∀ a, range = some a ↔ ∃ j, source? t = some j ∧ frames[j]? = some (some a) := by
  refine ⟨_, by rw [Array.getElem?_map, ht, Option.map_some], fun a => ?_⟩
  simp only [Option.bind_eq_some_iff, Option.join_eq_some_iff]

/-- A source entry with a predecessor is the first one at or after exactly the moments behind the
predecessor and not behind itself. Between equal entries there is no such moment, so only the first
of them is ever found. -/
theorem isFirst_succ_iff (hsource : Ascends source) {t prev s : Nanos}
    (hprev : source[j]? = some prev) (hs : source[j + 1]? = some s) :
    IsFirst source (t ≤ ·) (j + 1) s ↔ prev < t ∧ t ≤ s := by
  constructor
  · intro h
    refine ⟨Int.not_le.mp fun hle => ?_, h.holds⟩
    have hback := h.le j prev hprev hle
    omega
  · rintro ⟨hlt, hle⟩
    refine ⟨hs, hle, fun k w hw htw => Nat.lt_of_not_le fun hk => ?_⟩
    have hwprev : w ≤ prev := hsource k j w prev hk hw hprev
    exact Nanos.not_lt.mpr (Int.le_trans htw hwprev) hlt

/-- **Frames of the first entry from a moment on.** A target entry has the frames of the first
source entry at or after it if that lies within the gap, and none if it is too far, has none or does
not exist. A source entry with a predecessor is the first one for exactly the target entries behind
the predecessor and not behind itself. -/
theorem precedingInterval_takes_first (hsource : Ascends source) (target : Array Nanos)
    (frames : FrameMap) (gap : Nanos) :
    (precedingInterval target source frames gap).size = target.size ∧
      ∀ (i : Nat) (t : Nanos), target[i]? = some t →
        (∃ range, (precedingInterval target source frames gap)[i]? = some range ∧
          ∀ a, range = some a ↔ ∃ j s, IsFirst source (t ≤ ·) j s ∧ s.satSub t ≤ gap ∧
            frames[j]? = some (some a)) ∧
        ∀ (j : Nat) (prev s : Nanos), source[j]? = some prev → source[j + 1]? = some s →
          (IsFirst source (t ≤ ·) (j + 1) s ↔ prev < t ∧ t ≤ s) := by
  refine ⟨by rw [precedingInterval_eq, Array.size_map], fun i t ht => ⟨?_, ?_⟩⟩
  · rw [precedingInterval_eq]
    obtain ⟨range, hget, hrange⟩ := getElem?_map_taken ht frames (precedingSource? source gap)
    refine ⟨range, hget, fun a => (hrange a).trans ?_⟩
    simp only [precedingSource?_eq_some_iff, firstFrom?_eq_some_iff_isFirst hsource]
    constructor
    · rintro ⟨j, ⟨s, hfirst, hgap⟩, ha⟩
      exact ⟨j, s, hfirst, hgap, ha⟩
    · rintro ⟨j, s, hfirst, hgap, ha⟩
      exact ⟨j, ⟨s, hfirst, hgap⟩, ha⟩
  · intro j prev s hprev hs
    exact isFirst_succ_iff hsource hprev hs

/-- The first of two entries at one time decides, though only the other one has frames. -/
theorem precedingInterval_takes_first_unframed :
    let source : Array Nanos := #[.clamp 4, .clamp 5, .clamp 5]
    let frames : FrameMap := #[some (.single 0), none, some (.single 2)]
    Ascends source ∧ IsFirst source (.clamp 5 ≤ ·) 1 (.clamp 5) ∧
      (precedingInterval #[.clamp 5] source frames (.clamp 10))[0]? = some none := by
  intro source frames
  have hsource : Ascends source := by decide
  obtain ⟨-, htakes⟩ := precedingInterval_takes_first hsource #[.clamp 5] frames (.clamp 10)
  obtain ⟨⟨range, hget, hrange⟩, hwindow⟩ := htakes 0 (.clamp 5) rfl
  have hfirst : IsFirst source (.clamp 5 ≤ ·) 1 (.clamp 5) :=
    (hwindow 0 (.clamp 4) (.clamp 5) rfl rfl).mpr ⟨by decide, by decide⟩
  refine ⟨hsource, hfirst, hget.trans (congrArg some ?_)⟩
  cases range with
  | none => rfl
  | some a =>
    obtain ⟨j, s, hfirst', -, ha⟩ := (hrange a).mp rfl
    obtain ⟨rfl, rfl⟩ := hfirst.unique hfirst'
    cases ha

/-- **Frames of the closest entry.** A target entry has the frames of the elected one of the closest
source entries if that lies within the gap, and none if it is too far, has none or does not exist.
The first of the closest is elected unless another one before the target entry is as close. -/
theorem nearest_takes_elected (hsource : Ascends source) (target : Array Nanos)
    (frames : FrameMap) (gap : Nanos) :
    (nearest target source frames gap).size = target.size ∧
      ∀ (i : Nat) (t : Nanos), target[i]? = some t →
        (∃ range, (nearest target source frames gap)[i]? = some range ∧
          ∀ a, range = some a ↔ ∃ j s, Elected source t j s ∧ s.distance t ≤ gap ∧
            frames[j]? = some (some a)) ∧
        ∀ (j : Nat) (s : Nanos), IsFirst source (NoneCloser source t) j s →
          (Elected source t j s ↔ ∀ (k : Nat) (w : Nanos), source[k]? = some w → w < t →
            NoneCloser source t w → k = j) := by
  refine ⟨by rw [nearest_eq, Array.size_map], fun i t ht => ⟨?_, fun j s hfirst => ?_⟩⟩
  · rw [nearest_eq]
    obtain ⟨range, hget, hrange⟩ := getElem?_map_taken ht frames (nearestSource? source gap)
    refine ⟨range, hget, fun a => (hrange a).trans ?_⟩
    simp only [nearestSource?_eq_some_iff, closest?_eq_some_iff hsource]
    constructor
    · rintro ⟨j, ⟨_, ⟨s, helected, rfl⟩, hgap⟩, ha⟩
      exact ⟨j, s, helected, hgap, ha⟩
    · rintro ⟨j, s, helected, hgap, ha⟩
      exact ⟨j, ⟨_, ⟨s, helected, rfl⟩, hgap⟩, ha⟩
  · exact hfirst.elected_iff

/-- Of two entries at one time before the target entry and one as far behind it, the second is
elected. -/
theorem nearest_takes_elected_equals :
    let source : Array Nanos := #[.clamp 4, .clamp 4, .clamp 6]
    let frames : FrameMap := #[some (.single 0), some (.single 1), some (.single 2)]
    Ascends source ∧
      (nearest #[.clamp 5] source frames (.clamp 10))[0]? = some (some (.single 1)) ∧
      Elected source (.clamp 5) 1 (.clamp 4) := by
  intro source frames
  have hsource : Ascends source := by decide
  have hmap : (nearest #[.clamp 5] source frames (.clamp 10))[0]? = some (some (.single 1)) := by
    decide +kernel
  obtain ⟨-, htakes⟩ := nearest_takes_elected hsource #[.clamp 5] frames (.clamp 10)
  obtain ⟨⟨range, hget, hrange⟩, -⟩ := htakes 0 (.clamp 5) rfl
  cases hmap.symm.trans hget
  obtain ⟨j, s, helected, -, ha⟩ := (hrange (.single 1)).mp rfl
  have hj : j < 3 := (Array.getElem?_eq_some_iff.mp ha).1
  refine ⟨hsource, hmap, ?_⟩
  obtain rfl | rfl | rfl : j = 0 ∨ j = 1 ∨ j = 2 := by omega
  · cases ha
  · cases helected.getElem?_eq
    exact helected
  · cases ha

/-- A target entry does not have the frames of the first of the closest source entries, even if
these are at one time. -/
theorem not_forall_nearest_takes_first :
    ¬∀ (target source : Array Nanos) (frames : FrameMap) (gap : Nanos), Ascends target →
      Ascends source → frames.size = source.size → 0 ≤ gap.val →
        ∀ (i : Nat) (t : Nanos), target[i]? = some t →
          ∃ range, (nearest target source frames gap)[i]? = some range ∧
            ∀ a, range = some a ↔ ∃ j s, IsFirst source (NoneCloser source t) j s ∧
              s.distance t ≤ gap ∧ frames[j]? = some (some a) := by
  intro hexact
  have htarget : Ascends #[Nanos.clamp 5] := by decide
  have hsource : Ascends #[Nanos.clamp 4, Nanos.clamp 4] := by decide
  obtain ⟨range, hget, hrange⟩ := hexact #[.clamp 5] #[.clamp 4, .clamp 4]
    #[some (.single 0), some (.single 1)] (.clamp 10) htarget hsource rfl (by decide) 0 _ rfl
  have hmap : (nearest #[.clamp 5] #[.clamp 4, .clamp 4]
      #[some (.single 0), some (.single 1)] (.clamp 10))[0]? = some (some (.single 1)) := by
    decide +kernel
  cases hmap.symm.trans hget
  obtain ⟨j, s, hfirst, -, ha⟩ := (hrange (.single 1)).mp rfl
  have hj : j < 2 := (Array.getElem?_eq_some_iff.mp ha).1
  obtain rfl | rfl : j = 0 ∨ j = 1 := by omega
  · cases ha
  · -- The other entry has the same time, so it is as close.
    cases hfirst.getElem?_eq
    exact absurd (hfirst.le 0 _ rfl hfirst.holds) (by decide)

end FrameMap

end FrameAlign
