import FrameAlign.Frames.Range

/-!
# Smallest covering ranges

Entries of a target trace get the smallest range that covers the ranges of the source entries linked
to them. Joining ranges one after the other finds it. Covering keeps the order of ranges, so a link
that never goes backwards hands ascending frames on, `Linked.ascending`.
-/

namespace FrameAlign

namespace FrameRange

/-- A range that starts no later and ends no later than another. This is the order in which frames
ascend; ranges may overlap and still be in order. -/
structure NoLater (a b : FrameRange) : Prop where
  /-- It starts no later. -/
  start_le : a.start ≤ b.start
  /-- It ends no later. -/
  stop_le : a.stop ≤ b.stop

/-- A range is no later than itself, as when two entries take the frames of one. -/
theorem NoLater.refl (a : FrameRange) : a.NoLater a := ⟨Nat.le_refl _, Nat.le_refl _⟩

/-- The smallest range that covers all the ranges with a property. That it starts and ends with some
of them makes it the smallest. -/
structure IsHull (P : FrameRange → Prop) (r : FrameRange) : Prop where
  /-- No range that it covers starts before it. -/
  start_le : ∀ a, P a → r.start ≤ a.start
  /-- No range that it covers ends behind it. -/
  le_stop : ∀ a, P a → a.stop ≤ r.stop
  /-- The range starts with one of those that it covers. -/
  exists_start_eq : ∃ a, P a ∧ a.start = r.start
  /-- The range ends with one of those that it covers. -/
  exists_stop_eq : ∃ a, P a ∧ a.stop = r.stop

/-- The smallest range that covers all the ranges with a property, and none if there are none.
Entries without frames are part of a map, so both cases go through all the statements on links. -/
def Spans (P : FrameRange → Prop) : Option FrameRange → Prop
  | none => ∀ a, ¬P a
  | some r => IsHull P r

/-- If some ranges are no later than others, so is the range that covers them. Covering keeps the
order because the ends are ends of covered ranges. -/
theorem IsHull.noLater {P Q : FrameRange → Prop} {r s : FrameRange} (hr : IsHull P r)
    (hs : IsHull Q s) (h : ∀ a b, P a → Q b → a.NoLater b) : r.NoLater s := by
  constructor
  · obtain ⟨b, hb, hstart⟩ := hs.exists_start_eq
    obtain ⟨a, ha, -⟩ := hr.exists_start_eq
    rw [← hstart]
    exact Nat.le_trans (hr.start_le a ha) (h a b ha hb).start_le
  · obtain ⟨a, ha, hstop⟩ := hr.exists_stop_eq
    obtain ⟨b, hb, -⟩ := hs.exists_stop_eq
    rw [← hstop]
    exact Nat.le_trans (h a b ha hb).stop_le (hs.le_stop b hb)

/-- Two covering ranges joined cover what either of them covers. The code joins ranges two at a
time, and this is its step. -/
theorem IsHull.hull {P Q : FrameRange → Prop} {r s : FrameRange} (hr : IsHull P r)
    (hs : IsHull Q s) : IsHull (fun a => P a ∨ Q a) (r.hull s) := by
  constructor
  · rintro a (ha | ha)
    · exact Nat.le_trans (Nat.min_le_left _ _) (hr.start_le a ha)
    · exact Nat.le_trans (Nat.min_le_right _ _) (hs.start_le a ha)
  · rintro a (ha | ha)
    · exact Nat.le_trans (hr.le_stop a ha) (Nat.le_max_left _ _)
    · exact Nat.le_trans (hs.le_stop a ha) (Nat.le_max_right _ _)
  · obtain ⟨a, ha, hstart⟩ := hr.exists_start_eq
    obtain ⟨b, hb, hstart'⟩ := hs.exists_start_eq
    rcases Nat.le_total r.start s.start with hle | hle
    · exact ⟨a, Or.inl ha, by rw [hstart, FrameRange.hull, Nat.min_eq_left hle]⟩
    · exact ⟨b, Or.inr hb, by rw [hstart', FrameRange.hull, Nat.min_eq_right hle]⟩
  · obtain ⟨a, ha, hstop⟩ := hr.exists_stop_eq
    obtain ⟨b, hb, hstop'⟩ := hs.exists_stop_eq
    rcases Nat.le_total s.stop r.stop with hle | hle
    · exact ⟨a, Or.inl ha, by rw [hstop, FrameRange.hull, Nat.max_eq_left hle]⟩
    · exact ⟨b, Or.inr hb, by rw [hstop', FrameRange.hull, Nat.max_eq_right hle]⟩

/-- A range covers itself, and a missing one covers nothing. Links that take the frames of one entry
need no more. -/
theorem spans_eq_some (range : Option FrameRange) : Spans (fun a => range = some a) range := by
  cases range with
  | none => exact fun a ha => nomatch ha
  | some r =>
    constructor
    · intro a ha
      cases ha
      exact Nat.le_refl _
    · intro a ha
      cases ha
      exact Nat.le_refl _
    · exact ⟨r, rfl, rfl⟩
    · exact ⟨r, rfl, rfl⟩

/-- What is covered depends only on which ranges have the property, so the property can be put in
another form. -/
theorem Spans.congr {P Q : FrameRange → Prop} {range : Option FrameRange} (h : Spans P range)
    (hiff : ∀ a, P a ↔ Q a) : Spans Q range := by
  rwa [← funext fun a => propext (hiff a)]

/-- What there is of two covering ranges, joined, covers what either of them covers. A missing range
adds nothing. -/
theorem Spans.join {P Q : FrameRange → Prop} {r s : Option FrameRange} (hr : Spans P r)
    (hs : Spans Q s) : Spans (fun a => P a ∨ Q a) (join r s) := by
  cases r with
  | none => cases s with
    | none => exact fun a ha => ha.elim (hr a) (hs a)
    | some s => exact hs.congr fun a => (or_iff_right (hr a)).symm
  | some r => cases s with
    | none => exact hr.congr fun a => (or_iff_left (hs a)).symm
    | some s => exact IsHull.hull hr hs

/-- Joining ranges one after the other covers all of them. The induction carries what was covered
before the first. -/
theorem spans_foldl_join {P : FrameRange → Prop} {start : Option FrameRange}
    (ranges : List (Option FrameRange)) (h : Spans P start) :
    Spans (fun a => P a ∨ some a ∈ ranges) (ranges.foldl join start) := by
  induction ranges generalizing P start with
  | nil => exact h.congr fun a => by simp
  | cons range ranges ih =>
    refine (ih (h.join (spans_eq_some range))).congr fun a => ?_
    rw [List.mem_cons, or_assoc, eq_comm]

/-- Some ranges joined cover exactly these ranges. Missing ones may stand among them and are passed
over. -/
theorem spans_foldl_join_none (ranges : List (Option FrameRange)) :
    Spans (fun a => some a ∈ ranges) (ranges.foldl join none) := by
  have hnone : Spans (fun _ => False) none := fun _ ha => ha
  exact (spans_foldl_join ranges hnone).congr fun a => by simp

end FrameRange

namespace FrameMap

/-- Frames that ascend with the entries; entries without frames may stand between. Every pair of
entries is compared and not just neighbours, since of neighbours one may have no frames. -/
def Ascending (map : FrameMap) : Prop :=
  ∀ (i k : Nat) (a b : FrameRange), i ≤ k → map[i]? = some (some a) → map[k]? = some (some b) →
    a.NoLater b

/-- Every target entry has the smallest range that covers those of the source entries linked to it,
and none if these have none. A link is known by this relation, and the kinds of links differ only in
it. -/
def Linked (link : Nat → Nat → Prop) (source target : FrameMap) : Prop :=
  ∀ i range, target[i]? = some range →
    FrameRange.Spans (fun a => ∃ j, link i j ∧ source[j]? = some (some a)) range

/-- Frames tell a link only by the entries that it links, so a search can be replaced by what it
finds. -/
theorem Linked.congr {link link' : Nat → Nat → Prop} {source target : FrameMap}
    (h : Linked link source target) (hiff : ∀ i j, link i j ↔ link' i j) :
    Linked link' source target := fun i range hrange =>
  (h i range hrange).congr fun _ => exists_congr fun j => and_congr_left' (hiff i j)

/-- Entries that are linked to no later source entries than others have no later frames. Here the
order of the source frames is used. -/
theorem Linked.noLater {link : Nat → Nat → Prop} {source target : FrameMap}
    (h : Linked link source target) (hsource : source.Ascending) {i k : Nat} {a b : FrameRange}
    (ha : target[i]? = some (some a)) (hb : target[k]? = some (some b))
    (hlink : ∀ j j', link i j → link k j' → j ≤ j') : a.NoLater b := by
  refine FrameRange.IsHull.noLater (h i _ ha) (h k _ hb) ?_
  rintro a' b' ⟨j, hj, ha'⟩ ⟨j', hj', hb'⟩
  exact hsource j j' a' b' (hlink j j' hj hj') ha' hb'

/-- A link that never goes backwards hands ascending frames on. For each kind of link this leaves a
statement about times or keys alone. -/
theorem Linked.ascending {link : Nat → Nat → Prop} {source target : FrameMap}
    (h : Linked link source target) (hsource : source.Ascending)
    (hlink : ∀ i k j j', i < k → link i j → link k j' → j ≤ j') : target.Ascending := by
  intro i k a b hik ha hb
  rcases Nat.lt_or_eq_of_le hik with hlt | rfl
  · exact h.noLater hsource ha hb fun j j' => hlink i k j j' hlt
  · cases ha.symm.trans hb
    exact .refl a

end FrameMap

end FrameAlign
