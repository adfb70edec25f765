import FrameAlign.Proofs.Frames.Links
import FrameAlign.Proofs.Frames.Views

/-!
# Entries with equal keys

An entry that finds its source entries by a key gets one range, the smallest that covers theirs. If
the entries with the key do not follow one another, frames may lie between their ranges, and the
entry gets these as well. It gets no others.
-/

namespace FrameAlign

namespace FrameRange

/-- The frame is behind the whole range. An empty range has no frames, so it has to start before the
frame as well. -/
def EndsBy (r : FrameRange) (frame : Nat) : Prop := r.start ≤ frame ∧ r.stop ≤ frame

/-- The frame is in front of the whole range. -/
def StartsAfter (r : FrameRange) (frame : Nat) : Prop := frame < r.start ∧ frame < r.stop

/-- A covering range has the frames of the ranges that it covers and those between two of them.
Nothing else lies between its ends. -/
theorem IsHull.mem_frames_iff {P : FrameRange → Prop} {r : FrameRange} (h : IsHull P r)
    (frame : Nat) :
    frame ∈ r.frames ↔ (∃ a, P a ∧ frame ∈ a.frames) ∨
      ∃ a b, P a ∧ P b ∧ a.EndsBy frame ∧ b.StartsAfter frame := by
  simp only [mem_frames]
  constructor
  · rintro ⟨hstart, hstop⟩
    obtain ⟨a, ha, hastart⟩ := h.exists_start_eq
    obtain ⟨b, hb, hbstop⟩ := h.exists_stop_eq
    -- The frame is in the range that starts first, in the one that ends last, or between them.
    by_cases hina : frame < a.stop
    · exact Or.inl ⟨a, ha, by omega, hina⟩
    · by_cases hinb : b.start ≤ frame
      · exact Or.inl ⟨b, hb, hinb, by omega⟩
      · have hends : a.EndsBy frame := ⟨by omega, by omega⟩
        have hstarts : b.StartsAfter frame := ⟨by omega, by omega⟩
        exact Or.inr ⟨a, b, ha, hb, hends, hstarts⟩
  · rintro (⟨a, ha, hstart, hstop⟩ | ⟨a, b, ha, hb, hends, hstarts⟩)
    · have hcover := h.start_le a ha
      have hcover' := h.le_stop a ha
      omega
    · have hcover := h.start_le a ha
      have hcover' := h.le_stop b hb
      exact ⟨Nat.le_trans hcover hends.1, Nat.lt_of_lt_of_le hstarts.2 hcover'⟩

/-- If anything is to be covered, it is covered by a range, so an entry lacks frames only for want
of source entries that have some. -/
theorem Spans.eq_none_iff {P : FrameRange → Prop} {range : Option FrameRange} (h : Spans P range) :
    range = none ↔ ∀ a, ¬P a := by
  cases range with
  | none => exact iff_of_true rfl h
  | some r =>
    obtain ⟨a, ha, -⟩ := IsHull.exists_start_eq h
    exact iff_of_false (Option.some_ne_none r) fun hnone => hnone a ha

/-- What covers some ranges touches their frames, those between two of them and no others. This is
`IsHull.mem_frames_iff` with the case that nothing is covered. -/
theorem Spans.touches_iff {P : FrameRange → Prop} {range : Option FrameRange} (h : Spans P range)
    (frame : Nat) :
    touches frame range = true ↔ (∃ a, P a ∧ frame ∈ a.frames) ∨
      ∃ a b, P a ∧ P b ∧ a.EndsBy frame ∧ b.StartsAfter frame := by
  cases range with
  | none =>
    refine iff_of_false Bool.false_ne_true ?_
    rintro (⟨a, ha, -⟩ | ⟨a, -, ha, -⟩)
    · exact h a ha
    · exact h a ha
  | some r =>
    rw [← IsHull.mem_frames_iff h, FrameRange.touches_iff]
    simp

end FrameRange

namespace FrameMap

/-- Some source entry with the key has the range. The entry may stand anywhere, as keys need not
ascend. -/
def HasKeyed (source : Array Int) (frames : FrameMap) (key : Int) (a : FrameRange) : Prop :=
  ∃ j : Nat, source[j]? = some key ∧ frames[j]? = some (some a)

section Keyed

variable {target : Array Int} {i : Nat} {key : Int} (hkey : target[i]? = some key)
  (source : Array Int) (frames : FrameMap)

include hkey

/-- An entry spans what the source entries with its key have. This is `linked_matchingKey` for one
entry, with its key named. -/
theorem spans_matchingKey :
    ∃ range, (matchingKey target source frames)[i]? = some range ∧
      FrameRange.Spans (HasKeyed source frames key) range := by
  have hget : ∃ range, (matchingKey target source frames)[i]? = some range := by
    rw [matchingKey, Array.getElem?_map, hkey]
    exact ⟨_, rfl⟩
  obtain ⟨range, hrange⟩ := hget
  refine ⟨range, hrange, (linked_matchingKey target source frames i range hrange).congr fun a => ?_⟩
  constructor
  · rintro ⟨j, ⟨key', hkey', hs⟩, ha⟩
    cases hkey.symm.trans hkey'
    exact ⟨j, hs, ha⟩
  · rintro ⟨j, hs, ha⟩
    exact ⟨j, ⟨key, hkey, hs⟩, ha⟩

/-- **Frames of equal keys.** An entry has no frames exactly when no source entry with its key has
any. Otherwise it has exactly the frames of the source entries with its key and the frames between
two of them, behind the one and in front of the other. -/
theorem touches_matchingKey_iff :
    ∃ range, (matchingKey target source frames)[i]? = some range ∧
      (range = none ↔ ∀ a, ¬HasKeyed source frames key a) ∧
      ∀ f, FrameRange.touches f range = true ↔
        (∃ a, HasKeyed source frames key a ∧ f ∈ a.frames) ∨
          ∃ a b, HasKeyed source frames key a ∧ HasKeyed source frames key b ∧
            a.EndsBy f ∧ b.StartsAfter f := by
  obtain ⟨range, hget, hspans⟩ := spans_matchingKey hkey source frames
  exact ⟨range, hget, hspans.eq_none_iff, hspans.touches_iff⟩

end Keyed

/-- Two entries with a key around one with another: the frame between is taken with the others. -/
theorem touches_matchingKey_around :
    let source : Array Int := #[7, 8, 7]
    let frames : FrameMap := #[some (.single 0), some (.single 1), some (.single 2)]
    ∃ range, (matchingKey #[7] source frames)[0]? = some range ∧ range ≠ none ∧
      ∀ f < 3, FrameRange.touches f range = true := by
  intro source frames
  have hkey : (#[7] : Array Int)[0]? = some 7 := rfl
  obtain ⟨range, hget, hnone, htouches⟩ := touches_matchingKey_iff hkey source frames
  have hfirst : HasKeyed source frames 7 (.single 0) := ⟨0, rfl, rfl⟩
  have hlast : HasKeyed source frames 7 (.single 2) := ⟨2, rfl, rfl⟩
  have hbetween : (FrameRange.single 0).EndsBy 1 ∧ (FrameRange.single 2).StartsAfter 1 :=
    ⟨⟨by decide, by decide⟩, by decide, by decide⟩
  refine ⟨range, hget, fun h => hnone.mp h _ hfirst, fun f hf => (htouches f).mpr ?_⟩
  obtain rfl | rfl | rfl : f = 0 ∨ f = 1 ∨ f = 2 := by omega
  · exact Or.inl ⟨_, hfirst, by decide⟩
  · exact Or.inr ⟨_, _, hfirst, hlast, hbetween⟩
  · exact Or.inl ⟨_, hlast, by decide⟩

/-- An entry does not have just the frames of the source entries with its key, even if every source
entry has a frame of its own. -/
theorem not_forall_touches_matchingKey_iff :
    ¬∀ (target source : Array Int) (frames : FrameMap), frames.size = source.size →
      ∀ (i : Nat) (key : Int), target[i]? = some key →
        ∃ range, (matchingKey target source frames)[i]? = some range ∧
          (range = none ↔ ∀ a, ¬HasKeyed source frames key a) ∧
          ∀ f, FrameRange.touches f range = true ↔
            ∃ a, HasKeyed source frames key a ∧ f ∈ a.frames := by
  intro hexact
  obtain ⟨range, hget, -, htouches⟩ := hexact #[7] #[7, 8, 7]
    #[some (.single 0), some (.single 1), some (.single 2)] rfl 0 7 rfl
  have hrange : (matchingKey #[7] #[7, 8, 7]
      #[some (.single 0), some (.single 1), some (.single 2)])[0]? = some (some ⟨0, 3⟩) := by
    simp [matchingKey_eq, selected, FrameRange.join, FrameRange.hull, FrameRange.single]
  cases hrange.symm.trans hget
  obtain ⟨a, ⟨j, hkey, ha⟩, hmem⟩ := (htouches 1).mp rfl
  -- Frame 1 belongs to the source entry at 1 only, and that has another key.
  have hj : j < 3 := (Array.getElem?_eq_some_iff.mp hkey).1
  obtain rfl | rfl | rfl : j = 0 ∨ j = 1 ∨ j = 2 := by omega
  · cases ha
    contradiction
  · contradiction
  · cases ha
    contradiction

end FrameMap

end FrameAlign
