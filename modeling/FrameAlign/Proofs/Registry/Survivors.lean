import FrameAlign.Proofs.Registry.Evidence
import Mathlib.Data.Set.Finite.Lemmas

/-!
# Survivors among single files

Of some single files, those survive that the others show neither to be outdated nor to be left over.
A trace that does not survive is no evidence later on, so it matters that nothing depends on it: the
timeline that starts last always survives, and whatever any timeline shows to be left over, it does.
Therefore the choice can be made in parts, `survivors_union_survivors`.
-/

namespace FrameAlign

namespace Trace

variable {policy : MergePolicy} {t other later : Trace}

/-- A timeline that has not only elapsed timestamps has a real one, as it has timestamps. -/
theorem hasReal_of_isTimeline (h : t.isTimeline = true) (helapsed : t.isElapsedOnly = false) :
    t.hasReal = true := by
  obtain ⟨start, hstart⟩ := exists_first?_of_isTimeline h
  have hne : t.timestamps ≠ [] := by
    intro hnil
    simp [first?, hnil] at hstart
  simpa [isElapsedOnly, hne] using helapsed

/-- The count of the first timestamp, which every timeline has. Starts are compared by it, whatever
their clocks are. -/
def startValue (t : Trace) : Int := (t.first?.map (·.value.val)).getD 0

/-- What one timeline shows to be left over, every timeline does that starts no earlier. So the
timeline that starts last is the best evidence there is. -/
theorem LeftBehind.of_startValue_le (h : t.LeftBehind policy other)
    (htimeline : later.isTimeline = true) (hle : other.startValue ≤ later.startValue) :
    t.LeftBehind policy later := by
  obtain ⟨stop, start, hstop, hstart, hgap⟩ := h.gap
  obtain ⟨start', hstart'⟩ := exists_first?_of_isTimeline htimeline
  have hstarts : start.value ≤ start'.value := by
    simpa [startValue, hstart, hstart', Nanos.le_def] using hle
  have hmono : start.value.satSub stop.value ≤ start'.value.satSub stop.value :=
    Nanos.satSub_mono_left stop.value hstarts
  exact {
    aged := h.aged
    timeline := h.timeline
    other_timeline := htimeline
    gap := ⟨stop, start', hstop, hstart', Int.lt_of_lt_of_le hgap hmono⟩ }

/-- No trace is left over next to one that starts no later. A trace with ascending timestamps ends
no earlier than it starts, and gaps that are allowed are not negative. -/
theorem Ascending.not_leftBehind (h : t.Ascending) (hpolicy : 0 ≤ policy.maxTimeGap.val)
    (hle : other.startValue ≤ t.startValue) : ¬t.LeftBehind policy other := by
  intro hleft
  obtain ⟨stop, start, hstop, hstart, hgap⟩ := hleft.gap
  obtain ⟨start', hstart'⟩ := exists_first?_of_isTimeline hleft.timeline
  have hstarts : start.value.val ≤ start'.value.val := by
    simpa [startValue, hstart, hstart'] using hle
  have hspan : start'.value.val ≤ stop.value.val := h.first?_le_last? hstart' hstop
  have hclamp : (start.value.satSub stop.value).val ≤ (Nanos.clamp 0).val :=
    Nanos.val_clamp_mono (by omega)
  have hzero : (Nanos.clamp 0).val = 0 := Nanos.val_clamp_of_mem (by decide) (by decide)
  have hpositive : policy.maxTimeGap.val < (start.value.satSub stop.value).val := hgap
  omega

end Trace

namespace Registry

variable {policy : MergePolicy} {files added : Set LoadedTrace} {l k : LoadedTrace}

/-- Some of the files has a real timestamp, which makes elapsed ones outdated. -/
def HasReal (files : Set LoadedTrace) : Prop := ∃ l ∈ files, l.trace.hasReal = true

/-- The files that are not outdated among themselves. They are what the second choice is
made among. -/
def current (files : Set LoadedTrace) : Set LoadedTrace :=
  {l | l ∈ files ∧ (HasReal files → l.trace.isElapsedOnly = false)}

/-- The files that are neither outdated nor, next to those that are not outdated, left over. As a
set it knows nothing of the order in which files came. -/
def survivors (policy : MergePolicy) (files : Set LoadedTrace) : Set LoadedTrace :=
  {l | l ∈ current files ∧ ∀ k ∈ current files, ¬l.trace.LeftBehind policy k.trace}

/-- Among more files there is still a real timestamp. -/
theorem HasReal.mono (h : HasReal files) (hsubset : files ⊆ added) : HasReal added := by
  obtain ⟨l, hl, hreal⟩ := h
  exact ⟨l, hsubset hl, hreal⟩

/-- Survivors are among the files. -/
theorem survivors_subset : survivors policy files ⊆ files := fun _ hl => hl.1.1

/-- Among finitely many files with a timeline one timeline starts last. -/
theorem exists_latest (hfinite : files.Finite) (hl : l ∈ files)
    (htimeline : l.trace.isTimeline = true) :
    ∃ k ∈ files, k.trace.isTimeline = true ∧ ∀ other ∈ files, other.trace.isTimeline = true →
      other.trace.startValue ≤ k.trace.startValue := by
  let timelines : Set LoadedTrace := {k | k ∈ files ∧ k.trace.isTimeline = true}
  have hsubset : timelines ⊆ files := fun _ hk => hk.1
  obtain ⟨k, ⟨hk, hktimeline⟩, hlast⟩ := Set.exists_max_image timelines
    (·.trace.startValue) (hfinite.subset hsubset) ⟨l, hl, htimeline⟩
  exact ⟨k, hk, hktimeline, fun other hother h => hlast other ⟨hother, h⟩⟩

/-- A current timeline starts no later than some surviving one: than the last to start. Nothing
starts late enough to show that one to be left over. -/
theorem exists_survivor_startValue_le (hpolicy : 0 ≤ policy.maxTimeGap.val)
    (hfinite : files.Finite) (hascending : ∀ l ∈ files, l.trace.Ascending)
    (hl : l ∈ current files) (htimeline : l.trace.isTimeline = true) :
    ∃ k ∈ survivors policy files, k.trace.isTimeline = true ∧
      l.trace.startValue ≤ k.trace.startValue := by
  have hsubset : current files ⊆ files := fun _ hk => hk.1
  obtain ⟨k, hk, hktimeline, hlast⟩ := exists_latest (hfinite.subset hsubset) hl htimeline
  refine ⟨k, ⟨hk, ?_⟩, hktimeline, hlast l hl htimeline⟩
  intro other hother hleft
  have hle := hlast other hother hleft.other_timeline
  exact (hascending k hk.1).not_leftBehind hpolicy hle hleft

/-- What a current trace shows to be left over, a survivor does. So evidence may be taken from
survivors alone. -/
theorem exists_survivor_leftBehind (hpolicy : 0 ≤ policy.maxTimeGap.val)
    (hfinite : files.Finite) (hascending : ∀ l ∈ files, l.trace.Ascending)
    (hk : k ∈ current files) (hleft : l.trace.LeftBehind policy k.trace) :
    ∃ k' ∈ survivors policy files, l.trace.LeftBehind policy k'.trace := by
  obtain ⟨k', hk', htimeline, hle⟩ :=
    exists_survivor_startValue_le hpolicy hfinite hascending hk hleft.other_timeline
  exact ⟨k', hk', hleft.of_startValue_le htimeline hle⟩

/-- If some trace is real, a real one survives: that one, or the timeline that starts last among
those that are current. -/
theorem HasReal.survivors (h : HasReal files) (hpolicy : 0 ≤ policy.maxTimeGap.val)
    (hfinite : files.Finite) (hascending : ∀ l ∈ files, l.trace.Ascending) :
    HasReal (survivors policy files) := by
  obtain ⟨l, hl, hreal⟩ := h
  have hcurrent : l ∈ current files := ⟨hl, fun _ => by simp [Trace.isElapsedOnly, hreal]⟩
  by_cases hleft : ∃ k ∈ current files, l.trace.LeftBehind policy k.trace
  · obtain ⟨k, hk, hleft⟩ := hleft
    obtain ⟨k', hk', hleft'⟩ :=
      exists_survivor_leftBehind hpolicy hfinite hascending hk hleft
    have hnot := hk'.1.2 ⟨l, hl, hreal⟩
    exact ⟨k', hk', Trace.hasReal_of_isTimeline hleft'.other_timeline hnot⟩
  · push Not at hleft
    exact ⟨l, ⟨hcurrent, hleft⟩, hreal⟩

/-! ## Choosing in parts -/

/-- Among fewer files a current one stays current, as there is less to outdate it. -/
theorem mem_current_of_subset (hsubset : files ⊆ added) (hl : l ∈ current added)
    (hmem : l ∈ files) : l ∈ current files :=
  ⟨hmem, fun hreal => hl.2 (hreal.mono hsubset)⟩

/-- Among more files a current one stays current if they bring no first real timestamp. -/
theorem current_subset_of_subset (hsubset : files ⊆ added) (hreal : HasReal added → HasReal files) :
    current files ⊆ current added :=
  fun _ hl => ⟨hsubset hl.1, fun h => hl.2 (hreal h)⟩

/-- If a timeline of the files is current among more files, these bring no first real timestamp: the
timeline has one itself. -/
theorem HasReal.of_mem_current (h : HasReal added) (hl : l ∈ current added) (hmem : l ∈ files)
    (htimeline : l.trace.isTimeline = true) : HasReal files :=
  ⟨l, hmem, Trace.hasReal_of_isTimeline htimeline (hl.2 h)⟩

section Union

variable (hpolicy : 0 ≤ policy.maxTimeGap.val) (hfinite : files.Finite)
  (hascending : ∀ l ∈ files, l.trace.Ascending)

include hpolicy hfinite hascending

/-- The survivors of some files are as real as the files, whatever is added. So the same files are
outdated next to either. -/
theorem hasReal_union_survivors_iff :
    HasReal (added ∪ survivors policy files) ↔ HasReal (added ∪ files) := by
  constructor
  · exact fun h => h.mono (Set.union_subset_union_right _ survivors_subset)
  · rintro ⟨l, hl | hl, hreal⟩
    · exact ⟨l, Or.inl hl, hreal⟩
    · have hfiles : HasReal files := ⟨l, hl, hreal⟩
      exact (hfiles.survivors hpolicy hfinite hascending).mono Set.subset_union_right

/-- The files that did not survive are not missed as evidence. A survivor of the same choice
shows as much. -/
theorem exists_leftBehind_union_survivors (hk : k ∈ current (added ∪ files))
    (hleft : l.trace.LeftBehind policy k.trace) :
    ∃ k' ∈ current (added ∪ survivors policy files), l.trace.LeftBehind policy k'.trace := by
  have hsubset : added ∪ survivors policy files ⊆ added ∪ files :=
    Set.union_subset_union_right _ survivors_subset
  rcases hk.1 with hadded | hfiles
  · exact ⟨k, mem_current_of_subset hsubset hk (Or.inl hadded), hleft⟩
  · have hcurrent : k ∈ current files := mem_current_of_subset Set.subset_union_right hk hfiles
    obtain ⟨k', hk', hleft'⟩ :=
      exists_survivor_leftBehind hpolicy hfinite hascending hcurrent hleft
    refine ⟨k', ⟨Or.inr hk', fun hreal => hk'.1.2 ?_⟩, hleft'⟩
    exact (hreal.mono hsubset).of_mem_current hk hfiles hleft.other_timeline

omit hpolicy hfinite hascending in
/-- A file that survives among more files survives among the files alone, as there is less evidence
against it. -/
theorem mem_survivors_of_mem_union (hl : l ∈ survivors policy (added ∪ files)) (hmem : l ∈ files) :
    l ∈ survivors policy files := by
  refine ⟨mem_current_of_subset Set.subset_union_right hl.1 hmem, ?_⟩
  intro k hk hleft
  have hcurrent : k ∈ current (added ∪ files) :=
    ⟨Or.inr hk.1, fun hreal => hk.2 (hreal.of_mem_current hl.1 hmem hleft.timeline)⟩
  exact hl.2 k hcurrent hleft

/-- **Choosing in parts.** Next to any further files the survivors of some files stand for all of
them: the choice among both can be made in two steps. -/
theorem survivors_union_survivors :
    survivors policy (added ∪ survivors policy files) = survivors policy (added ∪ files) := by
  have hsubset : added ∪ survivors policy files ⊆ added ∪ files :=
    Set.union_subset_union_right _ survivors_subset
  have hreal : HasReal (added ∪ survivors policy files) ↔ HasReal (added ∪ files) :=
    hasReal_union_survivors_iff hpolicy hfinite hascending
  have hcurrent : current (added ∪ survivors policy files) ⊆ current (added ∪ files) :=
    current_subset_of_subset hsubset hreal.mpr
  ext l
  constructor
  · intro hl
    refine ⟨hcurrent hl.1, ?_⟩
    intro k hk hleft
    obtain ⟨k', hk', hleft'⟩ :=
      exists_leftBehind_union_survivors hpolicy hfinite hascending hk hleft
    exact hl.2 k' hk' hleft'
  · intro hl
    have hmem : l ∈ added ∪ survivors policy files :=
      (survivors_subset hl).imp id (mem_survivors_of_mem_union hl)
    exact ⟨mem_current_of_subset hsubset hl.1 hmem, fun k hk => hl.2 k (hcurrent hk)⟩

end Union

end Registry

end FrameAlign
