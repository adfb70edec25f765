import FrameAlign.Policy.Reader
import Mathlib.Data.List.Forall2

/-!
# Accepted policies

A policy is looked through for faults before it is followed, and each of the two passes goes through
the overrides on its own. The statements here say which policies have no fault
(`fault?_eq_none_iff`), which fault the others are told (`fault?_eq_some_iff`), and which gaps come
out of a policy without fault (`Sound.forall₂_adapts`).
-/

namespace FrameAlign

/-- The gap is that many milliseconds long, or as long as a gap can be if that is less. It is said
in whole numbers, with no stop on the way. -/
def Nanos.IsMillis (gap : Nanos) (millis : Int) : Prop :=
  gap.val = min (millis * 1000000) 9223372036854775807

namespace Nanos

variable {gap : Nanos} {millis : Int}

/-- A number of milliseconds determines a gap, as long as it is not negative. Below zero the gap
could stop at the other end of the range. -/
theorem isMillis_iff (h : 0 ≤ millis) : gap.IsMillis millis ↔ gap = ofMillis millis := by
  have hval : (ofMillis millis).val = min (millis * 1000000) 9223372036854775807 := by
    simp only [ofMillis, clamp]
    omega
  rw [IsMillis, ← hval]
  exact ⟨ext, congrArg val⟩

/-- A gap of no negative number of milliseconds is not negative. -/
theorem IsMillis.nonneg (h : gap.IsMillis millis) (hmillis : 0 ≤ millis) : 0 ≤ gap.val := by
  rw [IsMillis] at h
  omega

end Nanos

/-- The override is for the relation: it names both of its categories. -/
def GapOverride.Names (o : GapOverride) (r : Relation) : Prop :=
  o.target = r.target ∧ o.source = r.source

namespace GapOverride

variable {o : GapOverride} {r : Relation}

/-- The test of an override is whether it names the relation. -/
theorem isFor_iff : o.isFor r = true ↔ o.Names r := by
  simp [isFor, Names]

/-- The same for the overrides that are passed over. -/
theorem isFor_eq_false_iff : o.isFor r = false ↔ ¬o.Names r := by
  rw [← isFor_iff, Bool.not_eq_true]

/-- An override is known if it names one of the usual relations. -/
theorem isKnown_iff : o.isKnown = true ↔ ∃ r ∈ Relation.defaults, o.Names r := by
  simp only [isKnown, List.any_eq_true, isFor_iff]

/-- An override is a fault if it names none of the usual relations. -/
theorem isKnown_eq_false_iff : o.isKnown = false ↔ ∀ r ∈ Relation.defaults, ¬o.Names r := by
  simp only [isKnown, List.any_eq_false, isFor_iff]

end GapOverride

/-- All relations have the same gap without a policy, so one number says what happens to those that
no override names. -/
theorem Relation.maxGap_of_mem_defaults {r : Relation} (h : r ∈ defaults) :
    r.maxGap = defaultGap := by
  have hall : ∀ r ∈ defaults, r.maxGap = defaultGap := by decide
  exact hall r h

namespace Policy

variable {p : Policy} {r : Relation} {o : GapOverride} {gap : Nanos}

/-- What a policy must be like to be followed. Two overrides for one relation are no fault. -/
structure Sound (p : Policy) : Prop where
  /-- The gap for merges is not negative, if it is given. -/
  merge_nonneg : ∀ millis, p.mergeMillis = some millis → 0 ≤ millis
  /-- The gap for all relations is not negative, if it is given. -/
  relation_nonneg : ∀ millis, p.relationMillis = some millis → 0 ≤ millis
  /-- No gap of an override is negative. -/
  override_nonneg : ∀ o ∈ p.overrides, 0 ≤ o.millis
  /-- Every override is for a relation that exists. -/
  override_named : ∀ o ∈ p.overrides, ∃ r ∈ Relation.defaults, o.Names r

/-! ## Faults -/

/-- The gaps of a policy are those for merges, for all relations and of the overrides. Faults are
looked for in this order. -/
theorem mem_gaps {millis : Int} :
    millis ∈ p.gaps ↔ p.mergeMillis = some millis ∨ p.relationMillis = some millis ∨
      ∃ o ∈ p.overrides, o.millis = millis := by
  simp [gaps]

/-- The two passes of the search for faults, over gaps and over overrides, together ask for a policy
that can be followed. -/
theorem sound_iff :
    p.Sound ↔ (∀ millis ∈ p.gaps, 0 ≤ millis) ∧ ∀ o ∈ p.overrides, o.isKnown = true := by
  simp only [mem_gaps, GapOverride.isKnown_iff]
  constructor
  · intro h
    refine ⟨?_, h.override_named⟩
    rintro millis (hmerge | hrelation | ⟨o, ho, rfl⟩)
    · exact h.merge_nonneg millis hmerge
    · exact h.relation_nonneg millis hrelation
    · exact h.override_nonneg o ho
  · rintro ⟨hgaps, hnamed⟩
    exact ⟨fun millis h => hgaps millis (Or.inl h),
      fun millis h => hgaps millis (Or.inr (Or.inl h)),
      fun o ho => hgaps o.millis (Or.inr (Or.inr ⟨o, ho, rfl⟩)), hnamed⟩

/-- The fault is in the policy and no other one comes before it. So it is determined which fault
is told. -/
inductive FaultFirst (p : Policy) : PolicyFault → Prop
  /-- A negative gap counts with all gaps before it right. -/
  | negativeGap {before after : List Int} {millis : Int}
      (hgaps : p.gaps = before ++ millis :: after) (hneg : millis < 0)
      (hbefore : ∀ gap ∈ before, 0 ≤ gap) : FaultFirst p (.negativeGap millis)
  /-- Overrides of no relation count only where all gaps are right. -/
  | unknownRelation {before after : List GapOverride} {o : GapOverride}
      (hgaps : ∀ gap ∈ p.gaps, 0 ≤ gap) (hoverrides : p.overrides = before ++ o :: after)
      (hunknown : ∀ r ∈ Relation.defaults, ¬o.Names r)
      (hbefore : ∀ earlier ∈ before, ∃ r ∈ Relation.defaults, earlier.Names r) :
      FaultFirst p (.unknownRelation o.target o.source)

/-- No negative gap is found exactly if there is none. -/
theorem find?_gaps_eq_none_iff : p.gaps.find? (· < 0) = none ↔ ∀ millis ∈ p.gaps, 0 ≤ millis := by
  simp [List.find?_eq_none]

/-- The negative gap that is found is the first one. -/
theorem find?_gaps_eq_some_iff {millis : Int} :
    p.gaps.find? (· < 0) = some millis ↔ millis < 0 ∧ ∃ before after,
      p.gaps = before ++ millis :: after ∧ ∀ gap ∈ before, 0 ≤ gap := by
  simp [List.find?_eq_some_iff_append]

/-- The override of no relation that is found is the first one. -/
theorem find?_unknown_eq_some_iff :
    p.overrides.find? (fun o => !o.isKnown) = some o ↔
      (∀ r ∈ Relation.defaults, ¬o.Names r) ∧ ∃ before after,
        p.overrides = before ++ o :: after ∧
          ∀ earlier ∈ before, ∃ r ∈ Relation.defaults, earlier.Names r := by
  simp only [List.find?_eq_some_iff_append, Bool.not_eq_true', Bool.not_not,
    GapOverride.isKnown_eq_false_iff, GapOverride.isKnown_iff]

/-- A policy without fault is one that can be followed, and the other way around. -/
theorem fault?_eq_none_iff : p.fault? = none ↔ p.Sound := by
  rw [sound_iff, ← find?_gaps_eq_none_iff, fault?]
  cases p.gaps.find? (· < 0) with
  | some millis => simp
  | none => simp [List.find?_eq_none]

/-- The fault that is told is the first one, for every policy with a fault. -/
theorem fault?_eq_some_iff {fault : PolicyFault} : p.fault? = some fault ↔ p.FaultFirst fault := by
  constructor
  · intro h
    rw [fault?] at h
    cases hgap : p.gaps.find? (· < 0) with
    | some millis =>
      rw [hgap] at h
      cases h
      obtain ⟨hneg, before, after, hgaps, hbefore⟩ := find?_gaps_eq_some_iff.mp hgap
      exact .negativeGap hgaps hneg hbefore
    | none =>
      rw [hgap] at h
      obtain ⟨o, ho, rfl⟩ := Option.map_eq_some_iff.mp h
      obtain ⟨hunknown, before, after, hoverrides, hbefore⟩ := find?_unknown_eq_some_iff.mp ho
      exact .unknownRelation (find?_gaps_eq_none_iff.mp hgap) hoverrides hunknown hbefore
  · rintro (⟨hgaps, hneg, hbefore⟩ | ⟨hgaps, hoverrides, hunknown, hbefore⟩)
    · rw [fault?, find?_gaps_eq_some_iff.mpr ⟨hneg, _, _, hgaps, hbefore⟩]
    · rw [fault?, find?_gaps_eq_none_iff.mpr hgaps,
        find?_unknown_eq_some_iff.mpr ⟨hunknown, _, _, hoverrides, hbefore⟩]
      rfl

/-- A policy that is read from a file can be followed, since reading ends with the search
for faults. -/
theorem sound_of_ofBytes {bytes : ByteArray} (h : ofBytes bytes = .ok p) : p.Sound := by
  rw [ofBytes] at h
  split at h
  · cases h
  · split at h
    · cases h
    · split at h
      · cases h
      · next hfault =>
        cases h
        exact fault?_eq_none_iff.mp hfault

/-! ## Gaps -/

/-- The override is the first one for the relation. Later ones for the same relation have
no effect. -/
def FirstFor (p : Policy) (r : Relation) (o : GapOverride) : Prop :=
  o.Names r ∧ ∃ before after, p.overrides = before ++ o :: after ∧
    ∀ earlier ∈ before, ¬earlier.Names r

/-- Such an override is one of the policy's, so its gap is known not to be negative. -/
theorem FirstFor.mem (h : p.FirstFor r o) : o ∈ p.overrides := by
  obtain ⟨-, before, after, hoverrides, -⟩ := h
  rw [hoverrides]
  exact List.mem_append_right before List.mem_cons_self

/-- The gap that a policy is meant to give a relation. The three cases exclude each other and leave
no relation out. -/
inductive GapFor (p : Policy) (r : Relation) : Nanos → Prop
  /-- The first override for the relation counts. -/
  | override {o : GapOverride} {gap : Nanos} (hfirst : p.FirstFor r o)
      (hgap : gap.IsMillis o.millis) : GapFor p r gap
  /-- Without an override the gap for all relations counts. -/
  | relation {millis : Int} {gap : Nanos} (hnone : ∀ o ∈ p.overrides, ¬o.Names r)
      (hmillis : p.relationMillis = some millis) (hgap : gap.IsMillis millis) : GapFor p r gap
  /-- Without either the usual gap stays. -/
  | usual (hnone : ∀ o ∈ p.overrides, ¬o.Names r) (hmillis : p.relationMillis = none) :
      GapFor p r defaultGap

/-- The override that is found for a relation is the first one. -/
theorem find?_isFor_eq_some_iff : p.overrides.find? (·.isFor r) = some o ↔ p.FirstFor r o := by
  simp [List.find?_eq_some_iff_append, FirstFor, GapOverride.isFor_iff,
    GapOverride.isFor_eq_false_iff]

/-- None is found exactly if no override is for the relation. -/
theorem find?_isFor_eq_none_iff :
    p.overrides.find? (·.isFor r) = none ↔ ∀ o ∈ p.overrides, ¬o.Names r := by
  simp [List.find?_eq_none, GapOverride.isFor_iff]

/-- A policy that can be followed gives a relation the gap that is meant. Of a negative number of
milliseconds this need not hold, and such policies are turned down first. -/
theorem Sound.gapFor_gapOf (h : p.Sound) (hr : r ∈ Relation.defaults) : p.GapFor r (p.gapOf r) := by
  rw [gapOf]
  cases hfirst : p.overrides.find? (·.isFor r) with
  | some o =>
    have hfirst := find?_isFor_eq_some_iff.mp hfirst
    have hmillis := h.override_nonneg o hfirst.mem
    exact .override hfirst ((Nanos.isMillis_iff hmillis).mpr rfl)
  | none =>
    have hnone := find?_isFor_eq_none_iff.mp hfirst
    cases hrelation : p.relationMillis with
    | some millis =>
      have hmillis := h.relation_nonneg millis hrelation
      exact .relation hnone hrelation ((Nanos.isMillis_iff hmillis).mpr rfl)
    | none => exact Relation.maxGap_of_mem_defaults hr ▸ .usual hnone hrelation

/-- No other gap is meant for the relation, so the description is exact. -/
theorem Sound.eq_gapOf (h : p.Sound) (hr : r ∈ Relation.defaults) (hgap : p.GapFor r gap) :
    gap = p.gapOf r := by
  rw [gapOf]
  cases hgap with
  | override hfirst hgap =>
    rw [find?_isFor_eq_some_iff.mpr hfirst]
    exact (Nanos.isMillis_iff (h.override_nonneg _ hfirst.mem)).mp hgap
  | relation hnone hrelation hgap =>
    rw [find?_isFor_eq_none_iff.mpr hnone, hrelation]
    exact (Nanos.isMillis_iff (h.relation_nonneg _ hrelation)).mp hgap
  | usual hnone hrelation =>
    rw [find?_isFor_eq_none_iff.mpr hnone, hrelation]
    exact (Relation.maxGap_of_mem_defaults hr).symm

/-- No gap that is meant for a relation is negative, as the links between traces assume. -/
theorem Sound.gapFor_nonneg (h : p.Sound) (hgap : p.GapFor r gap) : 0 ≤ gap.val := by
  cases hgap with
  | override hfirst hgap => exact hgap.nonneg (h.override_nonneg _ hfirst.mem)
  | relation hnone hrelation hgap => exact hgap.nonneg (h.relation_nonneg _ hrelation)
  | usual => decide

/-- What becomes of a usual relation under a policy: only its gap may change. -/
structure Adapts (p : Policy) (r s : Relation) : Prop where
  /-- It leads to the same category. -/
  target_eq : s.target = r.target
  /-- It comes from the same category. -/
  source_eq : s.source = r.source
  /-- Entries are linked in the same way. -/
  link_eq : s.link = r.link
  /-- The gap is the one that is meant, and no other one is meant. -/
  gap_iff : ∀ gap, p.GapFor r gap ↔ gap = s.maxGap
  /-- The gap is not negative. -/
  gap_nonneg : 0 ≤ s.maxGap.val

/-- A policy that can be followed changes gaps of relations and nothing else, and keeps the
relations in their order. -/
theorem Sound.forall₂_adapts (h : p.Sound) :
    List.Forall₂ p.Adapts Relation.defaults p.relations := by
  rw [relations, List.forall₂_map_right_iff, List.forall₂_same]
  intro r hr
  have hgap := h.gapFor_gapOf hr
  exact ⟨rfl, rfl, rfl, fun gap => ⟨h.eq_gapOf hr, fun heq => heq ▸ hgap⟩, h.gapFor_nonneg hgap⟩

/-- The gap for merges is the given one, or five minutes, or the longest gap there is. -/
theorem Sound.isMillis_merging (h : p.Sound) :
    p.merging.maxTimeGap.IsMillis (p.mergeMillis.getD 300000) := by
  rw [merging]
  cases hmerge : p.mergeMillis with
  | some millis => exact (Nanos.isMillis_iff (h.merge_nonneg millis hmerge)).mpr rfl
  | none => rfl

/-- No override is in vain: it is for a relation in use, whose gap is that of the first override for
the same relation. So every override of an accepted policy has an effect, unless an earlier one is
for its relation. -/
theorem Sound.exists_mem_relations (h : p.Sound) (ho : o ∈ p.overrides) :
    ∃ s ∈ p.relations, o.Names s ∧
      ∃ first, p.FirstFor s first ∧ s.maxGap.IsMillis first.millis := by
  obtain ⟨r, hr, hnames⟩ := h.override_named o ho
  refine ⟨_, List.mem_map.mpr ⟨r, hr, rfl⟩, hnames, ?_⟩
  have hgap := h.gapFor_gapOf hr
  generalize p.gapOf r = gap at hgap ⊢
  cases hgap with
  | override hfirst hgap => exact ⟨_, hfirst, hgap⟩
  | relation hnone => exact absurd hnames (hnone o ho)
  | usual hnone => exact absurd hnames (hnone o ho)

/-- **Accepted policies.** A policy has no fault exactly if none of its gaps is negative and all of
its overrides are for relations that exist. Then the relations are the usual ones in their order,
each with the gap of the first override for it, else with that for all relations, else with the
usual one, and no gap is negative. -/
theorem accepted_and_followed (p : Policy) :
    (p.fault? = none ↔ p.Sound) ∧
      (p.fault? = none → List.Forall₂ p.Adapts Relation.defaults p.relations ∧
        p.merging.maxTimeGap.IsMillis (p.mergeMillis.getD 300000) ∧
        0 ≤ p.merging.maxTimeGap.val) := by
  refine ⟨fault?_eq_none_iff, fun hfault => ?_⟩
  have hsound := fault?_eq_none_iff.mp hfault
  have hmerging := hsound.isMillis_merging
  refine ⟨hsound.forall₂_adapts, hmerging, hmerging.nonneg ?_⟩
  cases hmerge : p.mergeMillis with
  | some millis => exact hsound.merge_nonneg millis hmerge
  | none => decide

/-- Of two overrides for one relation the first counts, here with the longest gap there is, and all
other relations have the gap that is given for all. -/
theorem followed_first_of_two :
    let p : Policy :=
      { mergeMillis := some 9223372036854775807
        relationMillis := some 0
        overrides := [⟨.protoLog, .windowManager, 9223372036854775807⟩,
          ⟨.protoLog, .windowManager, 7⟩] }
    p.fault? = none ∧ List.Forall₂ p.Adapts Relation.defaults p.relations ∧
      p.relations.map (·.maxGap.val) = [0, 0, 0, 9223372036854775807, 0, 0, 0] := by
  intro p
  have hfault : p.fault? = none := by decide
  exact ⟨hfault, ((accepted_and_followed p).2 hfault).1, by decide⟩

end Policy

end FrameAlign
