import FrameAlign.Proofs.Category.Values
import FrameAlign.Registry.Merge

/-!
# The steps of a merge

A merge has two kinds of steps. A sweep compares each single file with a reason to drop it. An
admission asks for the place of a category, which its holder gives up or keeps. The statements
here say once what either kind leaves behind and what it drops; everything else about merges is
derived from them.
-/

namespace FrameAlign.Merging

/-- The single files that no step has dropped, candidates first. A sweep treats candidates and files
in use alike. -/
def singles (m : Merging) : List LoadedTrace := m.candidates ++ m.registry.legacy.values

/-- The pool of evidence consists of the single files and the traces of the session. -/
theorem pool_eq (m : Merging) :
    m.pool = (m.singles ++ m.registry.modern.values).map (·.trace) := rfl

/-- A trace can be evidence when it is that of a candidate or is in use, in whichever place. -/
theorem mem_pool {m : Merging} {t : Trace} :
    t ∈ m.pool ↔ ∃ l : LoadedTrace, (l ∈ m.candidates ∨
      (∃ c, m.registry.legacy.get? c = some l) ∨ ∃ c, m.registry.modern.get? c = some l) ∧
        l.trace = t := by
  simp only [pool, List.mem_map, List.mem_append, CategoryMap.mem_values, or_assoc]

/-- Traces dropped for one reason are the traces of their drops. Balances of drops are stated
on traces. -/
@[simp] theorem map_loaded_map_drop (reason : DropReason) (loaded : List LoadedTrace) :
    (loaded.map fun l => (⟨l, reason⟩ : Drop)).map (·.loaded) = loaded := by
  rw [List.map_map]
  exact List.map_id loaded

/-! ## Sweeps -/

/-- What a sweep of some traces drops, each with the reason against it. -/
def swept (reason? : LoadedTrace → Option DropReason) (loaded : List LoadedTrace) : List Drop :=
  loaded.filterMap fun l => (reason? l).map (⟨l, ·⟩)

/-- The traces without a reason and those dropped for one make up all the traces. So a sweep
loses none. -/
theorem coe_eq_filter_add_swept (reason? : LoadedTrace → Option DropReason)
    (loaded : List LoadedTrace) :
    (loaded : Multiset LoadedTrace) =
      (loaded.filter fun l => (reason? l).isNone : List LoadedTrace) +
        ((swept reason? loaded).map (·.loaded) : List LoadedTrace) := by
  induction loaded with
  | nil => rfl
  | cons l loaded ih =>
    rw [← Multiset.cons_coe, ih]
    cases hreason : reason? l with
    | none => simp [swept, hreason]
    | some reason =>
      have hkept : (l :: loaded).filter (fun l => (reason? l).isNone) =
          loaded.filter fun l => (reason? l).isNone := by simp [hreason]
      have hdropped : (swept reason? (l :: loaded)).map (·.loaded) =
          l :: (swept reason? loaded).map (·.loaded) := by simp [swept, hreason]
      rw [hkept, hdropped, ← Multiset.cons_coe, Multiset.add_cons]

/-- The categories of the single files in use that have a reason against them. The sweep collects
these first and then takes them out. -/
theorem mem_stale_iff (reason? : LoadedTrace → Option DropReason)
    (held : CategoryMap LoadedTrace) (c : Category) :
    c ∈ (held.toList.filterMap fun (c, l) => (reason? l).map fun r => (c, l, r)).map (·.1) ↔
      ∃ l, held.get? c = some l ∧ (reason? l).isSome = true := by
  simp only [List.mem_map, List.mem_filterMap, Prod.exists, Option.map_eq_some_iff,
    CategoryMap.mem_toList, Option.isSome_iff_exists]
  constructor
  · rintro ⟨d, l, reason, ⟨_, _, hl, _, hreason, heq⟩, rfl⟩
    cases heq
    exact ⟨l, hl, reason, hreason⟩
  · rintro ⟨l, hl, reason, hreason⟩
    exact ⟨c, l, reason, ⟨c, l, hl, reason, hreason, rfl⟩, rfl⟩

/-- A sweep takes the single files in use with a reason against them out of their map, and changes
no other place. -/
theorem get?_legacy_sweep (reason? : LoadedTrace → Option DropReason) (m : Merging)
    (c : Category) :
    (m.sweep reason?).registry.legacy.get? c =
      (m.registry.legacy.get? c).filter fun l => (reason? l).isNone := by
  have hstale := mem_stale_iff reason? m.registry.legacy c
  simp only [sweep, siftLegacy, sift, CategoryMap.get?_foldl_erase, hstale]
  cases hget : m.registry.legacy.get? c with
  | none => simp
  | some l =>
    cases hreason : reason? l with
    | none => simp [Option.filter_some, hreason]
    | some reason => simp [Option.filter_some, hreason]

/-- A sweep keeps exactly the single files without a reason against them, in their order. -/
theorem singles_sweep (reason? : LoadedTrace → Option DropReason) (m : Merging) :
    (m.sweep reason?).singles = m.singles.filter fun l => (reason? l).isNone := by
  have hlegacy : (m.sweep reason?).registry.legacy.values =
      m.registry.legacy.values.filter fun l => (reason? l).isNone :=
    CategoryMap.values_eq_filter (get?_legacy_sweep reason? m)
  rw [singles, singles, hlegacy, List.filter_append]
  rfl

/-- A sweep drops exactly the single files with a reason against them, behind the drops that
are there. -/
theorem drops_sweep (reason? : LoadedTrace → Option DropReason) (m : Merging) :
    (m.sweep reason?).drops = m.drops ++ swept reason? m.singles := by
  have hlegacy : (m.registry.legacy.toList.filterMap fun (c, l) =>
      (reason? l).map fun r => (c, l, r)).map (fun s => (⟨s.2.1, s.2.2⟩ : Drop)) =
        swept reason? m.registry.legacy.values := by
    rw [← CategoryMap.map_snd_toList, swept, List.filterMap_map, List.map_filterMap]
    congr 1
    funext p
    simp only [Function.comp_apply, Option.map_map]
    rfl
  rw [singles, swept, List.filterMap_append, ← List.append_assoc]
  exact congrArg _ hlegacy

/-! ## Admissions -/

/-- The outcomes of asking for the place of a category. Whoever does not get it is dropped, so an
admission loses no trace. -/
inductive Admission (held : CategoryMap LoadedTrace) (l : LoadedTrace) :
    CategoryMap LoadedTrace × List Drop → Prop
  /-- The trace takes the place, and the one that held it is dropped. -/
  | taken : Admission held l (supersede held l)
  /-- The trace that holds the place keeps it, and the one that asks is dropped. -/
  | refused {current : LoadedTrace} (hheld : held.get? l.category = some current) :
    Admission held l (held, [⟨l, .replaced⟩])

/-- A competition for a place ends in one of the two outcomes, whatever the ranks are. -/
theorem admission_contend (held : CategoryMap LoadedTrace) (l : LoadedTrace) :
    Admission held l (contend held l) := by
  unfold contend
  cases hheld : held.get? l.category with
  | none => exact .taken
  | some current =>
    by_cases hrank : current.trace.rank < l.trace.rank
    · simp only [if_pos hrank]
      exact .taken
    · simp only [if_neg hrank]
      exact .refused hheld

section Admission

variable {held : CategoryMap LoadedTrace} {l : LoadedTrace}
  {outcome : CategoryMap LoadedTrace × List Drop}

/-- The trace that asks and those that held places are afterwards in place or replaced. All balances
of entering start from this. -/
theorem Admission.balance (h : Admission held l outcome) :
    ∃ losers : List LoadedTrace, outcome.2 = losers.map (⟨·, .replaced⟩) ∧
      (outcome.1.values : Multiset LoadedTrace) + (losers : Multiset LoadedTrace) =
        l ::ₘ (held.values : Multiset LoadedTrace) := by
  cases h with
  | taken => exact ⟨_, rfl, CategoryMap.values_insert_add_get? held l.category l⟩
  | refused hheld => exact ⟨[l], rfl, Multiset.add_comm _ _⟩

/-- The places of other categories stay as they are, in both outcomes. -/
theorem Admission.get?_of_ne (h : Admission held l outcome) {c : Category}
    (hne : l.category ≠ c) : outcome.1.get? c = held.get? c := by
  cases h with
  | taken => simp only [supersede, CategoryMap.get?_insert, if_neg hne]
  | refused hheld => rfl

end Admission

/-- A trace of a session asks for its place in the session, after the single file of its category
has been dropped. So that file leaves even if the trace is refused. -/
theorem enterSession_admission (m : Merging) (l : LoadedTrace) :
    ∃ outcome, Admission m.registry.modern l outcome ∧
      enterSession m l = { m with
        registry := { m.registry with
          legacy := m.registry.legacy.erase l.category
          modern := outcome.1 }
        drops := m.drops ++ (m.registry.legacy.get? l.category).toList.map (⟨·, .replaced⟩) ++
          outcome.2 } :=
  ⟨contend m.registry.modern l, admission_contend _ _, rfl⟩

/-- A candidate asks for its place among the single files. Against a file of an earlier load it is
always admitted. -/
theorem enterLegacy_admission (m : Merging) (entered : List Category) (l : LoadedTrace) :
    ∃ outcome, Admission m.registry.legacy l outcome ∧
      enterLegacy (m, entered) l = ({ m with
        registry := { m.registry with legacy := outcome.1 }
        drops := m.drops ++ outcome.2 }, l.category :: entered) := by
  by_cases hentered : l.category ∈ entered
  · refine ⟨contend m.registry.legacy l, admission_contend _ _, ?_⟩
    simp only [enterLegacy, if_pos hentered]
  · refine ⟨supersede m.registry.legacy l, .taken, ?_⟩
    simp only [enterLegacy, if_neg hentered]

end FrameAlign.Merging
