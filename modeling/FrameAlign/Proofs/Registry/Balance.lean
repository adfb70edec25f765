import FrameAlign.Proofs.Registry.Listing
import FrameAlign.Proofs.Registry.Steps
import Mathlib.Tactic.Abel

/-!
# The balance of a merge

A merge loses no trace and reports none twice. Every trace that comes in or was in use is in use
afterwards or among the drops, as often as it came; only the traces of a session that a new one
replaces leave without a drop.
-/

namespace FrameAlign

/-- A diagnostic that names the given trace: by its files if another trace was preferred, and by
the file it was loaded from if it is too old. -/
def Diagnostic.Reports (d : Diagnostic) (l : LoadedTrace) : Prop :=
  match d with
  | .overridden source _ => source = l.trace.source
  | .oldData source _ => source = l.file.descriptor
  | _ => False

/-- The diagnostic of a drop names the dropped trace, whatever the reason is. -/
theorem Drop.reports (d : Drop) : d.diagnostic.Reports d.loaded := by
  unfold diagnostic
  cases d.reason with
  | replaced => rfl
  | redundant dominant => rfl
  | outdated => rfl
  | leftOver gap => rfl

namespace Merging

/-! ## Shedding -/

/-- From `m` to `m'` traces leave a merge and none comes in: what is left keeps its place, and each
trace that left is recorded once, behind the earlier drops. -/
structure Sheds (m m' : Merging) : Prop where
  /-- The rules stay. -/
  policy_eq : m'.registry.policy = m.registry.policy
  /-- The candidates that are left were candidates. -/
  candidates_subset : m'.candidates ⊆ m.candidates
  /-- The single files that are left were in use for the same category. -/
  legacy_le : ∀ {c l}, m'.registry.legacy.get? c = some l → m.registry.legacy.get? c = some l
  /-- The traces of the session that are left were in use for the same category. -/
  modern_le : ∀ {c l}, m'.registry.modern.get? c = some l → m.registry.modern.get? c = some l
  /-- The traces that are left and those newly dropped make up all the traces. -/
  balance : ∃ new : List Drop, m'.drops = m.drops ++ new ∧
    (m.singles : Multiset LoadedTrace) + m.registry.modern.values =
      m'.singles + m'.registry.modern.values + (new.map (·.loaded) : List LoadedTrace)

/-- A step that changes nothing sheds no traces, as a step may find nothing to do. -/
theorem Sheds.refl (m : Merging) : m.Sheds m where
  policy_eq := rfl
  candidates_subset := fun _ hl => hl
  legacy_le := id
  modern_le := id
  balance := ⟨[], by simp, by simp⟩

/-- Steps that shed traces one after the other shed the traces of both, with their drops one behind
the other. -/
theorem Sheds.trans {m m' m'' : Merging} (h : m.Sheds m') (h' : m'.Sheds m'') : m.Sheds m'' where
  policy_eq := h'.policy_eq.trans h.policy_eq
  candidates_subset := fun _ hl => h.candidates_subset (h'.candidates_subset hl)
  legacy_le := fun hl => h.legacy_le (h'.legacy_le hl)
  modern_le := fun hl => h.modern_le (h'.modern_le hl)
  balance := by
    obtain ⟨new, hdrops, hbalance⟩ := h.balance
    obtain ⟨new', hdrops', hbalance'⟩ := h'.balance
    refine ⟨new ++ new', by rw [hdrops', hdrops, List.append_assoc], ?_⟩
    rw [hbalance, hbalance', List.map_append, ← Multiset.coe_add]
    abel

/-- Sifting the candidates sheds traces, for whatever reasons. -/
theorem sheds_sift (reason? : LoadedTrace → Option DropReason) (m : Merging) :
    m.Sheds (m.sift reason?) where
  policy_eq := rfl
  candidates_subset := fun _ hl => List.mem_of_mem_filter hl
  legacy_le := id
  modern_le := id
  balance := by
    refine ⟨swept reason? m.candidates, rfl, ?_⟩
    have hcandidates := coe_eq_filter_add_swept reason? m.candidates
    simp only [singles, sift, ← Multiset.coe_add]
    rw [hcandidates]
    abel

/-- A sweep of the single files sheds traces, for whatever reasons. Both sweeps of a merge are of
this form. -/
theorem sheds_sweep (reason? : LoadedTrace → Option DropReason) (m : Merging) :
    m.Sheds (m.sweep reason?) where
  policy_eq := rfl
  candidates_subset := fun _ hl => List.mem_of_mem_filter hl
  legacy_le := fun hl => by
    rw [get?_legacy_sweep] at hl
    exact (Option.filter_eq_some_iff.mp hl).1
  modern_le := id
  balance := by
    refine ⟨swept reason? m.singles, drops_sweep reason? m, ?_⟩
    have hsingles := coe_eq_filter_add_swept reason? m.singles
    rw [singles_sweep]
    rw [hsingles]
    change _ = _ + ((m.registry.modern.values : List LoadedTrace) : Multiset LoadedTrace) + _
    abel

/-- Without a screen recording the screenshots stay, and so does everything else. -/
theorem dropScreenshots_eq_self {m : Merging} (h : m.isRecorded = false) :
    m.dropScreenshots = m := by
  simp [dropScreenshots, h]

/-- Giving way to a screen recording sheds traces. Screenshots leave from all three places: the
candidates, the single files and the session. -/
theorem sheds_dropScreenshots (m : Merging) : m.Sheds m.dropScreenshots := by
  cases hrecorded : m.isRecorded with
  | false =>
    rw [dropScreenshots_eq_self hrecorded]
    exact Sheds.refl m
  | true =>
    let reason? (l : LoadedTrace) : Option DropReason :=
      if l.category = .screenshot then some (.redundant .screenRecording) else none
    let held := (m.registry.legacy.get? .screenshot).toList ++
      (m.registry.modern.get? .screenshot).toList
    have heq : m.dropScreenshots = { m.sift reason? with
        registry := m.registry.remove .screenshot
        drops := m.drops ++ swept reason? m.candidates ++
          held.map (⟨·, .redundant .screenRecording⟩) } := by
      simp only [dropScreenshots, hrecorded, if_true]
      rfl
    rw [heq]
    exact {
      policy_eq := rfl
      candidates_subset := fun _ hl => List.mem_of_mem_filter hl
      legacy_le := CategoryMap.get?_of_get?_erase
      modern_le := CategoryMap.get?_of_get?_erase
      balance := by
        refine ⟨_, List.append_assoc _ _ _, ?_⟩
        have hcandidates := coe_eq_filter_add_swept reason? m.candidates
        have hlegacy := CategoryMap.values_eq_get?_add_erase m.registry.legacy .screenshot
        have hmodern := CategoryMap.values_eq_get?_add_erase m.registry.modern .screenshot
        simp only [singles, sift, Registry.remove, List.map_append, map_loaded_map_drop, held,
          ← Multiset.coe_add]
        rw [hcandidates, hlegacy, hmodern]
        abel }

/-! ## Taking traces in -/

/-- Candidates that ask for their places one after the other leave the session as it is, and each of
them and of the single files in use is afterwards in place or replaced. By induction on the
candidates, with what has entered so far left open. -/
theorem foldl_enterLegacy (loaded : List LoadedTrace) (m : Merging) (entered : List Category) :
    ∃ (legacy : CategoryMap LoadedTrace) (losers : List LoadedTrace),
      (loaded.foldl enterLegacy (m, entered)).1 =
        { m with
          registry := { m.registry with legacy }
          drops := m.drops ++ losers.map (⟨·, .replaced⟩) } ∧
      (loaded : Multiset LoadedTrace) + m.registry.legacy.values =
        (legacy.values : Multiset LoadedTrace) + (losers : Multiset LoadedTrace) := by
  induction loaded generalizing m entered with
  | nil => exact ⟨m.registry.legacy, [], by simp, by simp⟩
  | cons l loaded ih =>
    obtain ⟨outcome, hadmission, hstep⟩ := enterLegacy_admission m entered l
    obtain ⟨first, hfirst, hplace⟩ := hadmission.balance
    rw [List.foldl_cons, hstep]
    obtain ⟨legacy, rest, hrest, hbalance⟩ := ih
      { m with registry := { m.registry with legacy := outcome.1 }, drops := m.drops ++ outcome.2 }
      (l.category :: entered)
    refine ⟨legacy, first ++ rest, by rw [hrest, hfirst, List.map_append, List.append_assoc], ?_⟩
    calc
      ((l :: loaded : List LoadedTrace) : Multiset LoadedTrace) + m.registry.legacy.values =
          (loaded : Multiset LoadedTrace) + (l ::ₘ (m.registry.legacy.values : Multiset _)) := by
        rw [← Multiset.cons_coe, Multiset.cons_add, Multiset.add_cons]
      _ = (loaded : Multiset LoadedTrace) + outcome.1.values + (first : Multiset LoadedTrace) := by
        rw [← hplace, add_assoc]
      _ = (legacy.values : Multiset LoadedTrace) +
          ((first ++ rest : List LoadedTrace) : Multiset LoadedTrace) := by
        rw [hbalance, ← Multiset.coe_add]
        abel

/-- Taking the candidates in leaves none, keeps the session, and each single file is afterwards in
place or replaced. This step exchanges traces and so does not merely shed them. -/
theorem enterCandidates_spec (m : Merging) :
    m.enterCandidates.candidates = [] ∧
      m.enterCandidates.registry.policy = m.registry.policy ∧
      m.enterCandidates.registry.modern = m.registry.modern ∧
      ∃ losers : List LoadedTrace,
        m.enterCandidates.drops = m.drops ++ losers.map (⟨·, .replaced⟩) ∧
        (m.singles : Multiset LoadedTrace) =
          (m.enterCandidates.registry.legacy.values : Multiset LoadedTrace) +
            (losers : Multiset LoadedTrace) := by
  obtain ⟨legacy, losers, hfold, hbalance⟩ := foldl_enterLegacy m.candidates m []
  have heq : m.enterCandidates =
      { registry := { m.registry with legacy }
        candidates := []
        drops := m.drops ++ losers.map (⟨·, .replaced⟩) } := by
    rw [enterCandidates, hfold]
  rw [heq]
  exact ⟨rfl, rfl, rfl, losers, rfl, by rw [singles, ← Multiset.coe_add, hbalance]⟩

/-- Traces of a session that ask for their places one after the other keep the candidates, and each
of them and of the traces in use is afterwards in place or replaced. A single file of the category
is replaced as well. -/
theorem foldl_enterSession (loaded : List LoadedTrace) (m : Merging) :
    ∃ (legacy modern : CategoryMap LoadedTrace) (losers : List LoadedTrace),
      loaded.foldl enterSession m =
        { m with
          registry := { m.registry with legacy, modern }
          drops := m.drops ++ losers.map (⟨·, .replaced⟩) } ∧
      (loaded : Multiset LoadedTrace) + m.registry.legacy.values + m.registry.modern.values =
        (legacy.values : Multiset LoadedTrace) + (modern.values : Multiset LoadedTrace) +
          (losers : Multiset LoadedTrace) := by
  induction loaded generalizing m with
  | nil => exact ⟨m.registry.legacy, m.registry.modern, [], by simp, by simp⟩
  | cons l loaded ih =>
    obtain ⟨outcome, hadmission, hstep⟩ := enterSession_admission m l
    obtain ⟨first, hfirst, hplace⟩ := hadmission.balance
    rw [List.foldl_cons, hstep]
    let evicted : List LoadedTrace := (m.registry.legacy.get? l.category).toList
    obtain ⟨legacy, modern, rest, hrest, hbalance⟩ := ih
      { m with
        registry := { m.registry with
          legacy := m.registry.legacy.erase l.category
          modern := outcome.1 }
        drops := m.drops ++ evicted.map (⟨·, .replaced⟩) ++ outcome.2 }
    refine ⟨legacy, modern, evicted ++ first ++ rest, ?_, ?_⟩
    · rw [hrest, hfirst]
      simp only [List.map_append, List.append_assoc]
    · have hlegacy := CategoryMap.values_eq_get?_add_erase m.registry.legacy l.category
      rw [← Multiset.coe_add, ← Multiset.coe_add]
      calc
        ((l :: loaded : List LoadedTrace) : Multiset LoadedTrace) + m.registry.legacy.values +
            m.registry.modern.values =
            (loaded : Multiset LoadedTrace) + m.registry.legacy.values +
              (l ::ₘ (m.registry.modern.values : Multiset _)) := by
          rw [← Multiset.cons_coe, Multiset.cons_add, Multiset.cons_add, Multiset.add_cons]
        _ = (loaded : Multiset LoadedTrace) + (m.registry.legacy.erase l.category).values +
              outcome.1.values +
              ((evicted : Multiset LoadedTrace) + (first : Multiset LoadedTrace)) := by
          rw [← hplace, hlegacy]
          abel
        _ = _ := by
          rw [hbalance]
          abel

/-- The replacement of the session keeps the candidates. Each single file in use and each trace of
the session, or of the one in use if none is new, is afterwards in place or replaced. The old
session leaves without a drop, so its traces are not counted when a new one comes. -/
theorem replaceSession_spec (session : Option Session) (m : Merging) :
    (m.replaceSession session).candidates = m.candidates ∧
      (m.replaceSession session).registry.policy = m.registry.policy ∧
      ∃ losers : List LoadedTrace,
        (m.replaceSession session).drops = m.drops ++ losers.map (⟨·, .replaced⟩) ∧
        (m.registry.legacy.values : Multiset LoadedTrace) +
            (session.elim m.registry.modern.values Session.loaded : List LoadedTrace) =
          (m.replaceSession session).registry.legacy.values +
            ((m.replaceSession session).registry.modern.values : Multiset LoadedTrace) +
            (losers : Multiset LoadedTrace) := by
  cases session with
  | none => exact ⟨rfl, rfl, [], by simp [replaceSession], by simp [replaceSession]⟩
  | some s =>
    obtain ⟨legacy, modern, losers, hfold, hbalance⟩ := foldl_enterSession s.loaded
      { m with registry := { m.registry with modern := CategoryMap.empty } }
    rw [CategoryMap.values_empty, Multiset.coe_nil, add_zero] at hbalance
    rw [replaceSession, hfold]
    exact ⟨rfl, rfl, losers, rfl, by rw [← hbalance, add_comm, Option.elim_some]⟩

/-! ## The whole merge -/

/-- Dropping hidden candidates sheds traces: it is a way of sifting. -/
theorem sheds_dropHidden (m : Merging) : m.Sheds m.dropHidden := sheds_sift _ m

/-- Dropping outdated single files sheds traces: it is a sweep. -/
theorem sheds_dropOutdated (m : Merging) : m.Sheds m.dropOutdated := sheds_sweep _ m

/-- Dropping left-over single files sheds traces: it is a sweep. -/
theorem sheds_dropLeftOver (m : Merging) : m.Sheds m.dropLeftOver := sheds_sweep _ m

/-- Everything that comes into a merge is afterwards in use or newly dropped. The steps are
put together in their order, the two that exchange traces at the ends and those that shed them
in between. -/
theorem run_balance (session : Option Session) (m : Merging) :
    ∃ new : List Drop, (m.run session).drops = m.drops ++ new ∧
      (m.candidates : Multiset LoadedTrace) + m.registry.legacy.values +
          (session.elim m.registry.modern.values Session.loaded : List LoadedTrace) =
        ((m.run session).registry.loaded : Multiset LoadedTrace) +
          (new.map (·.loaded) : List LoadedTrace) := by
  obtain ⟨hcandidates, -, losers, hdrops, hreplaced⟩ := replaceSession_spec session m
  set replaced := m.replaceSession session
  have hsheds := (((sheds_dropHidden replaced).trans (sheds_dropOutdated _)).trans
    (sheds_dropLeftOver _)).trans (sheds_dropScreenshots _)
  obtain ⟨new, hdrops', hshed⟩ := hsheds.balance
  set shed := replaced.dropHidden.dropOutdated.dropLeftOver.dropScreenshots
  obtain ⟨-, -, hmodern, losers', hdrops'', hentered⟩ := enterCandidates_spec shed
  have hrun : m.run session = shed.enterCandidates := rfl
  refine ⟨losers.map (⟨·, .replaced⟩) ++ new ++ losers'.map (⟨·, .replaced⟩), ?_, ?_⟩
  · rw [hrun, hdrops'', hdrops', hdrops, List.append_assoc, List.append_assoc, List.append_assoc]
  calc
    (m.candidates : Multiset LoadedTrace) + m.registry.legacy.values +
        (session.elim m.registry.modern.values Session.loaded : List LoadedTrace) =
        (m.candidates : Multiset LoadedTrace) + (replaced.registry.legacy.values +
          (replaced.registry.modern.values : Multiset LoadedTrace) +
          (losers : Multiset LoadedTrace)) := by
      rw [add_assoc, hreplaced]
    _ = (replaced.singles : Multiset LoadedTrace) + replaced.registry.modern.values +
          (losers : Multiset LoadedTrace) := by
      rw [singles, hcandidates, ← Multiset.coe_add]
      abel
    _ = _ := by
      rw [hshed, hentered, hrun, Registry.coe_loaded, hmodern, List.map_append, List.map_append,
        map_loaded_map_drop, map_loaded_map_drop, ← Multiset.coe_add, ← Multiset.coe_add]
      abel

end Merging

namespace Registry

/-- Every trace in use after a merge came with it or was in use before. This is what the balance
says about single traces. -/
theorem loaded_merge_subset (r : Registry) (candidates : List LoadedTrace)
    (session : Option Session) :
    (r.merge candidates session).1.loaded ⊆
      candidates ++ session.elim [] Session.loaded ++ r.loaded := by
  intro l hl
  obtain ⟨new, -, hbalance⟩ := Merging.run_balance session { registry := r, candidates }
  rw [merge_fst] at hl
  have hincoming :
      l ∈ candidates ++ r.legacy.values ++ session.elim r.modern.values Session.loaded := by
    rw [← Multiset.mem_coe, ← Multiset.coe_add, ← Multiset.coe_add, hbalance]
    exact Multiset.mem_add.mpr (Or.inl hl)
  rw [List.append_assoc, List.mem_append] at hincoming
  rw [List.append_assoc, List.mem_append, List.mem_append, mem_loaded]
  refine hincoming.imp id fun hheld => ?_
  cases session with
  | none => exact Or.inr (List.mem_append.mp hheld)
  | some s => exact (List.mem_append.mp hheld).symm.imp id Or.inl

/-- **Balance of a merge.** The candidates, the traces of the session with its file, the single
files in use and, if no session is supplied, the session traces in use are exactly the traces in
use after the merge and those that it discarded, each as often as before. The diagnostics name the
discarded traces one for one, so that their number is what is missing among the traces in use. -/
theorem merge_balance (r : Registry) (candidates : List LoadedTrace) (session : Option Session) :
    let merged := (r.merge candidates session).1
    let discarded := (r.merge candidates session).2.map (·.loaded)
    let diagnostics := (r.merge candidates session).2.map Drop.diagnostic
    (candidates : Multiset LoadedTrace) + r.legacy.values +
          (session.elim r.modern.values Session.loaded : List LoadedTrace) =
        (merged.loaded : Multiset LoadedTrace) + (discarded : Multiset LoadedTrace) ∧
      List.Forall₂ Diagnostic.Reports diagnostics discarded ∧
      diagnostics.length + merged.size =
        candidates.length + r.legacy.size + session.elim r.modern.size (·.traces.length) := by
  obtain ⟨new, hdrops, hbalance⟩ := Merging.run_balance session { registry := r, candidates }
  simp only [merge_fst, merge_snd, hdrops, List.nil_append]
  refine ⟨hbalance, ?_, ?_⟩
  · rw [List.forall₂_map_left_iff, List.forall₂_map_right_iff, List.forall₂_same]
    exact fun d _ => d.reports
  · have hcard := congrArg Multiset.card hbalance
    simp only [Multiset.card_add, Multiset.coe_card, List.length_map] at hcard
    have hsupplied : (session.elim r.modern.values Session.loaded).length =
        session.elim r.modern.size (·.traces.length) := by
      cases session with
      | none => exact (CategoryMap.size_eq_length_values r.modern).symm
      | some s => simp [Session.loaded]
    rw [size_eq_length_loaded, CategoryMap.size_eq_length_values, ← hsupplied, List.length_map,
      hcard]
    exact Nat.add_comm _ _

end Registry

end FrameAlign
