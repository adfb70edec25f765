import FrameAlign.Proofs.Registry.Screenshots
import FrameAlign.Proofs.Registry.Settled
import Mathlib

/-!
# Precedence in a merge

Of the traces that ask for one place the richest gets it, and the earliest of these if several are
as rich. Traces that the steps of a merge drop do not ask at all: a single file that is outdated or
left over neither gets a place for being long nor keeps a shorter one from it. A file of an earlier
load keeps its place only if no candidate asks for it.
-/

namespace FrameAlign

namespace Merging

/-! ## The earliest of the richest -/

/-- The trace is as rich as any of the others, and richer than those before it. The list is split at
the trace, so that of equals the earliest is meant. -/
def IsFirstRichest (loaded : List LoadedTrace) (l : LoadedTrace) : Prop :=
  ∃ before after, loaded = before ++ l :: after ∧
    (∀ k ∈ before, k.trace.rank < l.trace.rank) ∧ ∀ k ∈ after, ¬l.trace.rank < k.trace.rank

/-- The trace that comes last is the earliest of the richest if it is richer than that before. -/
theorem IsFirstRichest.concat_of_lt {loaded : List LoadedTrace} {l k : LoadedTrace}
    (h : IsFirstRichest loaded l) (hrank : l.trace.rank < k.trace.rank) :
    IsFirstRichest (loaded ++ [k]) k := by
  obtain ⟨before, after, rfl, hbefore, hafter⟩ := h
  refine ⟨before ++ l :: after, [], rfl, ?_, by simp⟩
  intro j hj
  rcases List.mem_append.mp hj with hj | hj
  · exact Rank.lt_of_not_lt_of_lt (Rank.not_lt_of_lt (hbefore j hj)) hrank
  · rcases List.mem_cons.mp hj with rfl | hj
    · exact hrank
    · exact Rank.lt_of_not_lt_of_lt (hafter j hj) hrank

/-- The earliest of the richest stays so if one comes that is no richer, so an equal one
comes too late. -/
theorem IsFirstRichest.concat_of_not_lt {loaded : List LoadedTrace} {l k : LoadedTrace}
    (h : IsFirstRichest loaded l) (hrank : ¬l.trace.rank < k.trace.rank) :
    IsFirstRichest (loaded ++ [k]) l := by
  obtain ⟨before, after, rfl, hbefore, hafter⟩ := h
  refine ⟨before, after ++ [k], by simp, hbefore, ?_⟩
  intro j hj
  rcases List.mem_append.mp hj with hj | hj
  · exact hafter j hj
  · rwa [List.mem_singleton.mp hj]

/-- A trace keeps its place against traces that are no richer, however many of them ask for it. -/
theorem foldl_prefer_of_not_lt {loaded : List LoadedTrace} {l : LoadedTrace}
    (h : ∀ k ∈ loaded, ¬l.trace.rank < k.trace.rank) : loaded.foldl prefer (some l) = some l := by
  induction loaded with
  | nil => rfl
  | cons k loaded ih =>
    have hkept : prefer (some l) k = some l := if_neg (h k List.mem_cons_self)
    rw [List.foldl_cons, hkept]
    exact ih fun j hj => h j (List.mem_cons_of_mem k hj)

/-- The competition for a place is won by the earliest of the richest, and by no other trace. -/
theorem richest_eq_some_iff {loaded : List LoadedTrace} {l : LoadedTrace} :
    richest loaded = some l ↔ IsFirstRichest loaded l := by
  constructor
  · intro h
    induction loaded using List.reverseRecOn generalizing l with
    | nil => cases h
    | append_singleton loaded k ih =>
      rw [richest, List.foldl_append, List.foldl_cons, List.foldl_nil, ← richest] at h
      cases hbest : richest loaded with
      | none =>
        rw [hbest] at h
        cases h
        rw [richest_eq_none_iff.mp hbest]
        exact ⟨[], [], rfl, by simp, by simp⟩
      | some current =>
        rw [hbest, prefer] at h
        split at h
        · next hrank =>
          cases h
          exact (ih hbest).concat_of_lt hrank
        · next hrank =>
          cases h
          exact (ih hbest).concat_of_not_lt hrank
  · rintro ⟨before, after, rfl, hbefore, hafter⟩
    -- Whoever holds the place before the trace comes gives it up.
    have htaken : prefer (richest before) l = some l := by
      cases hbest : richest before with
      | none => rfl
      | some current => exact if_pos (hbefore current (mem_of_richest hbest))
    rw [richest, List.foldl_append, List.foldl_cons, ← richest, htaken]
    exact foldl_prefer_of_not_lt hafter

/-! ## What the steps leave -/

/-- From `m` to `m'` exactly the single files with a property are left, among the candidates and in
use. The property is decided for each file by itself, so steps of this kind are filters. -/
structure Sifts (p : LoadedTrace → Bool) (m m' : Merging) : Prop where
  /-- Candidates with the property are left, in their order. -/
  candidates_eq : m'.candidates = m.candidates.filter p
  /-- A single file in use is left in its place if it has the property. -/
  get?_legacy : ∀ c, m'.registry.legacy.get? c = (m.registry.legacy.get? c).filter p

section Sifts

variable {p q : LoadedTrace → Bool} {m m' m'' : Merging}

/-- The property may be put in another form. -/
theorem Sifts.congr (h : m.Sifts p m') (hpq : ∀ l, p l = q l) : m.Sifts q m' := by
  rwa [← funext hpq]

/-- Steps that leave files with one property and then those with another leave those with both. The
second property may depend on what the first step has left. -/
theorem Sifts.trans (h : m.Sifts p m') (h' : m'.Sifts q m'') :
    m.Sifts (fun l => p l && q l) m'' where
  candidates_eq := by
    rw [h'.candidates_eq, h.candidates_eq, List.filter_filter]
    exact List.filter_congr fun l _ => Bool.and_comm _ _
  get?_legacy := by
    intro c
    rw [h'.get?_legacy, h.get?_legacy, Option.filter_filter]

/-- The first sweep leaves the files that are not outdated. -/
theorem sifts_dropOutdated (m : Merging) :
    m.Sifts (fun l => !l.trace.isOutdated m.pool) m.dropOutdated := by
  have hsweep : m.Sifts _ m.dropOutdated := ⟨rfl, get?_legacy_sweep _ m⟩
  refine hsweep.congr fun l => ?_
  by_cases houtdated : l.trace.isOutdated m.pool = true <;> simp [houtdated]

/-- The second sweep leaves the files that are not left over. -/
theorem sifts_dropLeftOver (m : Merging) :
    m.Sifts (fun l => (l.trace.oldDataGap? m.registry.policy m.pool).isNone) m.dropLeftOver := by
  have hsweep : m.Sifts _ m.dropLeftOver := ⟨rfl, get?_legacy_sweep _ m⟩
  exact hsweep.congr fun l => Option.isNone_map

/-- Without a recording all files are left, and next to one those that are no screenshots.
Single files in use leave by their category, which is the one that they record as long as the
maps agree. -/
theorem sifts_dropScreenshots {file : TraceFile} (h : m.registry.Consistent file) :
    m.Sifts (fun l => !(m.isRecorded && l.category = .screenshot)) m.dropScreenshots := by
  cases hrecorded : m.isRecorded with
  | false =>
    rw [dropScreenshots_eq_self hrecorded]
    constructor
    · simp
    · intro c
      cases m.registry.legacy.get? c <;> rfl
  | true =>
    obtain ⟨hcandidates, hregistry⟩ := dropScreenshots_of_isRecorded hrecorded
    constructor
    · rw [hcandidates]
      exact List.filter_congr fun l _ => by simp
    · intro c
      rw [hregistry, Registry.remove, CategoryMap.get?_erase]
      cases hget : m.registry.legacy.get? c with
      | none => simp
      | some l =>
        have hcategory : l.category = c := h.legacy_category hget
        by_cases hc : .screenshot = c
        · simp [Option.filter_some, hcategory, hc]
        · simp [Option.filter_some, hcategory, hc, Ne.symm hc]

/-- A screenshot of the session leaves next to a recording, and no other trace of the session. -/
theorem get?_modern_dropScreenshots (m : Merging) (c : Category) :
    m.dropScreenshots.registry.modern.get? c =
      if m.isRecorded = true ∧ c = .screenshot then none else m.registry.modern.get? c := by
  cases hrecorded : m.isRecorded with
  | false =>
    rw [dropScreenshots_eq_self hrecorded]
    simp
  | true =>
    rw [(dropScreenshots_of_isRecorded hrecorded).2, Registry.remove, CategoryMap.get?_erase]
    simp [eq_comm]

end Sifts

section Steps

variable (session : Option Session) (m : Merging)

/-- The merge when candidates of the session's categories have been dropped. From here on only
evidence decides. -/
def hidden : Merging := (m.replaceSession session).dropHidden

/-- Whether a screen recording is seen at the step that drops screenshots. A recording that was
dropped by a sweep is not seen. -/
def isRecordedLate : Bool := (m.hidden session).dropOutdated.dropLeftOver.isRecorded

/-- Whether none of the steps that drop single files for what they are drops this one: it is
not outdated, not left over and no screenshot next to a recording. It does not ask how rich
the file is. -/
def withstands (l : LoadedTrace) : Bool :=
  !l.trace.isOutdated (m.hidden session).pool &&
    (l.trace.oldDataGap? m.registry.policy (m.hidden session).dropOutdated.pool).isNone &&
    !(m.isRecordedLate session && l.category = .screenshot)

/-- The merge when its candidates enter, with nothing left to decide but who gets which place. -/
def sieved : Merging := (m.hidden session).dropOutdated.dropLeftOver.dropScreenshots

variable {session m} {file : TraceFile} {c : Category}

/-- The steps between hiding and entering leave the single files that withstand them. -/
theorem sifts_sieved (h : m.registry.Consistent file) :
    (m.hidden session).Sifts (m.withstands session) (m.sieved session) := by
  have hpolicy : (m.hidden session).dropOutdated.registry.policy = m.registry.policy :=
    (replaceSession_spec session m).2.1
  have hsifts := ((sifts_dropOutdated (m.hidden session)).trans (sifts_dropLeftOver _)).trans
    (sifts_dropScreenshots (cleared_dropLeftOver h session).consistent)
  rw [hpolicy] at hsifts
  exact hsifts

/-- Only candidates of the session's categories are hidden, so in a place that it leaves free all
candidates that withstand the steps compete. -/
theorem ofCategory_candidates_sieved (h : m.registry.Consistent file)
    (hfree : (m.replaceSession session).registry.modern.contains c = false) :
    ofCategory c (m.sieved session).candidates =
      ofCategory c (m.candidates.filter (m.withstands session)) := by
  have hcandidates : (m.hidden session).candidates = m.candidates.filter fun l =>
      (if (m.replaceSession session).registry.modern.contains l.category then
        some DropReason.replaced else none).isNone := by
    rw [← (replaceSession_spec session m).1]
    rfl
  rw [(sifts_sieved h).candidates_eq, hcandidates, ofCategory, ofCategory, List.filter_filter,
    List.filter_filter, List.filter_filter]
  refine List.filter_congr fun l _ => ?_
  by_cases hc : l.category = c
  · simp [hc, hfree]
  · simp [hc]

/-- A single file in use is still there when the candidates enter if the session has not evicted it
and it withstands the steps. -/
theorem get?_legacy_sieved (h : m.registry.Consistent file) (c : Category) :
    (m.sieved session).registry.legacy.get? c =
      if c ∈ (session.elim [] Session.loaded).map (·.category) then none
      else (m.registry.legacy.get? c).filter (m.withstands session) := by
  have hhidden : (m.hidden session).registry = (m.replaceSession session).registry := rfl
  rw [(sifts_sieved h).get?_legacy, hhidden, get?_legacy_replaceSession]
  split
  · rfl
  · rfl

/-- The session is as its replacement has left it, but for a screenshot next to a recording. -/
theorem get?_modern_sieved (c : Category) :
    (m.sieved session).registry.modern.get? c =
      if m.isRecordedLate session = true ∧ c = .screenshot then none
      else (m.replaceSession session).registry.modern.get? c :=
  get?_modern_dropScreenshots _ c

/-- A merge leaves in each place of the session the earliest of its richest traces, or the trace in
use if no session is supplied; only a screenshot is missing next to a recording. Single files have
no say in it. -/
theorem get?_modern_run {l : LoadedTrace} :
    (m.run session).registry.modern.get? c = some l ↔
      ¬(m.isRecordedLate session = true ∧ c = .screenshot) ∧
        session.elim (m.registry.modern.get? c = some l) fun s =>
          IsFirstRichest (ofCategory c s.loaded) l := by
  have hmodern : (m.run session).registry.modern = (m.sieved session).registry.modern :=
    (enterCandidates_spec (m.sieved session)).2.2.1
  rw [hmodern, get?_modern_sieved, Option.ite_none_left_eq_some]
  refine and_congr_right fun _ => ?_
  cases session with
  | none => rfl
  | some s => rw [get?_modern_replaceSession, richest_eq_some_iff, Option.elim_some]

/-- In a place that the session leaves free a merge puts the earliest of the richest candidates that
withstand its steps, or else it leaves the single file there, if that withstands them. A file in use
is not compared with the candidates. -/
theorem get?_legacy_run (h : m.registry.Consistent file)
    (hfree : (m.replaceSession session).registry.modern.contains c = false) {l : LoadedTrace} :
    (m.run session).registry.legacy.get? c = some l ↔
      IsFirstRichest (ofCategory c (m.candidates.filter (m.withstands session))) l ∨
        ofCategory c (m.candidates.filter (m.withstands session)) = [] ∧
          c ∉ (session.elim [] Session.loaded).map (·.category) ∧
            m.registry.legacy.get? c = some l ∧ m.withstands session l = true := by
  have hrun : m.run session = (m.sieved session).enterCandidates := rfl
  rw [hrun, get?_enterCandidates, ofCategory_candidates_sieved h hfree, get?_legacy_sieved h,
    Option.or_eq_some_iff, richest_eq_some_iff, richest_eq_none_iff, Option.ite_none_left_eq_some,
    Option.filter_eq_some_iff]

end Steps

end Merging

namespace Registry

open Merging

/-- **Precedence in a merge.** After any history and any merge the session of the merge holds for
each category the earliest of its richest traces, and without one the session in use stays; only a
screenshot is missing next to a recording. For a category that the session leaves free, the earliest
of the richest candidates that withstand the steps is in use as a single file. If none does, the
single file in use before stays, provided that it is not evicted and withstands the steps. -/
theorem run_merge_precedence (policy : MergePolicy) (calls : List Call)
    (candidates : List LoadedTrace) (session : Option Session) :
    let r := (withPolicy policy).run calls
    let m : Merging := { registry := r, candidates }
    let merged := (r.merge candidates session).1
    let survivors := candidates.filter (m.withstands session)
    (∀ c l, merged.modern.get? c = some l ↔
      ¬(m.isRecordedLate session = true ∧ c = .screenshot) ∧
        session.elim (r.modern.get? c = some l) fun s =>
          IsFirstRichest (ofCategory c s.loaded) l) ∧
      ∀ c, (m.replaceSession session).registry.modern.contains c = false → ∀ l,
        merged.legacy.get? c = some l ↔ IsFirstRichest (ofCategory c survivors) l ∨
          ofCategory c survivors = [] ∧ c ∉ (session.elim [] Session.loaded).map (·.category) ∧
            r.legacy.get? c = some l ∧ m.withstands session l = true := by
  intro r m merged survivors
  obtain ⟨file, hconsistent⟩ := run_consistent policy calls
  have hmerged : merged = (m.run session).registry := merge_fst r candidates session
  rw [hmerged]
  exact ⟨fun c l => get?_modern_run, fun c hfree l => get?_legacy_run hconsistent hfree⟩

/-- A file that holds one trace with a first and a last real timestamp, which say how rich it is. -/
def spanning (c : Category) (serial : Nat) (start stop : Int) : LoadedTrace where
  file := { name := c.tag }
  trace :=
    { id := ⟨c, serial⟩
      size := 2
      timestamps := [.real (.clamp start), .real (.clamp stop)] }

/-- The longest candidate was left over, so the first of the two equal ones gets the place, also
from the longer file in use before; and the session keeps the first of its two longest traces. -/
theorem run_merge_precedence_equals :
    let calls := [.merge [spanning .windowManager 0 40 190] none]
    let stale := spanning .windowManager 1 (-1000) 0
    let first := spanning .windowManager 2 50 150
    let second := spanning .windowManager 3 60 160
    let short := spanning .protoLog 4 110 120
    let long := spanning .protoLog 5 100 120
    let equal := spanning .protoLog 6 101 121
    let session : Session := ⟨long.file, [short.trace, long.trace, equal.trace]⟩
    let merged :=
      (((withPolicy ⟨.clamp 95⟩).run calls).merge [stale, first, second] (some session)).1
    merged.legacy.get? .windowManager = some first ∧ merged.modern.get? .protoLog = some long := by
  intro calls stale first second short long equal session merged
  obtain ⟨hmodern, hlegacy⟩ :=
    run_merge_precedence ⟨.clamp 95⟩ calls [stale, first, second] (some session)
  constructor
  · have hfree : Category.windowManager ∉ session.loaded.map (·.category) := by decide
    have hsurvivors : ofCategory .windowManager ([stale, first, second].filter (withstands
        (some session) ⟨(withPolicy ⟨.clamp 95⟩).run calls, [stale, first, second], []⟩)) =
          [first, second] := by cbv
    rw [← contains_modern_replaceSession, Bool.not_eq_true] at hfree
    have hfirst : IsFirstRichest [first, second] first := ⟨[], [second], rfl, by simp, by decide⟩
    rw [← hsurvivors] at hfirst
    exact (hlegacy .windowManager hfree first).mpr (Or.inl hfirst)
  · have hrecords : ofCategory .protoLog session.loaded = [short] ++ long :: [equal] := rfl
    have hlongest : IsFirstRichest (ofCategory .protoLog session.loaded) long :=
      ⟨[short], [equal], hrecords, by decide, by decide⟩
    have hother : Category.protoLog ≠ .screenshot := by decide
    exact (hmodern .protoLog long).mpr ⟨fun hrecorded => hother hrecorded.2, hlongest⟩

end Registry

end FrameAlign
