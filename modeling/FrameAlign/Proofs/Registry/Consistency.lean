import FrameAlign.Proofs.Registry.Balance
import FrameAlign.Proofs.Registry.History
import FrameAlign.Proofs.Registry.Places

/-!
# Consistency of a registry

The two maps of a registry agree after every history of merges, removals and clearings: a category
is held once at most, by a trace that records it, and the session is that of one file. The session
evicts the single files of its categories when it enters, and candidates of its categories are
dropped before any of them enters.
-/

namespace FrameAlign

namespace Merging

/-- A merge whose maps agree and whose candidates leave the places of the session alone. From here
to the entry of the candidates nothing can bring the maps into conflict. -/
structure Cleared (m : Merging) (file : TraceFile) : Prop where
  /-- The maps agree as they stand. -/
  consistent : m.registry.Consistent file
  /-- No candidate is of a category that the session provides. -/
  free : ∀ l ∈ m.candidates, m.registry.modern.contains l.category = false

/-- The session evicts the single files of its categories, so the maps agree on its file, or on the
one before when there is no new session. -/
theorem consistent_replaceSession {m : Merging} {file : TraceFile}
    (h : m.registry.Consistent file) (session : Option Session) :
    (m.replaceSession session).registry.Consistent (session.elim file (·.file)) := by
  cases session with
  | none => exact h
  | some s =>
    constructor
    · intro c l hl
      rw [get?_legacy_replaceSession] at hl
      split at hl
      · cases hl
      · exact h.legacy_category hl
    · intro c l hl
      rw [get?_modern_replaceSession] at hl
      exact (mem_ofCategory.mp (mem_of_richest hl)).2
    · intro c hc
      rw [← Bool.not_eq_true, contains_modern_replaceSession]
      intro hsession
      rw [CategoryMap.contains, get?_legacy_replaceSession, Option.elim_some, if_pos hsession] at hc
      cases hc
    · intro c l hl
      rw [get?_modern_replaceSession] at hl
      obtain ⟨t, -, rfl⟩ := List.mem_map.mp (mem_ofCategory.mp (mem_of_richest hl)).1
      rfl

/-- No candidate of a category that the session provides is left, whichever session that is. -/
theorem contains_modern_of_mem_dropHidden {m : Merging} {l : LoadedTrace}
    (hl : l ∈ m.dropHidden.candidates) : m.registry.modern.contains l.category = false := by
  have hkept := (List.mem_filter.mp hl).2
  cases hcontains : m.registry.modern.contains l.category with
  | false => rfl
  | true => simp [hcontains] at hkept

/-- Candidates of categories that the session provides are dropped before any of them enters, so a
merge is cleared. -/
theorem cleared_dropHidden {m : Merging} {file : TraceFile} (h : m.registry.Consistent file) :
    m.dropHidden.Cleared file where
  consistent := h
  free := fun _ hl => contains_modern_of_mem_dropHidden (m := m) hl

/-- A merge that sheds traces stays clear of the places of the session. Fewer traces cannot get in
each other's way. -/
theorem Cleared.shed {m m' : Merging} {file : TraceFile} (h : m.Cleared file)
    (hshed : m.Sheds m') : m'.Cleared file where
  consistent := h.consistent.of_get?_le hshed.legacy_le hshed.modern_le
  free := by
    intro l hl
    have hfree := h.free l (hshed.candidates_subset hl)
    rw [CategoryMap.contains_eq_false_iff, Option.eq_none_iff_forall_ne_some] at hfree ⊢
    exact fun k hk => hfree k (hshed.modern_le hk)

/-- When screenshots are looked at, the session has entered and all its places are left alone. These
are the first four steps of a merge. -/
theorem cleared_dropLeftOver {m : Merging} {file : TraceFile} (h : m.registry.Consistent file)
    (session : Option Session) :
    (m.replaceSession session).dropHidden.dropOutdated.dropLeftOver.Cleared
      (session.elim file (·.file)) := by
  have hcleared := cleared_dropHidden (consistent_replaceSession h session)
  exact (hcleared.shed (sheds_dropOutdated _)).shed (sheds_dropLeftOver _)

/-- Candidates whose places the session leaves free keep the maps in agreement. -/
theorem consistent_enterCandidates {m : Merging} {file : TraceFile} (h : m.Cleared file) :
    m.enterCandidates.registry.Consistent file := by
  obtain ⟨-, -, hmodern, -⟩ := enterCandidates_spec m
  constructor
  · intro c l hl
    rw [get?_enterCandidates, Option.or_eq_some_iff] at hl
    rcases hl with hl | ⟨-, hl⟩
    · exact (mem_ofCategory.mp (mem_of_richest hl)).2
    · exact h.consistent.legacy_category hl
  · rw [hmodern]
    exact h.consistent.modern_category
  · intro c hc
    rw [hmodern]
    rcases (contains_legacy_enterCandidates m c).mp hc with hc | hc
    · obtain ⟨l, hl, rfl⟩ := List.mem_map.mp hc
      exact h.free l hl
    · exact h.consistent.disjoint hc
  · rw [hmodern]
    exact h.consistent.session_file

/-- A whole merge keeps the maps in agreement, on the file of the session that is in
use after it. -/
theorem consistent_run {m : Merging} {file : TraceFile} (h : m.registry.Consistent file)
    (session : Option Session) :
    (m.run session).registry.Consistent (session.elim file (·.file)) := by
  have hcleared := (cleared_dropLeftOver h session).shed (sheds_dropScreenshots _)
  exact consistent_enterCandidates hcleared

end Merging

namespace Registry

/-- A registry without traces is consistent, with any file, since no trace is there to come
from another. -/
theorem consistent_withPolicy (policy : MergePolicy) (file : TraceFile) :
    (withPolicy policy).Consistent file := by
  constructor <;> simp [withPolicy]

/-- A merge keeps a registry consistent, with the file of a new session. Nothing is asked of the
candidates. -/
theorem Consistent.merge {r : Registry} {file : TraceFile} (h : r.Consistent file)
    (candidates : List LoadedTrace) (session : Option Session) :
    (r.merge candidates session).1.Consistent (session.elim file (·.file)) := by
  rw [merge_fst]
  exact Merging.consistent_run (m := { registry := r, candidates }) h session

/-- A call keeps a registry consistent, maybe with the file of another session. This is the step for
histories. -/
theorem Consistent.answer {r : Registry} {file : TraceFile} (h : r.Consistent file)
    (call : Call) : ∃ file', (r.answer call).Consistent file' := by
  cases call with
  | merge candidates session => exact ⟨_, h.merge candidates session⟩
  | remove c => exact ⟨file, h.remove c⟩
  | clear =>
    have hempty : (withPolicy r.policy).Consistent file := consistent_withPolicy _ _
    exact ⟨file, hempty⟩

/-- After every history a registry is consistent. What is proved of consistent registries holds of
all that can occur. -/
theorem run_consistent (policy : MergePolicy) (calls : List Call) :
    ∃ file, ((withPolicy policy).run calls).Consistent file := by
  refine run_induction (P := fun r => ∃ file, r.Consistent file) ?_ ?_
  · exact ⟨{ name := "" }, consistent_withPolicy policy _⟩
  · rintro call - r ⟨file, h⟩
    exact h.answer call

/-- What every call of a history keeps in consistent registries holds after the history. Later
inductions use this one and need not carry the consistency along. -/
theorem run_induction_of_consistent {P : Registry → Prop} {policy : MergePolicy}
    {calls : List Call} (hstart : P (withPolicy policy))
    (hcalls : ∀ call ∈ calls, ∀ r file, Consistent r file → P r → P (r.answer call)) :
    P ((withPolicy policy).run calls) := by
  have hrun : (∃ file, ((withPolicy policy).run calls).Consistent file) ∧
      P ((withPolicy policy).run calls) := by
    refine run_induction (P := fun r => (∃ file, r.Consistent file) ∧ P r) ?_ ?_
    · exact ⟨⟨{ name := "" }, consistent_withPolicy policy _⟩, hstart⟩
    · rintro call hcall r ⟨⟨file, hconsistent⟩, hr⟩
      exact ⟨hconsistent.answer call, hcalls call hcall r file hconsistent hr⟩
  exact hrun.2

/-- **Consistency after every history.** After any sequence of merges, removals and clearings no
category is held in both maps, every trace is held for the category it records and the session has
one file. Therefore the listing is exact: categories increase and each category held is listed
once, the number of traces and every look-up agree with it, and a removal reports whether the
category was listed and leaves the other traces unchanged. -/
theorem run_consistent_and_listed (policy : MergePolicy) (calls : List Call) :
    (∃ file, ((withPolicy policy).run calls).Consistent file) ∧
      ((withPolicy policy).run calls).Listed := by
  obtain ⟨file, h⟩ := run_consistent policy calls
  exact ⟨⟨file, h⟩, h.listed⟩

end Registry

end FrameAlign
