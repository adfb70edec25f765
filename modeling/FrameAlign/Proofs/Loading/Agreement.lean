import FrameAlign.Proofs.Loading.Hiding

/-!
# What is shown and what is in use

A workspace keeps what it shows apart from its registry. A load that takes something in chooses
anew, any other load leaves both as they are, and a removal takes its category out of both. So the
two stay in agreement: nothing is shown next to a trace that joins it and, without derived traces,
what is shown is in use and only parts of joined traces can be missing.
-/

namespace FrameAlign

namespace Traces

/-- A collection holds for a category only traces of it that were put in. Which of them is not said;
of the traces of a consistent registry there is one for each category. -/
theorem mem_of_get?_ofTraces {list : List Trace} {c : Category} {t : Trace}
    (h : (ofTraces list).get? c = some t) : t ∈ list ∧ t.category = c := by
  induction list using List.reverseRecOn with
  | nil => simp [ofTraces] at h
  | append_singleton list u ih =>
    rw [ofTraces, List.foldl_append, List.foldl_cons, List.foldl_nil, ← ofTraces, set,
      CategoryMap.get?_insert] at h
    split at h
    · next hcategory =>
      cases h
      exact ⟨by simp, hcategory⟩
    · obtain ⟨hmem, hcategory⟩ := ih h
      exact ⟨List.mem_append_left _ hmem, hcategory⟩

/-- No trace of the collection is next to one that joins it with others. The parts of a joined trace
would count its entries twice. -/
def Parted (traces : Traces) : Prop :=
  ∀ c joined, c.joined? = some joined → traces.contains joined = true → traces.contains c = false

/-- A collection with fewer traces is parted as well, so a removal does no harm. -/
theorem Parted.of_contains_le {traces traces' : Traces} (h : traces.Parted)
    (hle : ∀ c, traces'.contains c = true → traces.contains c = true) : traces'.Parted := by
  intro c joined hjoined hshown
  have hhidden := h c joined hjoined (hle joined hshown)
  rw [← Bool.not_eq_true] at hhidden ⊢
  exact mt (hle c) hhidden

/-- Hiding the parts of joined traces parts a collection. Joined traces are not joined again, so
hiding one part takes away no joined trace. -/
theorem parted_hideParts (traces : Traces) : (Workspace.hideParts traces).Parted := by
  intro c joined hjoined hshown
  rw [← Bool.not_eq_true, Workspace.contains_hideParts]
  intro hpart
  have hjoined_shown := ((Workspace.contains_hideParts traces joined).mp hshown).1
  rw [hpart.2 joined hjoined] at hjoined_shown
  cases hjoined_shown

end Traces

namespace Workspace

section Calls

variable {settings : Settings} {w : Workspace}

/-- Every call keeps the traces that are shown apart from those that join them. Nothing is asked of
derived traces here. -/
theorem parted_answer (h : w.traces.Parted) (call : Call) :
    (w.answer settings call).traces.Parted := by
  cases hcall : call.refreshes settings with
  | false =>
    refine h.of_contains_le fun c hshown => ?_
    exact ((contains_of_not_refreshes hcall c).2.mp hshown).1
  | true =>
    cases call with
    | load containers now =>
      have hunpacks : settings.unpacks containers = true := hcall
      rw [answer, traces_load, if_pos hunpacks]
      exact Traces.parted_hideParts _
    | remove c => cases hcall
    | clear =>
      intro c joined _ hshown
      rw [answer, clear, CategoryMap.contains_empty] at hshown
      cases hshown

/-! ## Without derived traces -/

/-- What is shown is in use, and of the traces in use only parts of joined ones may be missing. The
invariant of a workspace without derived traces. -/
structure Mirrors (traces : Traces) (r : Registry) : Prop where
  /-- A trace that is shown is the very trace in use. -/
  held : ∀ {c t}, traces.get? c = some t → ∃ l, r.get? c = some l ∧ l.trace = t
  /-- Of the categories whose traces are never joined exactly those in use are shown. -/
  contains_eq : ∀ {c : Category}, c.joined? = none → traces.contains c = r.contains c

/-- Nothing is hidden but what was there, and what is left is as it was. -/
theorem get?_of_get?_hideParts {traces : Traces} {c : Category} {t : Trace}
    (h : (hideParts traces).get? c = some t) : traces.get? c = some t := by
  simp only [hideParts] at h
  split at h <;> split at h
  · exact CategoryMap.get?_of_get?_erase (CategoryMap.get?_of_get?_erase
      (CategoryMap.get?_of_get?_erase h))
  · exact CategoryMap.get?_of_get?_erase (CategoryMap.get?_of_get?_erase h)
  · exact CategoryMap.get?_of_get?_erase h
  · exact h

/-- What a registry shows mirrors it. A consistent registry has one trace for each category, so none
of them is lost on the way into a collection. -/
theorem mirrors_shown (hplain : ∀ traces, settings.derive traces = []) {r : Registry}
    {file : TraceFile} (h : r.Consistent file) : Mirrors (settings.shown r) r where
  held := by
    intro c t ht
    simp only [Settings.shown, hplain, List.foldl_nil] at ht
    obtain ⟨hmem, hcategory⟩ := Traces.mem_of_get?_ofTraces (get?_of_get?_hideParts ht)
    obtain ⟨l, hl, rfl⟩ := List.mem_map.mp hmem
    exact ⟨l, h.get?_eq_some_iff.mpr ⟨hl, hcategory⟩, rfl⟩
  contains_eq := by
    intro c hc
    rw [Bool.eq_iff_iff, contains_shown hplain h, hc]
    simp

/-- A removal takes its category out of what is shown and of what is in use. What was hidden next to
it stays hidden, which is why parts may be missing. -/
theorem Mirrors.remove (h : Mirrors w.traces w.registry) (c : Category) :
    Mirrors (w.remove settings c).traces (w.remove settings c).registry where
  held := by
    intro d t ht
    obtain ⟨hregistry, htraces, -⟩ := remove_spec settings w c
    rw [htraces] at ht
    obtain ⟨l, hl, hlt⟩ := h.held (CategoryMap.get?_of_get?_erase ht)
    have hne : c ≠ d := by
      rintro rfl
      rw [CategoryMap.get?_erase, if_pos rfl] at ht
      cases ht
    refine ⟨l, ?_, hlt⟩
    rwa [hregistry, Registry.remove, Registry.get?, CategoryMap.get?_erase,
      CategoryMap.get?_erase, if_neg hne, if_neg hne]
  contains_eq := by
    intro d hd
    obtain ⟨hregistry, htraces⟩ := contains_remove settings w c d
    rw [hregistry, htraces, h.contains_eq hd]

/-- Nothing shown mirrors nothing in use, as after a clearing. -/
theorem mirrors_empty (r : Registry) : Mirrors CategoryMap.empty r.clear where
  held := by
    intro c t ht
    simp at ht
  contains_eq := by
    intro c _
    simp [Registry.clear, Registry.contains, Registry.get?]

/-- Every call that leaves a consistent registry keeps what is shown in agreement with it. The three
calls are taken one by one. -/
theorem Mirrors.answer (h : Mirrors w.traces w.registry)
    (hplain : ∀ traces, settings.derive traces = []) {call : Call} {file : TraceFile}
    (hconsistent : (w.answer settings call).registry.Consistent file) :
    Mirrors (w.answer settings call).traces (w.answer settings call).registry := by
  cases call with
  | load containers now =>
    cases hunpacks : settings.unpacks containers with
    | true =>
      rw [Workspace.answer, traces_load, if_pos hunpacks]
      exact mirrors_shown hplain hconsistent
    | false =>
      rw [Workspace.answer, (load_of_unpacks_eq_false w now hunpacks).1]
      exact h
  | remove c => exact h.remove c
  | clear => exact mirrors_empty w.registry

end Calls

/-- After every history without derived traces what is shown is in agreement with the registry,
which is consistent after every history. -/
theorem mirrors_run (settings : Settings) (hplain : ∀ traces, settings.derive traces = [])
    (policy : MergePolicy) (calls : List Call) :
    Mirrors ((withPolicy policy).run settings calls).traces
      ((withPolicy policy).run settings calls).registry := by
  induction calls using List.reverseRecOn with
  | nil => exact mirrors_empty (Registry.withPolicy policy)
  | append_singleton calls call ih =>
    obtain ⟨file, hconsistent⟩ := consistent_run settings policy (calls ++ [call])
    rw [run_concat] at hconsistent ⊢
    exact ih.answer hplain hconsistent

/-- **What is shown agrees with what is in use.** After any sequence of loads, removals and
clearings, with any importer, derivation and policy, nothing is shown next to a trace that joins it
with others. Without derived traces every trace that is shown is the very trace that is in use for
its category, and apart from categories whose traces can be joined with others exactly those in use
are shown. -/
theorem run_traces_agree (settings : Settings) (policy : MergePolicy) (calls : List Call) :
    let w := (withPolicy policy).run settings calls
    (∀ c joined, c.joined? = some joined → w.traces.contains joined = true →
        w.traces.contains c = false) ∧
      ((∀ traces, settings.derive traces = []) →
        (∀ c t, w.traces.get? c = some t → ∃ l, w.registry.get? c = some l ∧ l.trace = t) ∧
          ∀ c : Category, c.joined? = none → w.traces.contains c = w.registry.contains c) := by
  intro w
  have hparted : w.traces.Parted := by
    refine run_induction (P := fun w => w.traces.Parted) ?_ (fun call _ h => parted_answer h call)
      calls
    intro c joined _ hshown
    simp [withPolicy] at hshown
  refine ⟨hparted, fun hplain => ?_⟩
  have hmirrors := mirrors_run settings hplain policy calls
  exact ⟨fun c t ht => hmirrors.held ht, fun c hc => hmirrors.contains_eq hc⟩

/-- Joined transitions are shown as they are in use, and the window manager transitions next to them
are in use and hidden. -/
theorem traces_agree_joined :
    let w := (withPolicy {}).run {} [loadJoined]
    (∃ t l, w.traces.get? .transitions = some t ∧ w.registry.get? .transitions = some l ∧
        l.trace = t) ∧
      w.registry.contains .wmTransition = true ∧ w.traces.contains .wmTransition = false := by
  intro w
  obtain ⟨-, hjoined, hpart⟩ := contains_loadJoined
  obtain ⟨hparted, hplain⟩ := run_traces_agree {} {} [loadJoined]
  obtain ⟨hheld, hcontains⟩ := hplain fun _ => rfl
  have hshown : w.traces.contains .transitions = true :=
    (hcontains .transitions rfl).trans hjoined
  obtain ⟨t, ht⟩ := CategoryMap.contains_iff.mp hshown
  obtain ⟨l, hl, hlt⟩ := hheld .transitions t ht
  exact ⟨⟨t, l, ht, hl, hlt⟩, hpart, hparted .wmTransition .transitions rfl hshown⟩

end Workspace

end FrameAlign
