import FrameAlign.Proofs.Loading.History

/-!
# Traces hidden by joined ones

A workspace does not show a trace next to one that joins it with others. It chooses what it shows
from its registry when a load takes something in. A removal only takes its category out of what is
shown: a trace that was hidden by a joined one stays hidden when that is removed, although it is in
use, up to the next load.
-/

namespace FrameAlign

/-- The category whose traces join those of this category with others. A trace of such a category
shows the same entries once more. -/
def Category.joined? : Category → Option Category
  | .wmTransition | .shellTransition => some .transitions
  | .eventLog => some .cujs
  | _ => none

/-- Joined traces are not joined again, so hiding needs one pass. -/
theorem Category.joined?_eq_none {c joined : Category} (h : c.joined? = some joined) :
    joined.joined? = none := by
  cases c <;> cases h <;> rfl

/-- A collection shows the last of the traces of a category that it is made from, so a category is
shown if any trace of it was put in. -/
theorem Traces.contains_ofTraces (list : List Trace) (c : Category) :
    (ofTraces list).contains c = true ↔ c ∈ list.map (·.category) := by
  have hfold (traces : Traces) : (list.foldl set traces).contains c = true ↔
      traces.contains c = true ∨ c ∈ list.map (·.category) := by
    induction list generalizing traces with
    | nil => simp
    | cons t list ih =>
      rw [List.foldl_cons, ih, set, CategoryMap.contains_insert, Bool.or_eq_true,
        decide_eq_true_eq, List.map_cons, List.mem_cons, @eq_comm _ t.category, or_assoc,
        or_left_comm]
  rw [ofTraces, hfold, CategoryMap.contains_empty]
  simp

namespace Workspace

/-- The parts of a joined trace are hidden, and nothing else. The joined trace itself has to be
there, not only its parts. -/
theorem contains_hideParts (traces : Traces) (c : Category) :
    (hideParts traces).contains c = true ↔
      traces.contains c = true ∧ ∀ joined, c.joined? = some joined →
        traces.contains joined = false := by
  unfold hideParts
  cases htransitions : traces.contains .transitions <;>
    cases hcujs : traces.contains .cujs <;>
    cases c <;>
    simp [Category.joined?, CategoryMap.contains_erase, htransitions, hcujs]

section Shown

variable {settings : Settings} {w : Workspace} {c : Category} {call : Call}

/-- Without derived traces, a registry shows what it holds but for the parts of joined traces.
Derived traces could bring a joined one that the registry does not hold. -/
theorem contains_shown (hplain : ∀ traces, settings.derive traces = []) {r : Registry}
    {file : TraceFile} (h : r.Consistent file) (c : Category) :
    (settings.shown r).contains c = true ↔
      r.contains c = true ∧ ∀ joined, c.joined? = some joined → r.contains joined = false := by
  have hloaded (d : Category) : (Traces.ofTraces r.traces).contains d = r.contains d := by
    rw [Bool.eq_iff_iff, Traces.contains_ofTraces, h.listed.traces_category, h.mem_map_category]
  simp only [Settings.shown, hplain, List.foldl_nil, contains_hideParts, hloaded]

/-- Whether a call makes a workspace show what its registry holds. A removal does not, and neither
does a load that can take nothing in. -/
def Call.refreshes (settings : Settings) : Call → Bool
  | .load containers _ => settings.unpacks containers
  | .remove _ => false
  | .clear => true

/-- After a refreshing call exactly the parts of joined traces are hidden, as the choice is made
anew from the registry. -/
theorem contains_traces_of_refreshes (hplain : ∀ traces, settings.derive traces = [])
    {file : TraceFile} (hconsistent : (w.answer settings call).registry.Consistent file)
    (hcall : call.refreshes settings = true) (c : Category) :
    (w.answer settings call).traces.contains c = true ↔
      (w.answer settings call).registry.contains c = true ∧ ∀ joined, c.joined? = some joined →
        (w.answer settings call).registry.contains joined = false := by
  cases call with
  | load containers now =>
    have hunpacks : settings.unpacks containers = true := hcall
    rw [← contains_shown hplain hconsistent, answer, traces_load, if_pos hunpacks]
  | remove d => cases hcall
  | clear =>
    have hnothing (d : Category) : (w.answer settings .clear).registry.contains d = false := by
      simp [answer, clear, Registry.clear, Registry.contains, Registry.get?]
    have hshown : (w.answer settings .clear).traces.contains c = false :=
      CategoryMap.contains_empty c
    simp [hnothing, hshown]

/-- A removal takes its category out of what is in use and of what is shown, and out of each by
itself: neither is computed from the other. -/
theorem contains_remove (settings : Settings) (w : Workspace) (c d : Category) :
    (w.remove settings c).registry.contains d = (decide (c ≠ d) && w.registry.contains d) ∧
      (w.remove settings c).traces.contains d = (decide (c ≠ d) && w.traces.contains d) := by
  obtain ⟨hregistry, htraces, -⟩ := remove_spec settings w c
  rw [hregistry, htraces]
  exact ⟨w.registry.contains_remove c d, CategoryMap.contains_erase _ c d⟩

/-- Any other call takes out of what is in use and of what is shown what it removes. It brings
nothing back that was hidden. -/
theorem contains_of_not_refreshes (hcall : call.refreshes settings = false) (c : Category) :
    ((w.answer settings call).registry.contains c = true ↔
        w.registry.contains c = true ∧ call ≠ .remove c) ∧
      ((w.answer settings call).traces.contains c = true ↔
        w.traces.contains c = true ∧ call ≠ .remove c) := by
  cases call with
  | load containers now =>
    have hunpacks : settings.unpacks containers = false := hcall
    rw [answer, (load_of_unpacks_eq_false w now hunpacks).1]
    simp
  | remove d =>
    obtain ⟨hregistry, htraces⟩ := contains_remove settings w d c
    rw [answer, hregistry, htraces]
    simp [and_comm]
  | clear => cases hcall

/-- A category was removed while it was shown, and no call has refreshed the workspace since. Its
parts stay hidden for that long. -/
def Withdrawn (settings : Settings) (w : Workspace) (calls : List Call) (c : Category) : Prop :=
  ∃ before after, calls = before ++ .remove c :: after ∧
    (w.run settings before).traces.contains c = true ∧
    ∀ call ∈ after, call.refreshes settings = false

/-- A refreshing call lets nothing be withdrawn, since it would have to be among the calls after
the removal. -/
theorem not_withdrawn_of_refreshes {calls : List Call} (hcall : call.refreshes settings = true) :
    ¬Withdrawn settings w (calls ++ [call]) c := by
  rintro ⟨before, after, hcalls, -, hquiet⟩
  cases after using List.reverseRecOn with
  | nil =>
    obtain ⟨-, hlast⟩ := List.append_inj' hcalls rfl
    cases hlast
    cases hcall
  | append_singleton after last _ =>
    rw [← List.cons_append, ← List.append_assoc] at hcalls
    obtain ⟨-, hlast⟩ := List.append_inj' hcalls rfl
    cases hlast
    rw [hquiet call (by simp)] at hcall
    cases hcall

/-- Any other call withdraws what it removes if that was shown, and leaves withdrawn what was. -/
theorem withdrawn_concat_iff {calls : List Call} (hcall : call.refreshes settings = false) :
    Withdrawn settings w (calls ++ [call]) c ↔ Withdrawn settings w calls c ∨
      (call = .remove c ∧ (w.run settings calls).traces.contains c = true) := by
  constructor
  · rintro ⟨before, after, hcalls, hshown, hquiet⟩
    cases after using List.reverseRecOn with
    | nil =>
      obtain ⟨rfl, hlast⟩ := List.append_inj' hcalls rfl
      cases hlast
      exact Or.inr ⟨rfl, hshown⟩
    | append_singleton after last _ =>
      rw [← List.cons_append, ← List.append_assoc] at hcalls
      obtain ⟨rfl, -⟩ := List.append_inj' hcalls rfl
      exact Or.inl ⟨before, after, rfl, hshown, fun call hmem => hquiet call (by simp [hmem])⟩
  · rintro (⟨before, after, rfl, hshown, hquiet⟩ | ⟨rfl, hshown⟩)
    · refine ⟨before, after ++ [call], by simp, hshown, ?_⟩
      intro later hlater
      rcases List.mem_append.mp hlater with hlater | hlater
      · exact hquiet later hlater
      · rw [List.mem_singleton.mp hlater]
        exact hcall
    · exact ⟨calls, [], rfl, hshown, by simp⟩

end Shown

/-- After a history that ends with a refreshing call exactly the parts of joined traces in use are
hidden. This starts the induction between two refreshing calls. -/
theorem run_concat_contains_traces (settings : Settings)
    (hplain : ∀ traces, settings.derive traces = []) (policy : MergePolicy) (calls : List Call)
    {call : Call} (hcall : call.refreshes settings = true) (c : Category) :
    ((withPolicy policy).run settings (calls ++ [call])).traces.contains c = true ↔
      ((withPolicy policy).run settings (calls ++ [call])).registry.contains c = true ∧
        ∀ joined, c.joined? = some joined → ((withPolicy policy).run settings
          (calls ++ [call])).registry.contains joined = false := by
  obtain ⟨file, hconsistent⟩ := consistent_run settings policy (calls ++ [call])
  rw [run_concat] at hconsistent ⊢
  exact contains_traces_of_refreshes hplain hconsistent hcall c

/-- **What is shown.** Without derived traces, after any sequence of loads, removals and clearings a
workspace shows the categories in use but for those that a joined trace hides: one that is shown,
or one that was removed while it was shown if no load has taken anything in since. -/
theorem run_contains_traces_iff (settings : Settings)
    (hplain : ∀ traces, settings.derive traces = []) (policy : MergePolicy) (calls : List Call)
    (c : Category) :
    ((withPolicy policy).run settings calls).traces.contains c = true ↔
      ((withPolicy policy).run settings calls).registry.contains c = true ∧
        ∀ joined, c.joined? = some joined →
          ((withPolicy policy).run settings calls).traces.contains joined = false ∧
            ¬Withdrawn settings (withPolicy policy) calls joined := by
  induction calls using List.reverseRecOn generalizing c with
  | nil =>
    have hheld : (withPolicy policy).registry.contains c = false := by
      simp [withPolicy, Registry.withPolicy, Registry.contains, Registry.get?]
    have hshown : (withPolicy policy).traces.contains c = false := CategoryMap.contains_empty c
    simp [run, hheld, hshown]
  | append_singleton calls call ih =>
    cases hcall : call.refreshes settings with
    | true =>
      have hshown := run_concat_contains_traces settings hplain policy calls hcall
      rw [hshown]
      refine and_congr_right fun _ => forall₂_congr fun joined hjoined => ?_
      -- A joined trace is no part of another, so it is shown as soon as it is in use.
      have hjoined_shown := hshown joined
      simp only [Category.joined?_eq_none hjoined, reduceCtorEq, false_imp_iff, implies_true,
        and_true] at hjoined_shown
      rw [← Bool.not_eq_true, ← Bool.not_eq_true, hjoined_shown]
      exact (and_iff_left (not_withdrawn_of_refreshes hcall)).symm
    | false =>
      obtain ⟨hregistry, htraces⟩ :=
        contains_of_not_refreshes (w := (withPolicy policy).run settings calls) hcall c
      rw [run_concat, hregistry, htraces, ih, and_right_comm]
      refine and_congr_right fun _ => forall₂_congr fun joined hjoined => ?_
      obtain ⟨-, hjoined_shown⟩ :=
        contains_of_not_refreshes (w := (withPolicy policy).run settings calls) hcall joined
      rw [← Bool.not_eq_true, ← Bool.not_eq_true, hjoined_shown, withdrawn_concat_iff hcall]
      tauto

/-- A file that holds two entries of a category. -/
def twoEntries (c : Category) : TraceFile where
  name := c.id ++ ".json"
  data := ("\x7b\"category\": \"" ++ c.id ++ "\", \"timestamps_ns\": [1, 2]\x7d").toUTF8

/-- Loads window manager transitions together with joined ones, which hide them. -/
def loadJoined : Call := .load [twoEntries .transitions, twoEntries .wmTransition] 0

/-- Both files are taken in, so both categories are in use. -/
theorem contains_loadJoined :
    loadJoined.refreshes {} = true ∧
      ((withPolicy {}).run {} [loadJoined]).registry.contains .transitions = true ∧
      ((withPolicy {}).run {} [loadJoined]).registry.contains .wmTransition = true := by
  decide +kernel

/-- Window manager transitions stay hidden when the joined transitions are removed. -/
theorem contains_traces_wmTransition_withdrawn :
    let calls := [loadJoined, .remove .transitions]
    let w := (withPolicy {}).run {} calls
    w.registry.contains .wmTransition = true ∧ w.traces.contains .wmTransition = false ∧
      Withdrawn {} (withPolicy {}) calls .transitions := by
  intro calls w
  obtain ⟨hload, hjoined, hpart⟩ := contains_loadJoined
  have hheld : w.registry.contains .wmTransition = true :=
    (contains_remove {} _ .transitions .wmTransition).1.trans hpart
  have hshown : ((withPolicy {}).run {} [loadJoined]).traces.contains .transitions = true :=
    (run_concat_contains_traces {} (fun _ => rfl) {} [] hload .transitions).mpr
      ⟨hjoined, fun _ h => by cases h⟩
  have hwithdrawn : Withdrawn {} (withPolicy {}) calls .transitions :=
    ⟨[loadJoined], [], rfl, hshown, by simp⟩
  refine ⟨hheld, ?_, hwithdrawn⟩
  rw [← Bool.not_eq_true, run_contains_traces_iff {} (fun _ => rfl)]
  intro h
  exact (h.2 .transitions rfl).2 hwithdrawn

/-- So a trace in use can be hidden although none that joins it is shown. -/
theorem not_forall_joined_shown :
    ¬∀ (settings : Settings) (policy : MergePolicy) (calls : List Call) (c : Category),
      (∀ traces, settings.derive traces = []) →
      ((withPolicy policy).run settings calls).registry.contains c = true →
      ((withPolicy policy).run settings calls).traces.contains c = false →
      ∃ joined, c.joined? = some joined ∧
        ((withPolicy policy).run settings calls).traces.contains joined = true := by
  intro h
  obtain ⟨hload, hjoined, hpart⟩ := contains_loadJoined
  let loaded := (withPolicy {}).run {} [loadJoined]
  have hkept : loaded.traces.contains .wmTransition = false := by
    rw [← Bool.not_eq_true]
    intro hshown
    have hchosen := run_concat_contains_traces {} (fun _ => rfl) {} [] hload .wmTransition
    have hfree := (hchosen.mp hshown).2 .transitions rfl
    exact Bool.noConfusion (hjoined.symm.trans hfree)
  -- The removal takes the joined transitions out and leaves everything else as it is.
  have hremoved (d : Category) := contains_remove {} loaded .transitions d
  obtain ⟨joined, hname, hshown⟩ := h {} {} [loadJoined, .remove .transitions] .wmTransition
    (fun _ => rfl) ((hremoved .wmTransition).1.trans hpart) ((hremoved .wmTransition).2.trans hkept)
  cases hname
  have hgone : (loaded.remove {} .transitions).traces.contains .transitions = false :=
    (hremoved .transitions).2
  exact Bool.noConfusion (hshown.symm.trans hgone)

end Workspace

end FrameAlign
