import FrameAlign.Proofs.Loading.Batches
import FrameAlign.Proofs.Registry.Consistency
import Mathlib.Data.List.Induction

/-!
# Histories of a workspace

A workspace changes through three calls: a load, the removal of a category and a clearing. Its
registry follows with merges, removals and clearings of its own, so the registry of a workspace has
a history too, and whatever holds after every history of a registry holds in every workspace.
-/

namespace FrameAlign

namespace Workspace

/-- A call that changes a workspace. All others only read it. -/
inductive Call where
  /-- Some containers are loaded at a moment, which names the download. -/
  | load (containers : List TraceFile) (now : Int)
  /-- A category is taken out. -/
  | remove (c : Category)
  /-- Everything is taken out. -/
  | clear

/-- The workspace after a call. Reports are left out here, as no later call reads them. -/
def answer (settings : Settings) (w : Workspace) : Call → Workspace
  | .load containers now => (w.load settings containers now).workspace
  | .remove c => w.remove settings c
  | .clear => w.clear

/-- The workspace after a history, one call after the other. -/
def run (settings : Settings) (w : Workspace) (calls : List Call) : Workspace :=
  calls.foldl (answer settings) w

/-- The last call of a history changes what the others leave. Properties of histories are proved
from the end. -/
theorem run_concat (settings : Settings) (w : Workspace) (calls : List Call) (call : Call) :
    w.run settings (calls ++ [call]) = (w.run settings calls).answer settings call := by
  simp only [run, List.foldl_append, List.foldl_cons, List.foldl_nil]

/-- What every call keeps holds after a history. The calls are checked one by one, and the induction
is done here once. -/
theorem run_induction {settings : Settings} {P : Workspace → Prop} {w : Workspace}
    (hstart : P w) (hcalls : ∀ call w, P w → P (w.answer settings call)) (calls : List Call) :
    P (w.run settings calls) := by
  induction calls using List.reverseRecOn with
  | nil => exact hstart
  | append_singleton calls call ih =>
    rw [run_concat]
    exact hcalls call _ ih

/-- A removal takes its category out of what is in use and of what is shown, whether it is there or
not, and keeps the epoch. -/
theorem remove_spec (settings : Settings) (w : Workspace) (c : Category) :
    (w.remove settings c).registry = w.registry.remove c ∧
      (w.remove settings c).traces = w.traces.erase c ∧
      (w.remove settings c).epoch = w.epoch := by
  by_cases htrace : w.hasTrace c = true
  · rw [remove, if_pos htrace]
    exact ⟨rfl, rfl, rfl⟩
  · rw [remove, if_neg htrace]
    rw [hasTrace, Bool.not_eq_true, Bool.or_eq_false_iff] at htrace
    exact ⟨(Registry.remove_eq_self htrace.1).symm, (CategoryMap.erase_eq_self htrace.2).symm, rfl⟩

/-! ## The registry of a workspace -/

/-- A container changes the registry through a merge or not at all. The calls are those of a
registry, so what is known of its histories applies. -/
theorem registry_loadGroup (importer : Importer) (w : Workspace) (files : List TraceFile) :
    ∃ calls, (loadGroup importer w files).1.registry = w.registry.run calls := by
  by_cases hempty : (importer.sort files).isEmpty = true
  · rw [loadGroup, if_pos hempty]
    exact ⟨[], rfl⟩
  · simp only [loadGroup, if_neg hempty]
    exact ⟨[.merge _ _], rfl⟩

/-- Containers change the registry one after the other, so their merges make one history. -/
theorem registry_loadGroups (importer : Importer) (w : Workspace)
    (groups : List (List TraceFile)) :
    ∃ calls, (loadGroups importer w groups).1.registry = w.registry.run calls := by
  induction groups generalizing w with
  | nil => exact ⟨[], rfl⟩
  | cons files groups ih =>
    obtain ⟨first, hfirst⟩ := registry_loadGroup importer w files
    obtain ⟨rest, hrest⟩ := ih (loadGroup importer w files).1
    refine ⟨first ++ rest, ?_⟩
    rw [loadGroups_cons, hrest, hfirst, Registry.run_append]

/-- A call changes the registry as calls of its own do: a load by merges, a removal by a removal, a
clearing by a clearing. -/
theorem registry_answer (settings : Settings) (w : Workspace) (call : Call) :
    ∃ calls, (w.answer settings call).registry = w.registry.run calls := by
  cases call with
  | load containers now =>
    obtain ⟨calls, hcalls⟩ := registry_loadGroups settings.importer w
      (unpackAll settings.importer containers).1
    refine ⟨calls, ?_⟩
    rw [← hcalls]
    exact (registry_epoch_eq_of_source_eq (source_load w now)).1
  | remove c => exact ⟨[.remove c], (remove_spec settings w c).1⟩
  | clear => exact ⟨[.clear], rfl⟩

/-- A history of a workspace is one of its registry. What holds of a registry after every history
holds of the registry of every workspace. -/
theorem registry_run (settings : Settings) (policy : MergePolicy) (calls : List Call) :
    ∃ registryCalls, ((withPolicy policy).run settings calls).registry =
      (Registry.withPolicy policy).run registryCalls := by
  refine run_induction (P := fun w => ∃ registryCalls,
    w.registry = (Registry.withPolicy policy).run registryCalls) ⟨[], rfl⟩ ?_ calls
  rintro call w ⟨before, hbefore⟩
  obtain ⟨last, hlast⟩ := registry_answer settings w call
  exact ⟨before ++ last, by rw [hlast, hbefore, Registry.run_append]⟩

/-- After every history the registry of a workspace is consistent. This is the first use of
`registry_run`. -/
theorem consistent_run (settings : Settings) (policy : MergePolicy) (calls : List Call) :
    ∃ file, ((withPolicy policy).run settings calls).registry.Consistent file := by
  obtain ⟨registryCalls, hregistry⟩ := registry_run settings policy calls
  rw [hregistry]
  exact Registry.run_consistent policy registryCalls

end Workspace

end FrameAlign
