import FrameAlign.Proofs.Frames.Numbering
import FrameAlign.Proofs.Loading.History

/-!
# What a workspace shows

A workspace keeps the traces that it shows and the frames of their entries next to its registry, and
does not compute them anew for each look. Each call brings them up to date at a place of its own: a
load that takes something in and a removal correlate the traces that are left, a load that takes
nothing in leaves both as they are, and a clearing goes back to the empty ones.
-/

namespace FrameAlign

namespace Workspace

/-- The frames are those of the traces that the workspace shows. The invariant that every
call keeps. -/
def Framed (settings : Settings) (w : Workspace) : Prop :=
  w.frames = w.traces.correlate settings.relations

section Framed

variable {settings : Settings} {w : Workspace}

/-- No traces have no frames, so a workspace starts and is cleared in this state. -/
theorem framed_of_empty (htraces : w.traces = CategoryMap.empty) (hframes : w.frames = {}) :
    w.Framed settings := by
  have hroot : Traces.root? CategoryMap.empty = none := by decide
  rw [Framed, htraces, hframes, Traces.correlate_of_root?_eq_none hroot]

/-- A load correlates the traces that it shows, or leaves everything that is shown as it is. In the
second case the old frames are still right. -/
theorem Framed.load (h : w.Framed settings) (containers : List TraceFile) (now : Int) :
    (w.load settings containers now).workspace.Framed settings := by
  rw [Framed, frames_load]
  cases hunpacks : settings.unpacks containers with
  | true => rw [if_pos rfl]
  | false =>
    rw [if_neg Bool.false_ne_true, traces_load, hunpacks, if_neg Bool.false_ne_true]
    exact h

/-- A removal correlates the traces that are left, also if its category was not shown. It does not
go back to the registry for them. -/
theorem Framed.remove (h : w.Framed settings) (c : Category) :
    (w.remove settings c).Framed settings := by
  by_cases htrace : w.hasTrace c = true
  · rw [Workspace.remove, if_pos htrace]
    rfl
  · rw [Workspace.remove, if_neg htrace]
    exact h

/-- Every call keeps the frames up to date, by one of the three cases. -/
theorem Framed.answer (h : w.Framed settings) (call : Call) :
    (w.answer settings call).Framed settings := by
  cases call with
  | load containers now => exact h.load containers now
  | remove c => exact h.remove c
  | clear => exact framed_of_empty rfl rfl

end Framed

/-- **Frames are up to date.** For every importer, derivation and relations and after any sequence
of loads, removals and clearings the frames of a workspace are those that its relations give the
traces that it shows. -/
theorem run_frames_eq (settings : Settings) (policy : MergePolicy) (calls : List Call) :
    ((withPolicy policy).run settings calls).frames =
      ((withPolicy policy).run settings calls).traces.correlate settings.relations :=
  run_induction (P := Framed settings) (framed_of_empty rfl rfl) (fun call _ h => h.answer call)
    calls

end Workspace

end FrameAlign
