import FrameAlign.Registry.Merge

/-!
# Histories of a registry

A registry changes through three calls: a merge, the removal of a category and a clearing. A
history is any finite sequence of them with any arguments. What an empty registry satisfies and
every call keeps holds after every history.
-/

namespace FrameAlign.Registry

/-- A call that changes a registry. All others only read it. -/
inductive Call where
  /-- Some single files and maybe a session come in. -/
  | merge (candidates : List LoadedTrace) (session : Option Session)
  /-- A category is taken out. -/
  | remove (c : Category)
  /-- All traces are taken out. -/
  | clear

/-- The registry after a call. What the call answers besides is left out, as no later
call reads it. -/
def answer (r : Registry) : Call → Registry
  | .merge candidates session => (r.merge candidates session).1
  | .remove c => (r.take c).2
  | .clear => r.clear

/-- The registry after a history, one call after the other. -/
def run (r : Registry) (calls : List Call) : Registry := calls.foldl answer r

/-- Without a call nothing changes. -/
@[simp] theorem run_nil (r : Registry) : r.run [] = r := rfl

/-- A history goes on from what its first call leaves. -/
theorem run_cons (r : Registry) (call : Call) (calls : List Call) :
    r.run (call :: calls) = (r.answer call).run calls := rfl

/-- A history in two parts goes on from what its first part leaves. Histories of a workspace are put
together in this way. -/
theorem run_append (r : Registry) (calls later : List Call) :
    r.run (calls ++ later) = (r.run calls).run later := List.foldl_append

/-- What the calls of a history keep holds after the history. The hypothesis is only on the calls
that occur, so it can speak of what they bring. -/
theorem run_induction {P : Registry → Prop} {r : Registry} {calls : List Call} (hstart : P r)
    (hcalls : ∀ call ∈ calls, ∀ r, P r → P (r.answer call)) : P (r.run calls) := by
  induction calls generalizing r with
  | nil => exact hstart
  | cons call calls ih =>
    have hnext : P (r.answer call) := hcalls call (by simp) r hstart
    exact ih hnext fun later hlater => hcalls later (by simp [hlater])

end FrameAlign.Registry
