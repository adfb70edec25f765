import FrameAlign.Diagnostic
import FrameAlign.Registry.Basic
import FrameAlign.Trace.Rank

/-!
# Merging a load into the registry

A load brings candidates from single files and possibly a session. A merge passes them through
steps in a fixed order: the session takes the place of the one before, candidates of its
categories give way to it, outdated and left-over traces are dropped, screenshots give way to a
screen recording, and the candidates that remain enter the registry. Every trace that a step drops
is recorded with the reason, once and in the order of the drops.
-/

namespace FrameAlign

/-- Why a merge dropped a trace. -/
inductive DropReason where
  /-- Another trace of its category was preferred. -/
  | replaced
  /-- A trace of another category makes it redundant. -/
  | redundant (dominant : Category)
  /-- It has elapsed timestamps alone while others have real ones. -/
  | outdated
  /-- It ended long before another trace started. -/
  | leftOver (gap : TimeRange)
deriving DecidableEq

/-- A trace that a merge dropped. -/
structure Drop where
  loaded : LoadedTrace
  reason : DropReason

/-- The report of a drop. -/
def Drop.diagnostic (d : Drop) : Diagnostic :=
  match d.reason with
  | .replaced => .overridden d.loaded.trace.source none
  | .redundant dominant => .overridden d.loaded.trace.source (some dominant)
  | .outdated => .oldData d.loaded.file.descriptor none
  | .leftOver gap => .oldData d.loaded.file.descriptor (some gap)

/-- A merge under way. -/
structure Merging where
  registry : Registry
  /-- Candidates of single files that no step has dropped. -/
  candidates : List LoadedTrace
  /-- What the steps have dropped so far. -/
  drops : List Drop := []

namespace Merging

/-- Puts a trace into the place of its category and drops the one that held it, if any. -/
def supersede (held : CategoryMap LoadedTrace) (l : LoadedTrace) :
    CategoryMap LoadedTrace × List Drop :=
  (held.insert l.category l, (held.get? l.category).toList.map (⟨·, .replaced⟩))

/-- Puts a trace into the place of its category unless that is held by one at least as rich. -/
def contend (held : CategoryMap LoadedTrace) (l : LoadedTrace) :
    CategoryMap LoadedTrace × List Drop :=
  match held.get? l.category with
  | none => supersede held l
  | some current =>
    if current.trace.rank < l.trace.rank then supersede held l else (held, [⟨l, .replaced⟩])

/-- Takes one trace of a new session in, in place of a single file of its category. -/
def enterSession (m : Merging) (l : LoadedTrace) : Merging :=
  let (modern, losers) := contend m.registry.modern l
  let evicted := (m.registry.legacy.get? l.category).toList.map fun e => (⟨e, .replaced⟩ : Drop)
  { m with
    registry := { m.registry with legacy := m.registry.legacy.erase l.category, modern }
    drops := m.drops ++ evicted ++ losers }

/-- A new session takes the place of the one before, which leaves without a report. -/
def replaceSession (session : Option Session) (m : Merging) : Merging :=
  match session with
  | none => m
  | some s =>
    s.loaded.foldl enterSession
      { m with registry := { m.registry with modern := CategoryMap.empty } }

/-- Keeps the candidates without a reason against them and drops the others. -/
def sift (reason? : LoadedTrace → Option DropReason) (m : Merging) : Merging :=
  { m with
    candidates := m.candidates.filter fun l => (reason? l).isNone
    drops := m.drops ++ m.candidates.filterMap fun l => (reason? l).map (⟨l, ·⟩) }

/-- Keeps the single files in use without a reason against them and drops the others. -/
def siftLegacy (reason? : LoadedTrace → Option DropReason) (m : Merging) : Merging :=
  let stale := m.registry.legacy.toList.filterMap fun (c, l) => (reason? l).map fun r => (c, l, r)
  { m with
    registry := { m.registry with
      legacy := stale.foldl (fun held s => held.erase s.1) m.registry.legacy }
    drops := m.drops ++ stale.map fun s => ⟨s.2.1, s.2.2⟩ }

/-- Keeps the single files without a reason against them, candidates and those in use alike. -/
def sweep (reason? : LoadedTrace → Option DropReason) (m : Merging) : Merging :=
  (m.sift reason?).siftLegacy reason?

/-- Every trace that can be evidence: candidates, single files in use and the session. -/
def pool (m : Merging) : List Trace :=
  (m.candidates ++ m.registry.legacy.values ++ m.registry.modern.values).map (·.trace)

/-- Candidates of a category that the session provides give way to it. -/
def dropHidden (m : Merging) : Merging :=
  m.sift fun l => if m.registry.modern.contains l.category then some .replaced else none

/-- Single files with elapsed timestamps alone give way to any trace with real ones. -/
def dropOutdated (m : Merging) : Merging :=
  m.sweep fun l => if l.trace.isOutdated m.pool then some .outdated else none

/-- Single files that ended long before another trace started are dropped. -/
def dropLeftOver (m : Merging) : Merging :=
  m.sweep fun l => (l.trace.oldDataGap? m.registry.policy m.pool).map .leftOver

/-- Whether a screen recording is in use or among the candidates. -/
def isRecorded (m : Merging) : Bool :=
  m.registry.legacy.contains .screenRecording || m.registry.modern.contains .screenRecording ||
    m.candidates.any fun l => l.category = .screenRecording

/-- Screenshots give way to a screen recording, wherever either comes from. -/
def dropScreenshots (m : Merging) : Merging :=
  if m.isRecorded then
    let reason : DropReason := .redundant .screenRecording
    let sifted := m.sift fun l => if l.category = .screenshot then some reason else none
    let held := (m.registry.legacy.get? .screenshot).toList ++
      (m.registry.modern.get? .screenshot).toList
    { sifted with
      registry := m.registry.remove .screenshot
      drops := sifted.drops ++ held.map (⟨·, reason⟩) }
  else m

/--
Takes a candidate into the registry. A single file of an earlier load gives way to it; one of the
same load, whose category is among those entered, competes with it.
-/
def enterLegacy (state : Merging × List Category) (l : LoadedTrace) : Merging × List Category :=
  let (m, entered) := state
  let held := m.registry.legacy
  let (legacy, losers) := if l.category ∈ entered then contend held l else supersede held l
  ({ m with registry := { m.registry with legacy }, drops := m.drops ++ losers },
    l.category :: entered)

/-- Takes the candidates that remain into the registry. -/
def enterCandidates (m : Merging) : Merging :=
  { (m.candidates.foldl enterLegacy (m, [])).1 with candidates := [] }

/-- All steps of a merge. -/
def run (session : Option Session) (m : Merging) : Merging :=
  (m.replaceSession session).dropHidden.dropOutdated.dropLeftOver.dropScreenshots.enterCandidates

end Merging

namespace Registry

/-- The registry after a load, and the traces that the load dropped. -/
def merge (r : Registry) (candidates : List LoadedTrace) (session : Option Session) :
    Registry × List Drop :=
  let m := Merging.run session { registry := r, candidates }
  (m.registry, m.drops)

/-- The registry after a load. -/
theorem merge_fst (r : Registry) (candidates : List LoadedTrace) (session : Option Session) :
    (r.merge candidates session).1 =
      (Merging.run session { registry := r, candidates }).registry := by
  simp only [merge]

/-- The traces that a load dropped. -/
theorem merge_snd (r : Registry) (candidates : List LoadedTrace) (session : Option Session) :
    (r.merge candidates session).2 =
      (Merging.run session { registry := r, candidates }).drops := by
  simp only [merge]

end Registry

end FrameAlign
