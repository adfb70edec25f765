import FrameAlign.Category
import FrameAlign.Frames.Link

/-!
# Relations between categories

The graph along which frames flow. Each relation needs its source to have frames, from the trace
that the numbering starts from or from a relation before it.
-/

namespace FrameAlign

/-- Entries of two related traces that lie farther apart than this are not the same event. -/
def defaultGap : Nanos := Nanos.ofMillis 2000

/-- Frames flow from the source to the target category. -/
structure Relation where
  target : Category
  source : Category
  link : Link
  maxGap : Nanos := defaultGap
deriving DecidableEq

namespace Relation

/-- The relations in use without a policy, in the order in which frames flow. -/
def defaults : List Relation :=
  [{ target := .surfaceFlinger, source := .screenRecording, link := .latestBefore },
    { target := .transactions, source := .surfaceFlinger, link := .matchingVsync },
    { target := .windowManager, source := .transactions, link := .followingInterval },
    { target := .protoLog, source := .windowManager, link := .precedingInterval },
    { target := .inputMethodClients, source := .windowManager, link := .nearest },
    { target := .inputMethodManagerService, source := .windowManager, link := .nearest },
    { target := .inputMethodService, source := .windowManager, link := .nearest }]

/-- The categories that frames can be numbered from, the most preferred first. -/
def roots : List Category := [.screenRecording, .surfaceFlinger, .transactions, .windowManager]

end Relation

end FrameAlign
