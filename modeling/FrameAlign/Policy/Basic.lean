import FrameAlign.Frames.Relation
import FrameAlign.Registry.Policy

/-!
# Policies

A policy changes thresholds: how much older a trace must be to count as left over, and how far
apart the entries of related traces may lie. It is written in milliseconds. Only gaps of relations
that exist can be changed, and no gap may be negative.
-/

namespace FrameAlign

/-- Another gap for the relation between two categories. -/
structure GapOverride where
  target : Category
  source : Category
  millis : Int
deriving DecidableEq

/-- The gaps that differ from the usual ones. -/
structure Policy where
  /-- The gap between an old trace and a new one. -/
  mergeMillis : Option Int := none
  /-- The gap of every relation without its own. -/
  relationMillis : Option Int := none
  overrides : List GapOverride := []
deriving DecidableEq

/-- Why a policy cannot be followed. -/
inductive PolicyFault where
  | negativeGap (millis : Int)
  | unknownRelation (target source : Category)
deriving DecidableEq

/-- A fault in words. -/
def PolicyFault.message : PolicyFault → String
  | .negativeGap millis => "gap must not be negative, got " ++ toString millis ++ "ms"
  | .unknownRelation target source =>
    "no relation between " ++ target.title ++ " and " ++ source.title

/-- Whether a relation is the one that an override names. -/
def GapOverride.isFor (o : GapOverride) (r : Relation) : Bool :=
  o.target = r.target && o.source = r.source

/-- Whether an override names a relation that exists. -/
def GapOverride.isKnown (o : GapOverride) : Bool := Relation.defaults.any o.isFor

namespace Policy

/-- All gaps that a policy sets: for merges, for all relations, and for single ones. -/
def gaps (p : Policy) : List Int :=
  p.mergeMillis.toList ++ p.relationMillis.toList ++ p.overrides.map (·.millis)

/-- The first fault; a negative gap anywhere counts before an override of no relation. -/
def fault? (p : Policy) : Option PolicyFault :=
  match p.gaps.find? (· < 0) with
  | some millis => some (.negativeGap millis)
  | none =>
    (p.overrides.find? fun o => !o.isKnown).map fun o => .unknownRelation o.target o.source

/-- The thresholds of merges. -/
def merging (p : Policy) : MergePolicy :=
  match p.mergeMillis with
  | some millis => { maxTimeGap := Nanos.ofMillis millis }
  | none => {}

/-- The gap of a relation: from its first override, else the one for all, else its usual one. -/
def gapOf (p : Policy) (r : Relation) : Nanos :=
  match p.overrides.find? (·.isFor r) with
  | some o => Nanos.ofMillis o.millis
  | none =>
    match p.relationMillis with
    | some millis => Nanos.ofMillis millis
    | none => r.maxGap

/-- The relations with their gaps. -/
def relations (p : Policy) : List Relation :=
  Relation.defaults.map fun r => { r with maxGap := p.gapOf r }

end Policy

end FrameAlign
