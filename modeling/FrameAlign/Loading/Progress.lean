import FrameAlign.Decimal.Fixed

/-!
# Progress of a load

A load first unpacks its containers and then decodes them. Each stage says how many containers are
done, starting with none of them, and the end is said once.
-/

namespace FrameAlign

/-- What a load is doing. -/
inductive Stage where
  | unpacking
  | decoding
deriving DecidableEq, Repr

/-- A stage in words. -/
def Stage.message : Stage → String
  | .unpacking => "Unpacking files..."
  | .decoding => "Decoding traces..."

/-- A report of how far a load is. -/
inductive Progress where
  /-- So many of all containers have passed the stage. -/
  | step (stage : Stage) (done total : Nat)
  /-- The load is over. -/
  | finished
deriving DecidableEq, Repr

namespace Progress

/-- All reports of a stage: before the first container and after each. -/
def ofStage (stage : Stage) (total : Nat) : List Progress :=
  (List.range (total + 1)).map fun done => .step stage done total

/-- The done part in percent with six decimals; of no containers all are done. -/
def percentText (done total : Nat) : String :=
  if total = 0 then Fixed.text 6 100 1 else Fixed.text 6 (100 * done) total

end Progress

end FrameAlign
