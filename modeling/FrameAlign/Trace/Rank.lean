import FrameAlign.Trace.Basic

/-!
# Precedence of traces

Of two traces of one category the richer one is kept: any timeline is richer than a single sample,
a single sample is richer than an empty trace, and the longer of two timelines is the richer.
-/

namespace FrameAlign

/-- How rich a trace is. -/
inductive Rank where
  | empty
  | dump
  | timeline (span : Nanos)
deriving DecidableEq

namespace Rank

/-- The place of the kinds among each other. -/
def level : Rank → Nat
  | .empty => 0
  | .dump => 1
  | .timeline _ => 2

/-- The duration that tells two timelines apart. -/
def length : Rank → Int
  | .timeline span => span.val
  | _ => 0

/-- Kinds come first, then durations. -/
def order (a b : Rank) : Ordering :=
  (compare a.level b.level).then (compare a.length b.length)

instance : Ord Rank := ⟨order⟩

instance : LT Rank := ⟨fun a b => a.level < b.level ∨ (a.level = b.level ∧ a.length < b.length)⟩

instance (a b : Rank) : Decidable (a < b) :=
  inferInstanceAs (Decidable (a.level < b.level ∨ (a.level = b.level ∧ a.length < b.length)))

/-- A rank is lower on a lower level, and on the same level with fewer entries. -/
theorem lt_def {a b : Rank} :
    a < b ↔ a.level < b.level ∨ (a.level = b.level ∧ a.length < b.length) := Iff.rfl

/-- Of two ranks at most one is the lower, so a replacement is never undone by the same
comparison. -/
theorem not_lt_of_lt {a b : Rank} (h : a < b) : ¬b < a := by
  rw [lt_def] at h ⊢
  omega

/-- What is no richer than a second is poorer than all that are richer than that. -/
theorem lt_of_not_lt_of_lt {a b c : Rank} (h : ¬b < a) (h' : b < c) : a < c := by
  rw [lt_def] at h h' ⊢
  omega

end Rank

/-- How rich a trace is, by the number of its timestamps and the time they span. -/
def Trace.rank (t : Trace) : Rank :=
  match t.timestamps with
  | [] => .empty
  | [_] => .dump
  | _ => .timeline t.span

end FrameAlign
