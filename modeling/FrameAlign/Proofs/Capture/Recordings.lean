import FrameAlign.Capture.Decode
import Mathlib.Data.List.Forall2

/-!
# From records to recordings

A file that can be decoded holds a record of one trace or of a session, and its recordings have the
values of the record. A trace of a session has its own offset or else the one of the session.
-/

namespace FrameAlign

section Related

variable {α β : Type} {R : α → β → Prop} {as : List α} {bs : List β}

/-- Each element of the first list is related to one of the second. With this a fact about a pair of
lists is used for one element. -/
theorem forall₂_exists_of_mem_left (h : List.Forall₂ R as bs) {a : α} (ha : a ∈ as) :
    ∃ b ∈ bs, R a b := by
  induction h with
  | nil => cases ha
  | @cons _ b _ bs hab _ ih =>
    rcases List.mem_cons.mp ha with rfl | ha
    · exact ⟨b, List.mem_cons_self, hab⟩
    · obtain ⟨b', hb', hab'⟩ := ih ha
      exact ⟨b', List.mem_cons_of_mem b hb', hab'⟩

/-- To each element of the second list one of the first is related: the relation is
turned around. -/
theorem forall₂_exists_of_mem_right (h : List.Forall₂ R as bs) {b : β} (hb : b ∈ bs) :
    ∃ a ∈ as, R a b :=
  forall₂_exists_of_mem_left h.flip hb

end Related

namespace Capture

/-- What is made of a list one by one is made of each of its elements. The order is kept, so
recordings and records can be told apart by their places. -/
theorem forall₂_of_mapM_eq_ok {ε α β : Type} {f : α → Except ε β} {as : List α} {bs : List β}
    (h : as.mapM f = .ok bs) : List.Forall₂ (fun a b => f a = .ok b) as bs := by
  induction as generalizing bs with
  | nil =>
    cases h
    exact .nil
  | cons a as ih =>
    rw [List.mapM_cons] at h
    cases ha : f a with
    | error e =>
      rw [ha] at h
      cases h
    | ok b =>
      cases hrest : as.mapM f with
      | error e =>
        rw [ha, hrest] at h
        cases h
      | ok rest =>
        rw [ha, hrest] at h
        cases h
        exact .cons ha (ih hrest)

/-- What is made of a document shows that the document was read. A decoder is taken apart by this,
whatever it says when it fails. -/
theorem exists_eq_ok_of_bind {ε δ α β : Type} {x : Except ε α} {describe : ε → δ}
    {f : α → Except δ β} {b : β} (h : (x.mapError describe >>= f) = .ok b) :
    ∃ a, x = .ok a ∧ f a = .ok b := by
  cases x with
  | error e => cases h
  | ok a => exact ⟨a, rfl, h⟩

/-- Something is made of every element of a list exactly if it is made of each. The first failure
stops the whole list. -/
theorem exists_mapM_eq_ok_iff {ε α β : Type} {f : α → Except ε β} {as : List α} :
    (∃ bs, as.mapM f = .ok bs) ↔ ∀ a ∈ as, ∃ b, f a = .ok b := by
  induction as with
  | nil => exact iff_of_true ⟨[], rfl⟩ (by simp)
  | cons a as ih =>
    rw [List.forall_mem_cons, ← ih, List.mapM_cons]
    cases ha : f a with
    | error e => simp [Bind.bind, Except.bind]
    | ok b => cases hrest : as.mapM f <;> simp [Bind.bind, Except.bind, Pure.pure, Except.pure]

namespace TraceRecord

/-- A recording has the values of a record, and the offset of the record or else a shared one. The
rest of a recording has no part in how it is dated. -/
structure Yields (record : TraceRecord) (shared : Option Nanos) (r : Recording) : Prop where
  /-- It is of the category of the record. -/
  category_eq : r.category = record.category
  /-- Its values are of the clock that the record names. -/
  clock_eq : r.clock = record.clock
  /-- No value is changed or left out. -/
  values_eq : r.values = record.values
  /-- An offset of its own goes before the shared one. -/
  offset_eq : r.offset = (record.offset <|> shared)

variable {record : TraceRecord} {r : Recording}

/-- A record that makes sense becomes a recording with its values. Without a session there is
nothing to share. -/
theorem yields_of_toRecording {coarseness : Coarseness} {source : String}
    (h : record.toRecording coarseness source = .ok r) : record.Yields none r := by
  rw [toRecording] at h
  split at h
  · cases h
  · cases h
    exact ⟨rfl, rfl, rfl, by cases record.offset <;> rfl⟩

/-- A record that was given a shared offset in want of its own has the offset of either. The decoder
of a session gives it before the recording is made. -/
theorem Yields.of_shared {shared : Option Nanos}
    (h : Yields { record with offset := record.offset <|> shared } none r) :
    record.Yields shared r where
  category_eq := h.category_eq
  clock_eq := h.clock_eq
  values_eq := h.values_eq
  offset_eq := h.offset_eq.trans (by cases record.offset <;> cases shared <;> rfl)

end TraceRecord

/-- A file of one trace holds the record of its recording. So what is known of recordings can be
said about the text of the file. -/
theorem exists_record_of_decodeTrace {f : TraceFile} {r : Recording}
    (h : decodeTrace f = .ok r) :
    ∃ record, readDocument readTrace f.data.toList = .ok record ∧ record.Yields none r := by
  obtain ⟨record, hread, hrecord⟩ := exists_eq_ok_of_bind h
  exact ⟨record, hread, TraceRecord.yields_of_toRecording hrecord⟩

/-- A session file holds the records of its recordings, with the offset that they share, in the same
order. -/
theorem exists_record_of_decodeSession {f : TraceFile} {rs : List Recording}
    (h : decodeSession f = .ok rs) :
    ∃ session, readDocument readSession f.data.toList = .ok session ∧
      List.Forall₂ (fun record r => record.Yields session.offset r) session.traces rs := by
  obtain ⟨session, hread, hrecords⟩ := exists_eq_ok_of_bind h
  refine ⟨session, hread, (forall₂_of_mapM_eq_ok hrecords).imp fun record r hrecord => ?_⟩
  exact (TraceRecord.yields_of_toRecording hrecord).of_shared

end Capture

end FrameAlign
