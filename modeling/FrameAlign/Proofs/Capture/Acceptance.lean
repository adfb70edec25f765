import FrameAlign.Proofs.Capture.Recordings

/-!
# Which records are accepted

A decoder checks raw values, while traces are correlated by their timestamps. Dating keeps the order
of values even where it stops at an end of the range, so an accepted record becomes a trace in good
order under every epoch: `exists_toRecording_iff` says which records are accepted, and
`dates_of_toRecording` what they become.
-/

namespace FrameAlign

/-- The good order of a dated trace. Correlation asks for no more of its traces than this. -/
structure Trace.Sound (t : Trace) : Prop where
  /-- Every entry has a timestamp. -/
  length_timestamps : t.timestamps.length = t.size
  /-- No timestamp counts less than one before it. -/
  ascending : t.Ascending
  /-- All timestamps lie on one clock. -/
  exists_clock : ∃ clock, ∀ ts ∈ t.timestamps, ts.clock = clock
  /-- If display frames were recorded, every entry has one. -/
  length_vsyncIds : ∀ ids, t.vsyncIds = some ids → ids.length = t.size

namespace Capture

/-- The check of a record compares neighbours, and with it every pair of values is in order, since
the order is transitive. -/
theorem isAscending_iff {values : List Nanos} :
    isAscending values = true ↔ values.Pairwise (· ≤ ·) := by
  fun_induction isAscending values with
  | case1 a b rest ih =>
    rw [Bool.and_eq_true, decide_eq_true_eq, ih]
    constructor
    · rintro ⟨hab, hrest⟩
      refine List.pairwise_cons.mpr ⟨fun c hc => ?_, hrest⟩
      rcases List.mem_cons.mp hc with rfl | hc
      · exact hab
      · exact Int.le_trans hab ((List.pairwise_cons.mp hrest).1 c hc)
    · intro h
      obtain ⟨ha, hrest⟩ := List.pairwise_cons.mp h
      exact ⟨ha b List.mem_cons_self, hrest⟩
  | case2 values hshort =>
    cases values with
    | nil => simp
    | cons a values =>
      cases values with
      | nil => simp
      | cons b rest => exact absurd rfl (hshort a b rest)

namespace TraceRecord

/-- What a record must be like to make sense. This is said of the raw values, before any epoch is
known. -/
structure Sound (r : TraceRecord) : Prop where
  /-- Values never decrease; they may stay the same. -/
  ascending : r.values.Pairwise (· ≤ ·)
  /-- No more is recorded than there are values. Values without anything recorded are allowed. -/
  entries_le : r.entries.length ≤ r.values.length
  /-- Display frames are recorded for all values or for none. -/
  length_vsyncIds : ∀ ids, r.vsyncIds = some ids → ids.length = r.values.length

/-- Nothing is wrong with a record exactly if it makes sense. The checks come one after the other,
each with a message of its own, and this is what they amount to. -/
theorem formatError?_eq_none_iff {r : TraceRecord} : r.formatError? = none ↔ r.Sound := by
  constructor
  · intro h
    rw [formatError?] at h
    split at h
    · cases h
    · next hascending =>
      split at h
      · cases h
      · next hentries =>
        refine ⟨isAscending_iff.mp (by simpa using hascending), Nat.le_of_not_lt hentries, ?_⟩
        intro ids hids
        simpa [hids] using h
  · intro h
    have hascending : isAscending r.values = true := isAscending_iff.mpr h.ascending
    rw [formatError?, hascending, Bool.not_true, if_neg Bool.false_ne_true,
      if_neg (Nat.not_lt_of_le h.entries_le)]
    cases hids : r.vsyncIds with
    | none => rfl
    | some ids => exact if_pos (h.length_vsyncIds ids hids)

/-- A shared offset has no part in whether a record makes sense, so the records of a session can be
judged one by one. -/
theorem sound_of_shared {r : TraceRecord} (offset : Option Nanos) :
    Sound { r with offset } ↔ r.Sound :=
  ⟨fun h => ⟨h.ascending, h.entries_le, h.length_vsyncIds⟩,
    fun h => ⟨h.ascending, h.entries_le, h.length_vsyncIds⟩⟩

variable {record : TraceRecord} {coarseness : Coarseness} {source : String} {r : Recording}

/-- The records that make sense are accepted, and no others. Neither the kind of the file nor its
name plays a part. -/
theorem exists_toRecording_iff (record : TraceRecord) (coarseness : Coarseness) (source : String) :
    (∃ r, record.toRecording coarseness source = .ok r) ↔ record.Sound := by
  rw [← formatError?_eq_none_iff, toRecording]
  cases record.formatError? with
  | none => simp
  | some e => simp

/-- The trace that a record becomes, next to others with which it may share an offset. It holds
under every epoch, so it is what a record can promise before it is loaded. -/
structure Dates (record : TraceRecord) (shared : Option Nanos) (t : Trace) : Prop where
  /-- The trace is in good order. -/
  sound : t.Sound
  /-- It has an entry for each value. -/
  size_eq : t.size = record.values.length
  /-- Timestamps are real if the values are or an offset makes them so, and elapsed otherwise. -/
  isReal_eq : ∀ ts ∈ t.timestamps,
    ts.isReal = (record.clock = .real || (record.offset <|> shared).isSome)

/-- The recording of a record with its own offset becomes a trace in good order. Dating adds one
offset to all values, and it keeps their order also where it saturates. -/
theorem dates_of_toRecording (h : record.toRecording coarseness source = .ok r) (epoch : Epoch)
    (serial : Nat) : record.Dates none (r.date epoch serial) := by
  have hsound : record.Sound := (exists_toRecording_iff record coarseness source).mp ⟨r, h⟩
  have hisReal (raw : Nanos) : (epoch.timestamp record.clock record.offset raw).isReal =
      (record.clock = .real || (record.offset <|> none).isSome) := by
    rw [epoch.isReal_timestamp]
    cases record.offset <;> rfl
  rw [toRecording] at h
  split at h
  · cases h
  · cases h
    refine ⟨⟨List.length_map _, ?_, ?_, hsound.length_vsyncIds⟩, rfl, ?_⟩
    · exact List.pairwise_map.mpr (hsound.ascending.imp fun hab => epoch.timestamp_mono _ _ hab)
    · refine ⟨(epoch.timestamp record.clock record.offset (.clamp 0)).clock, fun ts hts => ?_⟩
      obtain ⟨raw, -, rfl⟩ := List.mem_map.mp hts
      cases record.clock <;> cases record.offset <;> rfl
    · intro ts hts
      obtain ⟨raw, -, rfl⟩ := List.mem_map.mp hts
      exact hisReal raw

/-- A record that was given a shared offset in want of its own becomes what it becomes next to the
others with that offset. A session is decoded in this way. -/
theorem Dates.of_shared {shared : Option Nanos} {t : Trace}
    (h : Dates { record with offset := record.offset <|> shared } none t) :
    record.Dates shared t where
  sound := h.sound
  size_eq := h.size_eq
  isReal_eq := by
    intro ts hts
    rw [h.isReal_eq ts hts]
    cases record.offset <;> cases shared <;> rfl

end TraceRecord

namespace SessionRecord

/-- A session is accepted if all of its records make sense, and as a whole: one record that does not
make sense rejects the file. -/
theorem exists_toRecordings_iff (s : SessionRecord) (source : String) :
    (∃ rs, s.toRecordings source = .ok rs) ↔ ∀ record ∈ s.traces, record.Sound := by
  rw [toRecordings, exists_mapM_eq_ok_iff]
  refine forall₂_congr fun record _ => ?_
  rw [TraceRecord.exists_toRecording_iff, TraceRecord.sound_of_shared]

/-- Each record of a session becomes a trace in good order, with the offset of the session when it
has none of its own. The traces are in the order of the records. -/
theorem dates_of_toRecordings {s : SessionRecord} {source : String} {rs : List Recording}
    (h : s.toRecordings source = .ok rs) :
    List.Forall₂ (fun record r => ∀ epoch serial, record.Dates s.offset (r.date epoch serial))
      s.traces rs :=
  (forall₂_of_mapM_eq_ok h).imp fun _ _ hrecord epoch serial =>
    (TraceRecord.dates_of_toRecording hrecord epoch serial).of_shared

end SessionRecord

/-! ## Files -/

/-- What a file of one trace holds becomes a trace in good order. The record is left out here, as
all that is loaded comes through a decoder. -/
theorem sound_of_decodeTrace {f : TraceFile} {r : Recording} (h : decodeTrace f = .ok r)
    (epoch : Epoch) (serial : Nat) : (r.date epoch serial).Sound := by
  obtain ⟨record, -, hrecord⟩ := exists_eq_ok_of_bind h
  exact (TraceRecord.dates_of_toRecording hrecord epoch serial).sound

/-- What a session file holds becomes traces in good order, each of them. -/
theorem sound_of_decodeSession {f : TraceFile} {rs : List Recording} (h : decodeSession f = .ok rs)
    {r : Recording} (hr : r ∈ rs) (epoch : Epoch) (serial : Nat) :
    (r.date epoch serial).Sound := by
  obtain ⟨session, -, hrecords⟩ := exists_eq_ok_of_bind h
  have hdates := SessionRecord.dates_of_toRecordings hrecords
  obtain ⟨record, -, hrecord⟩ := forall₂_exists_of_mem_right hdates hr
  exact (hrecord epoch serial).sound

end Capture

end FrameAlign
