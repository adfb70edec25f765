import FrameAlign.Time.Duration
import Mathlib

/-!
# Reading durations back

The written form of a duration counts each unit once at most and adds up to the duration. A count
ends where its symbol starts, and a symbol where the next count starts, so the form can be read
back although one symbol starts like another. Different durations are therefore written differently.
-/

namespace FrameAlign.Duration

/-- How many of a unit make up one of the next longer unit. Hours have no next longer unit and are
not limited. -/
def limits : List (String × Nat) := [("m", 60), ("s", 60), ("ms", 1000), ("ns", 1000000)]

/-- Counts of units from the longest to the shortest that make up `n` nanoseconds. It is what the
written form has to get right, apart from how it is written. -/
structure Counted (n : Nat) (parts : List (Nat × TimeUnit)) : Prop where
  /-- The units come in order, each of them once at most. -/
  ordered : (parts.map (·.2)).Sublist units
  /-- No unit is counted zero times. -/
  pos : ∀ p ∈ parts, 0 < p.1
  /-- No count makes up one of the next longer unit. -/
  lt : ∀ p ∈ parts, ∀ limit, (p.2.symbol, limit) ∈ limits → p.1 < limit
  /-- The counts make up the number. -/
  total : (parts.map fun p => p.1 * p.2.size).sum = n

/-- A count is that of the first unit or one of what the first unit leaves. Inductions on units
go by this. -/
theorem mem_counts_cons {unit : TimeUnit} {rest : List TimeUnit} {n : Nat} {p : Nat × TimeUnit}
    (h : p ∈ counts (unit :: rest) n) :
    (p = (n / unit.size, unit) ∧ 0 < n / unit.size) ∨ p ∈ counts rest (n % unit.size) := by
  rw [counts] at h
  split at h
  · exact Or.inr h
  · next hne =>
    rcases List.mem_cons.mp h with rfl | h
    · exact Or.inl ⟨rfl, Nat.pos_of_ne_zero hne⟩
    · exact Or.inr h

/-- No unit is counted zero times: such a count is left out. -/
theorem pos_of_mem_counts {us : List TimeUnit} {n : Nat} {p : Nat × TimeUnit}
    (h : p ∈ counts us n) : 0 < p.1 := by
  induction us generalizing n with
  | nil => simp [counts] at h
  | cons unit rest ih =>
    rcases mem_counts_cons h with ⟨rfl, hpos⟩ | h
    · exact hpos
    · exact ih h

/-- Units are counted in order, each of them once at most, since they come from one list. -/
theorem counts_sublist (us : List TimeUnit) (n : Nat) : ((counts us n).map (·.2)).Sublist us := by
  induction us generalizing n with
  | nil => simp [counts]
  | cons unit rest ih =>
    rw [counts]
    split
    · exact (ih _).cons unit
    · exact (ih _).cons_cons unit

/-- The counts add up to all but what the last unit leaves. With nanoseconds as the last unit
nothing is left. -/
theorem sum_counts (us : List TimeUnit) (n : Nat) :
    ((counts us n).map fun p => p.1 * p.2.size).sum +
      us.foldl (fun n unit => n % unit.size) n = n := by
  induction us generalizing n with
  | nil => simp [counts]
  | cons unit rest ih =>
    have hrest := ih (n % unit.size)
    have hdiv := Nat.div_add_mod' n unit.size
    rw [counts, List.foldl_cons]
    split
    · next hzero =>
      rw [hzero] at hdiv
      omega
    · rw [List.map_cons, List.sum_cons]
      dsimp only
      omega

/-- No count makes up one of the next longer unit, since it is a count of what that
unit has left. -/
theorem lt_of_mem_counts {n : Nat} {p : Nat × TimeUnit} (h : p ∈ counts units n) (limit : Nat)
    (hlimit : (p.2.symbol, limit) ∈ limits) : p.1 < limit := by
  rw [units] at h
  rcases mem_counts_cons h with ⟨rfl, -⟩ | h
  · simp [limits] at hlimit
  -- What a unit leaves is less than the unit, which is as many of the next one as its limit says.
  rcases mem_counts_cons h with ⟨rfl, -⟩ | h
  · obtain rfl : limit = 60 := by simpa [limits] using hlimit
    exact Nat.div_lt_of_lt_mul (Nat.mod_lt _ (by decide))
  rcases mem_counts_cons h with ⟨rfl, -⟩ | h
  · obtain rfl : limit = 60 := by simpa [limits] using hlimit
    exact Nat.div_lt_of_lt_mul (Nat.mod_lt _ (by decide))
  rcases mem_counts_cons h with ⟨rfl, -⟩ | h
  · obtain rfl : limit = 1000 := by simpa [limits] using hlimit
    exact Nat.div_lt_of_lt_mul (Nat.mod_lt _ (by decide))
  rcases mem_counts_cons h with ⟨rfl, -⟩ | h
  · obtain rfl : limit = 1000000 := by simpa [limits] using hlimit
    exact Nat.div_lt_of_lt_mul (Nat.mod_lt _ (by decide))
  · simp [counts] at h

/-- The counts of all units make up the number: the parts, put together. -/
theorem counted_counts (n : Nat) : Counted n (counts units n) where
  ordered := counts_sublist units n
  pos := fun _ => pos_of_mem_counts
  lt := fun _ => lt_of_mem_counts
  total := by
    have hsum := sum_counts units n
    simpa [units, Nat.mod_one] using hsum

/-- What stands in a text behind its first count and symbol. The symbol ends where the next digit
comes, so `m` and `ms` are not mixed up. -/
def behindFirst (text : List Char) : List Char :=
  (text.dropWhile Char.isDigit).dropWhile fun c => !c.isDigit

/-- A text that starts with a digit gets shorter, so reading comes to an end. -/
theorem length_behindFirst_lt {text : List Char} (h : text.takeWhile Char.isDigit ≠ []) :
    (behindFirst text).length < text.length := by
  have hcut := congrArg List.length
    (List.takeWhile_append_dropWhile (p := Char.isDigit) (l := text))
  have hdigits := List.length_pos_iff.mpr h
  have hsymbol : (behindFirst text).length ≤ (text.dropWhile Char.isDigit).length :=
    (List.dropWhile_sublist _).length_le
  rw [List.length_append] at hcut
  omega

/-- The number of nanoseconds that counts with the symbols of units add up to, in whatever order the
units come. Nothing else can be read. -/
def readCounts? (text : List Char) : Option Nat :=
  if text = [] then some 0
  else if text.takeWhile Char.isDigit = [] then none
  else
    let symbol := (text.dropWhile Char.isDigit).takeWhile fun c => !c.isDigit
    match units.find? fun unit => unit.symbol.toList = symbol with
    | none => none
    | some unit =>
      (readCounts? (behindFirst text)).map fun rest =>
        Nat.ofDigitChars 10 (text.takeWhile Char.isDigit) 0 * unit.size + rest
termination_by text.length
decreasing_by exact length_behindFirst_lt ‹_›

/-- The number of nanoseconds of a written duration, below zero after a `-`. -/
def read? (text : String) : Option Int :=
  match text.toList with
  | '-' :: counts => (readCounts? counts).map fun n : Nat => -(n : Int)
  | counts => (readCounts? counts).map fun n : Nat => (n : Int)

/-- A symbol has no digits, and no other unit has it. This is all that is used of the symbols. -/
theorem symbol_of_mem_units {unit : TimeUnit} (h : unit ∈ units) : unit.symbol.toList ≠ [] ∧
    (∀ c ∈ unit.symbol.toList, c.isDigit = false) ∧
    units.find? (fun other => other.symbol.toList = unit.symbol.toList) = some unit := by
  simp only [units, List.mem_cons, List.not_mem_nil, or_false] at h
  rcases h with rfl | rfl | rfl | rfl | rfl <;> exact ⟨by decide, by simp, rfl⟩

/-- The front of a text is cut off where the first character comes that is not of its kind. Counts
and symbols take turns, so one ends where the other starts. -/
theorem span_append {p : Char → Bool} {front back : List Char} (hfront : ∀ c ∈ front, p c = true)
    (hback : ∀ c ∈ back.head?, p c = false) :
    (front ++ back).takeWhile p = front ∧ (front ++ back).dropWhile p = back := by
  rw [List.takeWhile_append_of_pos hfront, List.dropWhile_append_of_pos hfront]
  cases back with
  | nil => simp
  | cons c rest => simp [hback c rfl]

/-- A count and its symbol are read off the front of a text that goes on with a digit or
ends there. -/
theorem readCounts?_append (count : Nat) {unit : TimeUnit} (hunit : unit ∈ units) {rest : List Char}
    (hrest : ∀ c ∈ rest.head?, c.isDigit = true) :
    readCounts? (Nat.toDigits 10 count ++ (unit.symbol.toList ++ rest)) =
      (readCounts? rest).map fun n => count * unit.size + n := by
  obtain ⟨hne, hletters, hfind⟩ := symbol_of_mem_units hunit
  have hdigits : ∀ c ∈ Nat.toDigits 10 count, c.isDigit = true := fun _ hc =>
    Nat.isDigit_of_mem_toDigits (by decide) (by decide) hc
  have hstart : ∀ c ∈ (unit.symbol.toList ++ rest).head?, c.isDigit = false := by
    obtain ⟨first, later, heq⟩ := List.exists_cons_of_ne_nil hne
    have hfirst := hletters first (by rw [heq]; exact List.mem_cons_self)
    simpa [heq] using hfirst
  obtain ⟨hcount, hbehind⟩ := span_append hdigits hstart
  have hsymbol : ∀ c ∈ unit.symbol.toList, (!c.isDigit) = true := fun c hc => by
    rw [hletters c hc, Bool.not_false]
  have hstop : ∀ c ∈ rest.head?, (!c.isDigit) = false := fun c hc => by
    rw [hrest c hc, Bool.not_true]
  obtain ⟨hname, hnext⟩ := span_append (p := fun c => !c.isDigit) hsymbol hstop
  rw [readCounts?, if_neg (by simp [Nat.toDigits_ne_nil]), hcount, if_neg Nat.toDigits_ne_nil,
    behindFirst, hbehind, hname, hnext]
  simp only [hfind, Nat.ofDigitChars_ten_toDigits]

/-- The characters of written counts, one count after the other. -/
def writtenCounts (parts : List (Nat × TimeUnit)) : List Char :=
  parts.flatMap fun p => Nat.toDigits 10 p.1 ++ p.2.symbol.toList

/-- The text of some counts has these characters. -/
theorem toList_join_counts (parts : List (Nat × TimeUnit)) :
    (String.join (parts.map fun (count, unit) => toString count ++ unit.symbol)).toList =
      writtenCounts parts := by
  rw [String.toList_join, List.flatMap_map, writtenCounts]
  simp

/-- Written counts start with a digit, so the symbol in front of them ends there. -/
theorem isDigit_of_mem_head?_writtenCounts (parts : List (Nat × TimeUnit)) :
    ∀ c ∈ (writtenCounts parts).head?, c.isDigit = true := by
  cases parts with
  | nil => simp [writtenCounts]
  | cons p parts =>
    have hne : Nat.toDigits 10 p.1 ≠ [] := Nat.toDigits_ne_nil
    obtain ⟨c, digits, hdigits⟩ := List.exists_cons_of_ne_nil hne
    have hmem : c ∈ Nat.toDigits 10 p.1 := hdigits ▸ List.mem_cons_self
    have hc : c.isDigit = true := Nat.isDigit_of_mem_toDigits (by decide) (by decide) hmem
    simpa [writtenCounts, hdigits] using hc

/-- Written counts are read back as what they add up to. By induction on the counts, from
the front. -/
theorem readCounts?_writtenCounts {parts : List (Nat × TimeUnit)} (h : ∀ p ∈ parts, p.2 ∈ units) :
    readCounts? (writtenCounts parts) = some (parts.map fun p => p.1 * p.2.size).sum := by
  induction parts with
  | nil => simp [writtenCounts, readCounts?]
  | cons p parts ih =>
    obtain ⟨hp, hparts⟩ := List.forall_mem_cons.mp h
    rw [writtenCounts, List.flatMap_cons, List.append_assoc, ← writtenCounts,
      readCounts?_append p.1 hp (isDigit_of_mem_head?_writtenCounts parts), ih hparts]
    simp

/-- The written form of a number consists of counts that add up to it, of which `0ns` is one. This
one count is zero, so it is none of `Counted`. -/
theorem exists_writtenCounts_eq (n : Nat) : ∃ parts : List (Nat × TimeUnit),
    (∀ p ∈ parts, p.2 ∈ units) ∧ (textOfNat n).toList = writtenCounts parts ∧
      (parts.map fun p => p.1 * p.2.size).sum = n := by
  by_cases hn : n = 0
  · exact ⟨[(0, ⟨"ns", 1⟩)], by simp [units], by rw [textOfNat, if_pos hn]; rfl, by simp [hn]⟩
  · have hcounted := counted_counts n
    refine ⟨counts units n, ?_, ?_, hcounted.total⟩
    · intro p hp
      exact hcounted.ordered.subset (List.mem_map_of_mem hp)
    · rw [textOfNat, if_neg hn, toList_join_counts]

/-- A written duration is read back as it is, also the one that is the farthest below zero. So no
two durations are written alike. -/
theorem read?_text (d : Nanos) : read? (text d) = some d.val := by
  obtain ⟨parts, hunits, htext, htotal⟩ := exists_writtenCounts_eq d.val.natAbs
  have hread := readCounts?_writtenCounts hunits
  rw [htotal, ← htext] at hread
  rw [text]
  by_cases hneg : d.val < 0
  · have hvalue : -(d.val.natAbs : Int) = d.val := by omega
    have hcounts : read? ("-" ++ textOfNat d.val.natAbs) =
        (readCounts? (textOfNat d.val.natAbs).toList).map fun n : Nat => -(n : Int) := by
      rw [read?, String.toList_append]
      rfl
    rw [if_pos hneg, hcounts, hread, Option.map_some, hvalue]
  · have hvalue : (d.val.natAbs : Int) = d.val := by omega
    rw [if_neg hneg, read?]
    split
    · next rest hminus =>
      have hdigit := isDigit_of_mem_head?_writtenCounts parts '-' (by rw [← htext, hminus]; rfl)
      exact absurd hdigit (by decide)
    · rw [hread, Option.map_some, hvalue]

/-- **Written durations.** A duration is written as counts of units, each once at most and none of
them zero but for `0ns`, behind a `-` if it is negative. It is read back as it is, and no other
duration is written alike. -/
theorem text_counted_and_read (d : Nanos) :
    (∃ parts, Counted d.val.natAbs parts ∧
      text d = (if d.val < 0 then "-" else "") ++
        if d.val = 0 then "0ns"
        else String.join (parts.map fun (count, unit) => toString count ++ unit.symbol)) ∧
    read? (text d) = some d.val ∧ ∀ e, text e = text d → e = d := by
  refine ⟨⟨counts units d.val.natAbs, counted_counts _, ?_⟩, read?_text d, ?_⟩
  · rw [text, textOfNat]
    by_cases hneg : d.val < 0
    · have hzero : d.val ≠ 0 := by omega
      rw [if_pos hneg, if_pos hneg, if_neg hzero, if_neg (Int.natAbs_ne_zero.mpr hzero)]
    · rw [if_neg hneg, if_neg hneg, String.empty_append]
      simp only [Int.natAbs_eq_zero]
  · intro e htext
    have hread := read?_text e
    rw [htext, read?_text d, Option.some.injEq] at hread
    exact Nanos.ext hread.symm

end FrameAlign.Duration
