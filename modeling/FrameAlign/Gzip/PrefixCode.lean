import FrameAlign.Gzip.Bits

/-!
# Canonical prefix codes

A code is given by the lengths of its words. Shorter words come before longer ones and words of one
length follow the order of their symbols, so that the lengths determine the words. A word is read
bit by bit; among the words of each length those in use are consecutive numbers.
-/

namespace FrameAlign.Gzip

/-- A prefix code: how many words there are of 1, 2, … 15 bits, and the symbols in word order. -/
structure PrefixCode where
  counts : List Nat
  symbols : Array Nat

namespace PrefixCode

/-- The longest word. -/
def maxLength : Nat := 15

/-- The words of the given counts as a share of all words of 16 bits. -/
def coverage (counts : List Nat) : Nat := counts.foldl (fun total n => 2 * (total + n)) 0

/-- The code in which symbol `i` has a word of `lengths[i]` bits, none for zero. -/
def ofLengths (lengths : List Nat) : PrefixCode :=
  let ofLength (n : Nat) : List Nat :=
    lengths.zipIdx.filterMap fun (length, symbol) => if length = n then some symbol else none
  let symbols := (List.range' 1 maxLength).map ofLength
  { counts := symbols.map List.length, symbols := symbols.flatten.toArray }

/-- Whether every sequence of bits starts with a word of the code. -/
def isComplete (code : PrefixCode) : Bool := coverage code.counts = 65536

/-- Reads a word on: `word` has been read so far, and the first words of its length are known. -/
def decodeFrom (symbols : Array Nat) :
    (counts : List Nat) → (word first index : Nat) → List Bool → Option (Nat × List Bool)
  | [], _, _, _, _ => none
  | _ :: _, _, _, _, [] => none
  | count :: counts, word, first, index, b :: bits =>
    let word := 2 * word + b.toNat
    if first ≤ word && word < first + count then (symbols[index + (word - first)]?).map (·, bits)
    else decodeFrom symbols counts word (2 * (first + count)) (index + count) bits

/-- The symbol of the word in front of some bits, and the bits after it. -/
def decode? (code : PrefixCode) (bits : List Bool) : Option (Nat × List Bool) :=
  decodeFrom code.symbols code.counts 0 0 0 bits

/-- A symbol costs at least one bit, at whatever length of code word the search for it stands. -/
theorem length_lt_of_decodeFrom {symbols : Array Nat} {counts : List Nat} {word first index s : Nat}
    {bits rest : List Bool} (h : decodeFrom symbols counts word first index bits = some (s, rest)) :
    rest.length < bits.length := by
  fun_induction decodeFrom symbols counts word first index bits with
  | case1 => simp at h
  | case2 => simp at h
  | case3 =>
    simp only [Option.map_eq_some_iff, Prod.mk.injEq] at h
    obtain ⟨_, _, _, rfl⟩ := h
    simp
  | case4 _ _ _ _ _ _ _ _ _ ih =>
    have := ih h
    simp only [List.length_cons]
    omega

/-- A word has at least one bit. -/
theorem length_lt_of_decode? {code : PrefixCode} {s : Nat} {bits rest : List Bool}
    (h : code.decode? bits = some (s, rest)) : rest.length < bits.length :=
  length_lt_of_decodeFrom h

end PrefixCode

end FrameAlign.Gzip
