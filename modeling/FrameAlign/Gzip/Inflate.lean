import FrameAlign.Gzip.PrefixCode

/-!
# Decompression

A compressed stream is a sequence of blocks. A block is stored as it is, or coded with the fixed
codes or with codes of its own. A coded block holds bytes and matches, which repeat earlier
output.
-/

namespace FrameAlign.Gzip

/-- The two codes of a block. -/
structure BlockCodes where
  /-- The code of bytes, of the end of the block and of the lengths of matches. -/
  literals : PrefixCode
  /-- The code of the distances of matches. -/
  distances : PrefixCode

namespace BlockCodes

/-- The codes of a block that brings none. -/
def fixed : BlockCodes :=
  { literals := PrefixCode.ofLengths
      (List.replicate 144 8 ++ List.replicate 112 9 ++ List.replicate 24 7 ++ List.replicate 8 8)
    distances := PrefixCode.ofLengths (List.replicate 32 5) }

end BlockCodes

namespace Inflate

/-- The shortest length or distance of a symbol and the number of bits that are added to it. -/
structure Span where
  base : Nat
  extraBits : Nat

/-- The lengths of matches, from symbol 257 on. -/
def lengthSpans : List Span :=
  [⟨3, 0⟩, ⟨4, 0⟩, ⟨5, 0⟩, ⟨6, 0⟩, ⟨7, 0⟩, ⟨8, 0⟩, ⟨9, 0⟩, ⟨10, 0⟩, ⟨11, 1⟩, ⟨13, 1⟩, ⟨15, 1⟩,
    ⟨17, 1⟩, ⟨19, 2⟩, ⟨23, 2⟩, ⟨27, 2⟩, ⟨31, 2⟩, ⟨35, 3⟩, ⟨43, 3⟩, ⟨51, 3⟩, ⟨59, 3⟩, ⟨67, 4⟩,
    ⟨83, 4⟩, ⟨99, 4⟩, ⟨115, 4⟩, ⟨131, 5⟩, ⟨163, 5⟩, ⟨195, 5⟩, ⟨227, 5⟩, ⟨258, 0⟩]

/-- The distances of matches. -/
def distanceSpans : List Span :=
  [⟨1, 0⟩, ⟨2, 0⟩, ⟨3, 0⟩, ⟨4, 0⟩, ⟨5, 1⟩, ⟨7, 1⟩, ⟨9, 2⟩, ⟨13, 2⟩, ⟨17, 3⟩, ⟨25, 3⟩, ⟨33, 4⟩,
    ⟨49, 4⟩, ⟨65, 5⟩, ⟨97, 5⟩, ⟨129, 6⟩, ⟨193, 6⟩, ⟨257, 7⟩, ⟨385, 7⟩, ⟨513, 8⟩, ⟨769, 8⟩,
    ⟨1025, 9⟩, ⟨1537, 9⟩, ⟨2049, 10⟩, ⟨3073, 10⟩, ⟨4097, 11⟩, ⟨6145, 11⟩, ⟨8193, 12⟩,
    ⟨12289, 12⟩, ⟨16385, 13⟩, ⟨24577, 13⟩]

/-- The value of a symbol with its added bits, and the bits after them. -/
def spanValue? (spans : List Span) (symbol : Nat) (bits : List Bool) :
    Option (Nat × List Bool) := do
  let span ← spans[symbol]?
  let (extra, rest) ← Bits.take? span.extraBits bits
  return (span.base + extra, rest)

/-- Extra bits are taken from those that are there, so none appear while a span is read. -/
theorem length_le_of_spanValue? {spans : List Span} {symbol v : Nat} {bits rest : List Bool}
    (h : spanValue? spans symbol bits = some (v, rest)) : rest.length ≤ bits.length := by
  simp only [spanValue?, Option.bind_eq_bind, Option.bind_eq_some_iff, Prod.exists,
    Option.pure_def, Option.some.injEq, Prod.mk.injEq] at h
  obtain ⟨_, _, _, _, h, -, rfl⟩ := h
  have := Bits.length_of_take? h
  omega

/-- What a coded block holds. -/
inductive Item where
  /-- A byte of the output. -/
  | byte (b : UInt8)
  /-- The end of the block. -/
  | stop
  /-- As many earlier bytes as the length says, from the distance on. -/
  | earlier (length distance : Nat)

/-- The item in front of some bits, and the bits after it. -/
def item? (codes : BlockCodes) (bits : List Bool) : Option (Item × List Bool) := do
  let (symbol, bits) ← codes.literals.decode? bits
  if symbol < 256 then return (.byte symbol.toUInt8, bits)
  else if symbol = 256 then return (.stop, bits)
  else
    let (length, bits) ← spanValue? lengthSpans (symbol - 257) bits
    let (distanceSymbol, bits) ← codes.distances.decode? bits
    let (distance, bits) ← spanValue? distanceSpans distanceSymbol bits
    return (.earlier length distance, bits)

/-- Each item uses up at least one bit, so a block ends. -/
theorem length_lt_of_item? {codes : BlockCodes} {item : Item} {bits rest : List Bool}
    (h : item? codes bits = some (item, rest)) : rest.length < bits.length := by
  simp only [item?, Option.bind_eq_bind, Option.bind_eq_some_iff, Prod.exists] at h
  obtain ⟨symbol, b₁, h₁, h⟩ := h
  have l₁ := PrefixCode.length_lt_of_decode? h₁
  split at h
  · simp_all
  · split at h
    · simp_all
    · simp only [Option.bind_eq_some_iff, Prod.exists, Option.pure_def, Option.some.injEq,
        Prod.mk.injEq] at h
      obtain ⟨_, b₂, h₂, _, b₃, h₃, _, b₄, h₄, -, rfl⟩ := h
      have l₂ := length_le_of_spanValue? h₂
      have l₃ := PrefixCode.length_lt_of_decode? h₃
      have l₄ := length_le_of_spanValue? h₄
      omega

/-- The byte that lies so far back in the output, which only zeros precede. -/
def byteBack (out : ByteArray) (distance : Nat) : UInt8 :=
  if out.size < distance then 0 else out[out.size - distance]?.getD 0

/-- The output with its last bytes repeated from a distance, one by one. -/
def copy (distance : Nat) : Nat → ByteArray → ByteArray
  | 0, out => out
  | n + 1, out => copy distance n (out.push (byteBack out distance))

/-- The output of a coded block behind that of the blocks before it, and the bits after it. -/
def block? (codes : BlockCodes) (out : ByteArray) (bits : List Bool) :
    Option (ByteArray × List Bool) :=
  match _h : item? codes bits with
  | none => none
  | some (.stop, rest) => some (out, rest)
  | some (.byte b, rest) => block? codes (out.push b) rest
  | some (.earlier length distance, rest) => block? codes (copy distance length out) rest
termination_by bits.length
decreasing_by all_goals exact length_lt_of_item? _h

/-- The next `n` bytes behind the output, and the bits after them. -/
def storedBytes? : Nat → ByteArray → List Bool → Option (ByteArray × List Bool)
  | 0, out, bits => some (out, bits)
  | n + 1, out, bits => do
    let (byte, rest) ← Bits.take? 8 bits
    storedBytes? n (out.push byte.toUInt8) rest

/-- The output of a stored block, whose length is given twice, the second time inverted. -/
def stored? (out : ByteArray) (bits : List Bool) : Option (ByteArray × List Bool) := do
  let (length, rest) ← Bits.take? 16 (Bits.align bits)
  let (inverted, rest) ← Bits.take? 16 rest
  if length + inverted = 65535 then storedBytes? length out rest else none

/-- The order in which the lengths of the code for code lengths are given. -/
def lengthOrder : List Nat := [16, 17, 18, 0, 8, 7, 9, 6, 10, 5, 11, 4, 12, 3, 13, 2, 14, 1, 15]

/-- The next `n` numbers of three bits. -/
def threeBitNumbers? : Nat → List Bool → Option (List Nat × List Bool)
  | 0, bits => some ([], bits)
  | n + 1, bits => do
    let (v, rest) ← Bits.take? 3 bits
    let (vs, rest) ← threeBitNumbers? n rest
    return (v :: vs, rest)

/--
Reads code lengths until `total` are known; those known come reversed. A symbol below 16 is a
length, and the others repeat the last length or zero. Every symbol adds a length, so that `fuel`
of `total` is enough.
-/
def codeLengths? (code : PrefixCode) (total : Nat) :
    (fuel : Nat) → List Nat → List Bool → Option (List Nat × List Bool)
  | 0, known, bits => if known.length = total then some (known.reverse, bits) else none
  | fuel + 1, known, bits =>
    if known.length = total then some (known.reverse, bits)
    else if total < known.length then none
    else do
      let (symbol, rest) ← code.decode? bits
      if symbol < 16 then codeLengths? code total fuel (symbol :: known) rest
      else if symbol = 16 then
        let last ← known.head?
        let (extra, rest) ← Bits.take? 2 rest
        codeLengths? code total fuel (List.replicate (extra + 3) last ++ known) rest
      else if symbol = 17 then
        let (extra, rest) ← Bits.take? 3 rest
        codeLengths? code total fuel (List.replicate (extra + 3) 0 ++ known) rest
      else
        let (extra, rest) ← Bits.take? 7 rest
        codeLengths? code total fuel (List.replicate (extra + 11) 0 ++ known) rest

/--
Whether a code of bytes or distances may be used: it is complete, has no word at all, or has a
single word of one bit.
-/
def isUsable (code : PrefixCode) : Bool :=
  code.isComplete || code.symbols.isEmpty ||
    (code.symbols.size = 1 && code.counts.head? = some 1)

/-- The codes that a block brings, and the bits after them. -/
def dynamicCodes? (bits : List Bool) : Option (BlockCodes × List Bool) := do
  let (literalCount, bits) ← Bits.take? 5 bits
  let (distanceCount, bits) ← Bits.take? 5 bits
  let (lengthCount, bits) ← Bits.take? 4 bits
  if 29 < literalCount || 29 < distanceCount then none
  let (given, bits) ← threeBitNumbers? (lengthCount + 4) bits
  let placed := lengthOrder.zip given
  let lengthCode := PrefixCode.ofLengths <| (List.range 19).map fun symbol =>
    ((placed.find? fun p => p.1 = symbol).map (·.2)).getD 0
  if !lengthCode.isComplete then none
  let total := literalCount + 257 + (distanceCount + 1)
  let (lengths, bits) ← codeLengths? lengthCode total total [] bits
  let literals := PrefixCode.ofLengths (lengths.take (literalCount + 257))
  let distances := PrefixCode.ofLengths (lengths.drop (literalCount + 257))
  if isUsable literals && isUsable distances then some ({ literals, distances }, bits) else none

/--
The output of all blocks and the bits after the last one. Every block has at least three bits, so
that as many rounds as there are bits are enough.
-/
def blocks? : (rounds : Nat) → ByteArray → List Bool → Option (ByteArray × List Bool)
  | 0, _, _ => none
  | rounds + 1, out, bits => do
    let (last, bits) ← Bits.take? 1 bits
    let (kind, bits) ← Bits.take? 2 bits
    let (out, bits) ←
      if kind = 0 then stored? out bits
      else if kind = 1 then block? BlockCodes.fixed out bits
      else if kind = 2 then do
        let (codes, bits) ← dynamicCodes? bits
        block? codes out bits
      else none
    if last = 1 then some (out, bits) else blocks? rounds out bits

end Inflate

/-- The output of a compressed stream, and the bits after it. -/
def inflate? (bits : List Bool) : Option (ByteArray × List Bool) :=
  Inflate.blocks? bits.length ByteArray.empty bits

end FrameAlign.Gzip
