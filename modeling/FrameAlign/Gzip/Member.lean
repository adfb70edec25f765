import FrameAlign.Gzip.Inflate

/-!
# Gzip members

A member is a header, a compressed stream and a trailer with the checksum and the length of the
output. The checksum is the 32-bit cyclic redundancy checksum, computed bit by bit. Only the first
member of a file is read; whatever follows it is ignored.
-/

namespace FrameAlign.Gzip

namespace Checksum

/-- The register after one bit of input has been added to its lowest bit. -/
def step (register : UInt32) : UInt32 :=
  if register &&& 1 = 1 then (register >>> 1) ^^^ 0xedb88320 else register >>> 1

/-- The register after `n` bits. -/
def steps : Nat → UInt32 → UInt32
  | 0, register => register
  | n + 1, register => steps n (step register)

/-- The register after a byte. -/
def addByte (register : UInt32) (byte : UInt8) : UInt32 := steps 8 (register ^^^ byte.toUInt32)

/-- The checksum of some bytes. -/
def ofBytes (bytes : ByteArray) : UInt32 := (bytes.foldl addByte 0xffffffff) ^^^ 0xffffffff

end Checksum

/-- The two bytes that every member starts with. -/
def magic : List UInt8 := [0x1f, 0x8b]

/-- The longest name or comment of a header. -/
def maxFieldLength : Nat := 65535

/-- The bytes after a field of the header that is ended by a zero. -/
def skipText? (bytes : List UInt8) : Option (List UInt8) :=
  let text := bytes.takeWhile (· ≠ 0)
  if maxFieldLength < text.length then none
  else
    match bytes.drop text.length with
    | [] => none
    | _ :: rest => some rest

/-- A number of two bytes, the lower first, and the bytes after it. -/
def number16? : List UInt8 → Option (Nat × List UInt8)
  | low :: high :: rest => some (low.toNat + 256 * high.toNat, rest)
  | _ => none

/-- A number of four bytes, the lowest first, and the bytes after it. -/
def number32? (bytes : List UInt8) : Option (Nat × List UInt8) := do
  let (low, rest) ← number16? bytes
  let (high, rest) ← number16? rest
  return (low + 65536 * high, rest)

/-- The bytes after `n` others. -/
def skip? (n : Nat) (bytes : List UInt8) : Option (List UInt8) :=
  if bytes.length < n then none else some (bytes.drop n)

/--
The compressed stream of a member with the given bytes: what follows the header. The header says
which optional fields it has, and may carry a checksum of itself.
-/
def body? (bytes : List UInt8) : Option (List UInt8) := do
  let fixed ← skip? 10 bytes
  let flags := (bytes[3]?.getD 0).toNat
  if !magic.isPrefixOf bytes || bytes[2]? ≠ some 8 || 32 ≤ flags then none
  let rest ← if flags.testBit 2 then do
      let (length, rest) ← number16? fixed
      skip? length rest
    else some fixed
  let rest ← if flags.testBit 3 then skipText? rest else some rest
  let rest ← if flags.testBit 4 then skipText? rest else some rest
  if flags.testBit 1 then do
    let header := bytes.take (bytes.length - rest.length)
    let (stored, rest) ← number16? rest
    if stored = (Checksum.ofBytes header.toByteArray).toNat % 65536 then some rest else none
  else some rest

/-- The output of the first member of a file, if the member is intact. -/
def decompress? (data : ByteArray) : Option ByteArray := do
  let stream ← body? data.toList
  let (out, bits) ← inflate? (Bits.ofBytes stream)
  let trailer := stream.drop (stream.length - bits.length / 8)
  let (checksum, rest) ← number32? trailer
  let (length, _) ← number32? rest
  if checksum = (Checksum.ofBytes out).toNat && length = out.size % UInt32.size then some out
  else none

end FrameAlign.Gzip
