/-!
# Inflating compressed bytes

The deflate format, and the same inside an envelope with a checksum. A stream
must be complete; bytes after its end are ignored. A copy that reaches back
before the first byte of the output reads zeros, because the window of the
format starts out empty. Which of the many ways to be malformed applies is not
told apart. This is what the program decompresses with; what is proved of account
data holds for any other two functions.
-/

namespace WireSchema.Bytes

set_option autoImplicit false

/-- The bits of a byte string, least significant bit of each byte first. -/
def bitsOf (bytes : List UInt8) : List Bool :=
  bytes.flatMap fun b => (List.range 8).map fun i => b.toNat.testBit i

/-- A number of `count` bits, least significant first, and the bits after it. -/
def takeBits? : Nat → List Bool → Option (Nat × List Bool)
  | 0, bits => some (0, bits)
  | _ + 1, [] => none
  | count + 1, b :: rest => do
    let (n, rest) ← takeBits? count rest
    return (b.toNat + 2 * n, rest)

/-- A prefix code: how many codes each length has, from length one on, and the symbols in code order. -/
structure PrefixCode where
  counts : List Nat
  symbols : Array Nat

/-- Twice the space that the codes of the first lengths leave unused, or nothing if they need more. -/
def spaceLeft? : List Nat → Nat → Option Nat
  | [], left => some left
  | count :: more, left => if count ≤ 2 * left then spaceLeft? more (2 * left - count) else none

/-- The code given by a length for every symbol. As zlib has it, it must use all codes, unless `sparse`
allows one that has at most one symbol, with a code of one bit. -/
def PrefixCode.ofLengths? (lengths : List Nat) (sparse : Bool) : Option PrefixCode := do
  let counts := (List.range 15).map fun i => lengths.count (i + 1)
  let left ← spaceLeft? counts 1
  if left ≠ 0 ∧ (sparse = false ∨ lengths.any (· > 1)) then none
  else
    let symbols := (List.range 15).flatMap fun i =>
      (lengths.zipIdx.filter fun (length, _) => length == i + 1).map (·.2)
    return ⟨counts, symbols.toArray⟩

/-- Follow the bits through the lengths; `code` and `first` are the code read so far and the first code
of the current length, `index` counts the shorter codes. -/
def PrefixCode.walk? (symbols : Array Nat) :
    List Nat → Nat → Nat → Nat → List Bool → Option (Nat × List Bool)
  | [], _, _, _, _ => none
  | _ :: _, _, _, _, [] => none
  | count :: more, code, first, index, b :: rest =>
    let code := code + b.toNat
    if code < first + count then
      (symbols[index + (code - first)]?).map (·, rest)
    else walk? symbols more (2 * code) (2 * (first + count)) (index + count) rest

def PrefixCode.read? (code : PrefixCode) (bits : List Bool) : Option (Nat × List Bool) :=
  PrefixCode.walk? code.symbols code.counts 0 0 0 bits

/-- Base length and extra bits of the length symbols from 257 on. -/
def lengthTable : List (Nat × Nat) := [
  (3, 0), (4, 0), (5, 0), (6, 0), (7, 0), (8, 0), (9, 0), (10, 0), (11, 1), (13, 1), (15, 1), (17, 1),
  (19, 2), (23, 2), (27, 2), (31, 2), (35, 3), (43, 3), (51, 3), (59, 3), (67, 4), (83, 4), (99, 4),
  (115, 4), (131, 5), (163, 5), (195, 5), (227, 5), (258, 0)]

/-- Base distance and extra bits of the distance symbols. -/
def distanceTable : List (Nat × Nat) := [
  (1, 0), (2, 0), (3, 0), (4, 0), (5, 1), (7, 1), (9, 2), (13, 2), (17, 3), (25, 3), (33, 4), (49, 4),
  (65, 5), (97, 5), (129, 6), (193, 6), (257, 7), (385, 7), (513, 8), (769, 8), (1025, 9), (1537, 9),
  (2049, 10), (3073, 10), (4097, 11), (6145, 11), (8193, 12), (12289, 12), (16385, 13), (24577, 13)]

/-- Append `count` bytes, each the one `distance` places back. -/
def copyBack (distance : Nat) : Nat → Array UInt8 → Array UInt8
  | 0, out => out
  | count + 1, out =>
    let b := if distance ≤ out.size then out.getD (out.size - distance) 0 else 0
    copyBack distance count (out.push b)

/-- The symbols of one block up to its end mark. `fuel` bounds their number. -/
def inflateSymbols? (literals distances : PrefixCode) :
    Nat → List Bool → Array UInt8 → Option (List Bool × Array UInt8)
  | 0, _, _ => none
  | fuel + 1, bits, out => do
    let (symbol, bits) ← literals.read? bits
    if symbol < 256 then
      inflateSymbols? literals distances fuel bits (out.push (UInt8.ofNat symbol))
    else if symbol = 256 then
      return (bits, out)
    else
      let (base, extra) ← lengthTable[symbol - 257]?
      let (more, bits) ← takeBits? extra bits
      let (symbol, bits) ← distances.read? bits
      let (start, wide) ← distanceTable[symbol]?
      let (further, bits) ← takeBits? wide bits
      inflateSymbols? literals distances fuel bits (copyBack (start + further) (base + more) out)

def fixedLiterals? : Option PrefixCode :=
  PrefixCode.ofLengths? (List.replicate 144 8 ++ List.replicate 112 9 ++ List.replicate 24 7
    ++ List.replicate 8 8) true

def fixedDistances? : Option PrefixCode :=
  PrefixCode.ofLengths? (List.replicate 32 5) true

/-- Code lengths written with repeat marks, until `count` of them are known; `done` holds them in reverse. -/
def readLengths? (code : PrefixCode) (count : Nat) :
    Nat → List Nat → List Bool → Option (List Nat × List Bool)
  | 0, _, _ => none
  | fuel + 1, done, bits =>
    if done.length = count then some (done.reverse, bits)
    else if done.length > count then none
    else do
      let (symbol, bits) ← code.read? bits
      if symbol < 16 then readLengths? code count fuel (symbol :: done) bits
      else if symbol = 16 then
        let last ← done.head?
        let (n, bits) ← takeBits? 2 bits
        readLengths? code count fuel (List.replicate (3 + n) last ++ done) bits
      else if symbol = 17 then
        let (n, bits) ← takeBits? 3 bits
        readLengths? code count fuel (List.replicate (3 + n) 0 ++ done) bits
      else
        let (n, bits) ← takeBits? 7 bits
        readLengths? code count fuel (List.replicate (11 + n) 0 ++ done) bits

/-- The order in which the lengths of the length code itself are written. -/
def lengthOrder : List Nat :=
  [16, 17, 18, 0, 8, 7, 9, 6, 10, 5, 11, 4, 12, 3, 13, 2, 14, 1, 15]

/-- `count` numbers of three bits. -/
def takeTriples? : Nat → List Bool → Option (List Nat × List Bool)
  | 0, bits => some ([], bits)
  | count + 1, bits => do
    let (n, bits) ← takeBits? 3 bits
    let (more, bits) ← takeTriples? count bits
    return (n :: more, bits)

/-- The two codes that stand at the head of a block with codes of its own. -/
def dynamicCodes? (bits : List Bool) : Option ((PrefixCode × PrefixCode) × List Bool) := do
  let (literals, bits) ← takeBits? 5 bits
  let (distances, bits) ← takeBits? 5 bits
  let (lengths, bits) ← takeBits? 4 bits
  if literals > 29 ∨ distances > 29 then none
  else
    let (triples, bits) ← takeTriples? (lengths + 4) bits
    let given := lengthOrder.zip triples
    let code ← PrefixCode.ofLengths? ((List.range 19).map fun s => (given.lookup s).getD 0) false
    let total := literals + 257 + (distances + 1)
    let (all, bits) ← readLengths? code total (total + 1) [] bits
    let first ← PrefixCode.ofLengths? (all.take (literals + 257)) true
    let second ← PrefixCode.ofLengths? (all.drop (literals + 257)) true
    return ((first, second), bits)

/-- A block of plain bytes: its length twice, the second time inverted, then the bytes. -/
def inflateStored? (bits : List Bool) (out : Array UInt8) : Option (List Bool × Array UInt8) := do
  let bits := bits.drop (bits.length % 8)
  let (length, bits) ← takeBits? 16 bits
  let (inverted, bits) ← takeBits? 16 bits
  if length + inverted ≠ 65535 then none
  else copyBytes length bits out
where
  copyBytes : Nat → List Bool → Array UInt8 → Option (List Bool × Array UInt8)
    | 0, bits, out => some (bits, out)
    | count + 1, bits, out => do
      let (b, bits) ← takeBits? 8 bits
      copyBytes count bits (out.push (UInt8.ofNat b))

/-- Blocks up to the one marked as the last. `fuel` bounds their number and their symbols. -/
def inflateBlocks? : Nat → List Bool → Array UInt8 → Option (List Bool × Array UInt8)
  | 0, _, _ => none
  | fuel + 1, bits, out => do
    let (final, bits) ← takeBits? 1 bits
    let (kind, bits) ← takeBits? 2 bits
    let (bits, out) ←
      if kind = 0 then inflateStored? bits out
      else if kind = 1 then do
        inflateSymbols? (← fixedLiterals?) (← fixedDistances?) fuel bits out
      else if kind = 2 then do
        let ((literals, distances), bits) ← dynamicCodes? bits
        inflateSymbols? literals distances fuel bits out
      else none
    if final = 1 then return (bits, out) else inflateBlocks? fuel bits out

/-- The output of a raw stream, and how many whole bytes stand after it. -/
def inflateWithRest? (bytes : List UInt8) : Option (List UInt8 × Nat) := do
  let bits := bitsOf bytes
  let (rest, out) ← inflateBlocks? (bits.length + 1) bits #[]
  return (out.toList, rest.length / 8)

/-- The output of a raw stream. -/
def inflate? (bytes : List UInt8) : Option (List UInt8) :=
  (inflateWithRest? bytes).map (·.1)

/-- The checksum of the envelope: two running sums modulo 65521. -/
def adler32 (bytes : List UInt8) : Nat :=
  let (a, b) := bytes.foldl (fun (a, b) byte =>
    let a := (a + byte.toNat) % 65521
    (a, (b + a) % 65521)) (1, 0)
  b * 65536 + a

/-- The output of a stream inside its envelope: two header bytes before, the checksum after it. -/
def inflateEnvelope? : List UInt8 → Option (List UInt8)
  | method :: flags :: rest => do
    let (method, flags) := (method.toNat, flags.toNat)
    if (method * 256 + flags) % 31 ≠ 0 ∨ flags.testBit 5 = true ∨ method % 16 ≠ 8 ∨ method / 16 > 7 then none
    else
      let (out, after) ← inflateWithRest? rest
      let sum := (rest.drop (rest.length - after)).take 4
      if sum.length = 4 ∧ sum.foldl (fun n b => n * 256 + b.toNat) 0 = adler32 out then some out else none
  | _ => none

end WireSchema.Bytes
