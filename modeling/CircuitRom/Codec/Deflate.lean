import CircuitRom.Codec.Huffman

/-!
# Deflate streams

A stream is a sequence of blocks.  A block holds its bytes as they are, or words of prefix codes
for bytes and for copies of earlier bytes.
-/

namespace CircuitRom
namespace Deflate

/-! ## Tables -/

/-- The least length of each code for a copy, and the number of bits that are added to it. -/
def lengthTable : Array (Nat × Nat) :=
  #[(3, 0), (4, 0), (5, 0), (6, 0), (7, 0), (8, 0), (9, 0), (10, 0), (11, 1), (13, 1), (15, 1),
    (17, 1), (19, 2), (23, 2), (27, 2), (31, 2), (35, 3), (43, 3), (51, 3), (59, 3), (67, 4),
    (83, 4), (99, 4), (115, 4), (131, 5), (163, 5), (195, 5), (227, 5), (258, 0)]

/-- The least distance of each code, and the number of bits that are added to it. -/
def distanceTable : Array (Nat × Nat) :=
  #[(1, 0), (2, 0), (3, 0), (4, 0), (5, 1), (7, 1), (9, 2), (13, 2), (17, 3), (25, 3), (33, 4),
    (49, 4), (65, 5), (97, 5), (129, 6), (193, 6), (257, 7), (385, 7), (513, 8), (769, 8),
    (1025, 9), (1537, 9), (2049, 10), (3073, 10), (4097, 11), (6145, 11), (8193, 12), (12289, 12),
    (16385, 13), (24577, 13)]

/-- The code whose word ends a block. -/
def endOfBlock : Nat := 256

/-- The order in which the widths of the code for widths are given. -/
def widthOrder : List Nat := [16, 17, 18, 0, 8, 7, 9, 6, 10, 5, 11, 4, 12, 3, 13, 2, 14, 1, 15]

/-- The two codes of a block. -/
structure Codes where
  /-- The code for bytes, lengths and the end of the block. -/
  main : PrefixCode
  /-- The code for distances. -/
  distance : PrefixCode

/-- The codes of a block that brings none of its own. -/
def fixedCodes? : Option Codes := do
  let main ← PrefixCode.ofWidths? (List.replicate 144 8 ++ List.replicate 112 9 ++
    List.replicate 24 7 ++ List.replicate 8 8)
  let distance ← PrefixCode.ofWidths? (List.replicate 32 5)
  return ⟨main, distance⟩

/-! ## Coded blocks -/

/-- The byte that stands `distance` before the end.  Before the first byte there are only zeros. -/
def lookBack (out : Array UInt8) (distance : Nat) : UInt8 :=
  if distance ≤ out.size then out.getD (out.size - distance) 0 else 0

/-- Append `n` bytes, each a copy of the byte `distance` before it. -/
def copy (out : Array UInt8) (distance : Nat) : Nat → Array UInt8
  | 0 => out
  | n + 1 => copy (out.push (lookBack out distance)) distance n

/-- Take the value of a code from its table and the bits that follow. -/
def tableValue? (table : Array (Nat × Nat)) (i : Nat) (source : BitSource) :
    Option (Nat × BitSource) :=
  match table[i]? with
  | none => none
  | some (base, bits) => (source.number? bits).map fun (n, source) => (base + n, source)

/-- Take the rest of a copy whose length code is known. -/
def readCopy? (codes : Codes) (lengthCode : Nat) (source : BitSource) (out : Array UInt8) :
    Option (BitSource × Array UInt8) := do
  let (length, source) ← tableValue? lengthTable lengthCode source
  let (code, source) ← codes.distance.decode? source
  let (distance, source) ← tableValue? distanceTable code source
  return (source, copy out distance length)

/-- Take words up to the end of the block, at most `fuel` of them. -/
def readWords? (codes : Codes) : Nat → BitSource → Array UInt8 → Option (BitSource × Array UInt8)
  | 0, _, _ => none
  | fuel + 1, source, out =>
    match codes.main.decode? source with
    | none => none
    | some (symbol, source) =>
      if symbol < endOfBlock then readWords? codes fuel source (out.push (UInt8.ofNat symbol))
      else if symbol = endOfBlock then some (source, out)
      else
        match readCopy? codes (symbol - endOfBlock - 1) source out with
        | none => none
        | some (source, out) => readWords? codes fuel source out

/-! ## Codes of a block -/

/-- Take the widths of the code for widths, in their order. -/
def readWidthWidths? : List Nat → BitSource → Option (List (Nat × Nat) × BitSource)
  | [], source => some ([], source)
  | symbol :: rest, source => do
    let (width, source) ← source.number? 3
    let (widths, source) ← readWidthWidths? rest source
    return ((symbol, width) :: widths, source)

/-- The code for widths, given the widths of some of its symbols. -/
def widthCode? (widths : List (Nat × Nat)) : Option PrefixCode :=
  PrefixCode.ofWidths? ((List.range 19).map fun (symbol : Nat) => (widths.lookup symbol).getD 0)

/-- How often a width is repeated and which, given the symbol that says so and the last width. -/
def readRepeat? (symbol : Nat) (last? : Option Nat) (source : BitSource) :
    Option (Nat × Nat × BitSource) :=
  match symbol with
  | 16 => do
    let last ← last?
    let (n, source) ← source.number? 2
    return (3 + n, last, source)
  | 17 => (source.number? 3).map fun (n, source) => (3 + n, 0, source)
  | 18 => (source.number? 7).map fun (n, source) => (11 + n, 0, source)
  | width => some (1, width, source)

/-- Take `left` widths after those that are kept in reverse; at most `fuel` words are read. -/
def readWidths? (code : PrefixCode) :
    Nat → Nat → List Nat → BitSource → Option (List Nat × BitSource)
  | _, 0, done, source => some (done.reverse, source)
  | 0, _ + 1, _, _ => none
  | fuel + 1, left, done, source =>
    match code.decode? source with
    | none => none
    | some (symbol, source) =>
      match readRepeat? symbol done.head? source with
      | none => none
      | some (n, width, source) =>
        if left < n then none
        else readWidths? code fuel (left - n) (List.replicate n width ++ done) source

/-- The greatest number of codes for bytes and lengths. -/
def mainLimit : Nat := 286

/-- The greatest number of codes for distances. -/
def distanceLimit : Nat := 30

/-- Take the codes that a block brings along. -/
def readCodes? (source : BitSource) : Option (Codes × BitSource) := do
  let (main, source) ← source.number? 5
  let (distance, source) ← source.number? 5
  let (order, source) ← source.number? 4
  let main := main + 257
  let distance := distance + 1
  if mainLimit < main ∨ distanceLimit < distance then none
  else do
    let (widths, source) ← readWidthWidths? (widthOrder.take (order + 4)) source
    let code ← widthCode? widths
    let total := main + distance
    let (widths, source) ← readWidths? code total total [] source
    let mainCode ← PrefixCode.ofWidths? (widths.take main)
    let distanceCode ← PrefixCode.ofWidths? (widths.drop main)
    return (⟨mainCode, distanceCode⟩, source)

/-! ## Blocks -/

/-- Read a number of two bytes, the low byte first. -/
def word16 : List UInt8 → Nat
  | [low, high] => low.toNat + 256 * high.toNat
  | _ => 0

/-- Take a block of bytes as they are.  Its length is given twice, the second time with all bits
turned. -/
def readStored? (source : BitSource) (out : Array UInt8) : Option (BitSource × Array UInt8) := do
  let (length, source) ← source.bytes? 2
  let (turned, source) ← source.bytes? 2
  if word16 length + word16 turned ≠ 65535 then none
  else do
    let (bytes, source) ← source.bytes? (word16 length)
    return (source, out ++ bytes)

/-- Take the rest of a block of the given kind. -/
def readBlock? (kind : Nat) (source : BitSource) (out : Array UInt8) :
    Option (BitSource × Array UInt8) :=
  match kind with
  | 0 => readStored? source out
  | 1 => fixedCodes?.bind fun codes => readWords? codes (source.size + 1) source out
  | 2 => (readCodes? source).bind fun (codes, source) =>
    readWords? codes (source.size + 1) source out
  | _ => none

/-- Take blocks up to the last one, at most `fuel` of them. -/
def readBlocks? : Nat → BitSource → Array UInt8 → Option (BitSource × Array UInt8)
  | 0, _, _ => none
  | fuel + 1, source, out =>
    match source.number? 1 with
    | none => none
    | some (final, source) =>
      match source.number? 2 with
      | none => none
      | some (kind, source) =>
        match readBlock? kind source out with
        | none => none
        | some (source, out) =>
          if final = 1 then some (source, out) else readBlocks? fuel source out

/-- The bytes of a stream, and the bytes after it.  Every block takes at least three bits, and
every word at least one, so there are fewer of them than bits. -/
def inflate? (bytes : List UInt8) : Option (List UInt8 × List UInt8) :=
  let source : BitSource := { bytes }
  (readBlocks? (source.size + 1) source #[]).map fun (source, out) =>
    (out.toList, source.align.bytes)

/-! ## Writing -/

/-- The greatest number of bytes that one block holds as they are. -/
def storedLimit : Nat := 65535

/-- The two bytes of a number, the low byte first. -/
def bytes16 (n : Nat) : List UInt8 := [UInt8.ofNat (n % 256), UInt8.ofNat (n / 256)]

/-- A block that holds bytes as they are. -/
def storedBlock (final : Bool) (bytes : List UInt8) : List UInt8 :=
  (if final then 1 else 0) ::
    (bytes16 bytes.length ++ bytes16 (storedLimit - bytes.length) ++ bytes)

/-- A stream of `n` full blocks and a last one. -/
def storedBlocks : Nat → List UInt8 → List UInt8
  | 0, bytes => storedBlock true bytes
  | n + 1, bytes =>
    storedBlock false (bytes.take storedLimit) ++ storedBlocks n (bytes.drop storedLimit)

/-- A stream for the given bytes.  It keeps them as they are. -/
def deflate (bytes : List UInt8) : List UInt8 :=
  storedBlocks (bytes.length / storedLimit) bytes

example : inflate? (deflate [1, 2, 3] ++ [9]) = some ([1, 2, 3], [9]) := by decide
example : (inflate? [0x63, 0x00, 0x02, 0x00]).map (·.1) = some [0, 0, 0, 0] := by decide +kernel
example : (inflate? [0x03, 0x02, 0x00]).map (·.1) = some [0, 0, 0] := by decide +kernel
example : inflate? [0x07] = none := by decide

end Deflate
end CircuitRom
