import CircuitRom.Codec.Zlib

/-!
# Packed bytes read back

Packing keeps the bytes as they are, in blocks of at most `storedLimit` bytes.  Reading takes one
block after the other, up to the one that is marked as the last.  It finds the bytes again and
leaves what follows the stream, which for a packed document is its checksum.
-/

namespace CircuitRom

/-! ## Whole bytes -/

/-- Bytes are taken from the next whole byte on. -/
theorem BitSource.bytes?_append (pending : List Bool) (bytes rest : List UInt8) :
    BitSource.bytes? bytes.length ⟨pending, bytes ++ rest⟩ = some (bytes, ⟨[], rest⟩) := by
  simp [BitSource.bytes?]

namespace Deflate

/-! ## One block -/

@[simp] theorem length_bytes16 (n : Nat) : (bytes16 n).length = 2 := rfl

/-- Two bytes hold the length of a block. -/
theorem word16_bytes16 {n : Nat} (h : n ≤ storedLimit) : word16 (bytes16 n) = n := by
  unfold storedLimit at h
  have hhigh : n / 256 < 256 := by omega
  simp only [bytes16, word16, UInt8.toNat_ofNat', Nat.reducePow]
  omega

/-- A stored block is read back up to its end, and nothing behind it is touched. -/
theorem readStored?_append (pending : List Bool) (bytes rest : List UInt8) (out : Array UInt8)
    (h : bytes.length ≤ storedLimit) :
    readStored? ⟨pending, bytes16 bytes.length ++ bytes16 (storedLimit - bytes.length) ++ bytes ++
      rest⟩ out = some (⟨[], rest⟩, out ++ bytes) := by
  have hlength := word16_bytes16 h
  have hturned := word16_bytes16 (Nat.sub_le storedLimit bytes.length)
  have hsum : bytes.length + (storedLimit - bytes.length) = 65535 := by
    unfold storedLimit at h ⊢
    omega
  have htake := fun n pending tail => BitSource.bytes?_append pending (bytes16 n) tail
  simp only [length_bytes16] at htake
  simp only [readStored?, List.append_assoc, htake, Option.bind_eq_bind, Option.bind_some, hlength,
    hturned, hsum, BitSource.bytes?_append, ne_eq, not_true_eq_false, if_false]
  rfl

/-- The first byte of a block says whether it is the last, and that it holds bytes as they are. -/
theorem number?_mark (final : Bool) (rest : List UInt8) :
    ∃ pending pending', BitSource.number? 1 ⟨[], (if final then 1 else 0) :: rest⟩ =
        some (final.toNat, ⟨pending, rest⟩) ∧
      BitSource.number? 2 ⟨pending, rest⟩ = some (0, ⟨pending', rest⟩) := by
  cases final <;> exact ⟨_, _, rfl, rfl⟩

/-- A block is taken whole, and reading goes on unless it was the last. -/
theorem readBlocks?_storedBlock (final : Bool) (bytes rest : List UInt8) (out : Array UInt8)
    (fuel : Nat) (h : bytes.length ≤ storedLimit) :
    readBlocks? (fuel + 1) ⟨[], storedBlock final bytes ++ rest⟩ out =
      if final then some (⟨[], rest⟩, out ++ bytes)
      else readBlocks? fuel ⟨[], rest⟩ (out ++ bytes) := by
  obtain ⟨pending, pending', hfinal, hkind⟩ := number?_mark final
    (bytes16 bytes.length ++ bytes16 (storedLimit - bytes.length) ++ bytes ++ rest)
  rw [storedBlock, List.cons_append, readBlocks?, hfinal]
  simp only [hkind, readBlock?, readStored?_append pending' bytes rest out h]
  cases final <;> rfl

/-! ## Streams -/

/-- The blocks of a stream are read back by as many steps.  The induction is on the number of full
blocks; what the last one holds is what they leave. -/
theorem readBlocks?_storedBlocks (rest : List UInt8) (n : Nat) :
    ∀ (bytes : List UInt8) (out : Array UInt8) (fuel : Nat), n < fuel →
      bytes.length ≤ (n + 1) * storedLimit →
      readBlocks? fuel ⟨[], storedBlocks n bytes ++ rest⟩ out = some (⟨[], rest⟩, out ++ bytes) := by
  induction n with
  | zero =>
    intro bytes out fuel hfuel hlength
    obtain ⟨fuel, rfl⟩ : ∃ k, fuel = k + 1 := ⟨fuel - 1, by omega⟩
    rw [storedBlocks, readBlocks?_storedBlock true bytes rest out fuel (by omega)]
    rfl
  | succ n ih =>
    intro bytes out fuel hfuel hlength
    obtain ⟨fuel, rfl⟩ : ∃ k, fuel = k + 1 := ⟨fuel - 1, by omega⟩
    have hfull : (bytes.take storedLimit).length ≤ storedLimit := List.length_take_le _ _
    have hleft : (bytes.drop storedLimit).length ≤ (n + 1) * storedLimit := by
      rw [List.length_drop]
      rw [Nat.add_mul, Nat.one_mul] at hlength
      omega
    have hjoin : out ++ bytes.take storedLimit ++ bytes.drop storedLimit = out ++ bytes := by
      apply Array.toList_inj.1
      simp
    rw [storedBlocks, List.append_assoc, readBlocks?_storedBlock false _ _ out fuel hfull,
      if_neg (by decide), ih _ _ _ (by omega) hleft, hjoin]

theorem lt_length_storedBlocks (n : Nat) :
    ∀ bytes : List UInt8, n < (storedBlocks n bytes).length := by
  induction n with
  | zero =>
    intro bytes
    simp [storedBlocks, storedBlock]
  | succ n ih =>
    intro bytes
    have hrest := ih (bytes.drop storedLimit)
    simp only [storedBlocks, storedBlock, List.length_append, List.length_cons]
    omega

/-- Bytes come back from their stream, together with what follows it. -/
theorem inflate?_deflate_append (bytes rest : List UInt8) :
    inflate? (deflate bytes ++ rest) = some (bytes, rest) := by
  have hlimit : 0 < storedLimit := by decide
  have hlength : bytes.length ≤ (bytes.length / storedLimit + 1) * storedLimit :=
    Nat.le_of_lt (Nat.lt_mul_of_div_lt (Nat.lt_succ_self _) hlimit)
  have hfuel : bytes.length / storedLimit <
      BitSource.size ⟨[], deflate bytes ++ rest⟩ + 1 := by
    have hblocks := lt_length_storedBlocks (bytes.length / storedLimit) bytes
    simp only [BitSource.size, deflate, List.length_nil, List.length_append]
    omega
  have hread := readBlocks?_storedBlocks rest _ bytes #[] _ hfuel hlength
  rw [← deflate] at hread
  rw [inflate?, hread]
  simp [BitSource.align]

end Deflate

/-- A packed document is unpacked to its bytes. -/
theorem Zlib.decompress?_compress (bytes : List UInt8) :
    Zlib.decompress? (Zlib.compress bytes) = some bytes := by
  have hheader : Zlib.isHeader (0x78 : UInt8).toNat (0x01 : UInt8).toNat = true := by decide
  have hchecksum : (Adler.checksum bytes).take 4 = Adler.checksum bytes := rfl
  simp only [Zlib.compress, Zlib.decompress?, hheader, Deflate.inflate?_deflate_append, hchecksum,
    Bool.not_true, Bool.false_eq_true, if_false, if_true]

end CircuitRom
