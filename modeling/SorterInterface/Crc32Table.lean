import SorterInterface.Crc32

/-! # The firmware's CRC is the host's table-driven CRC-32

Host libraries such as zlib compute CRC-32 a byte at a time from a table of 256 words: entry
`i` is eight shift steps applied to `i`, and a byte `b` takes the register `r` to
`table[(r ^ b) & 0xff] ^ (r >> 8)`.  The firmware's `crc32` runs the eight shift steps
itself.  The two agree on every register and byte (`crcByte_eq_crcTableByte`): the shift step
is linear, so eight steps of `r ^ b` are those of its low byte, which the table holds, plus
those of its high bytes, which only move down eight places.
-/

namespace SorterInterface

/-- The host's table: entry `i` is eight shift steps applied to `i`. -/
def crcTable : List (BitVec 32) :=
  (List.range 256).map fun i => crcShift^[8] (BitVec.ofNat 32 i)

/-- The table-driven byte step, `crc = table[(crc ^ b) & 0xff] ^ (crc >> 8)`. -/
def crcTableByte (crc : BitVec 32) (b : UInt8) : BitVec 32 :=
  crcTable.getD ((crc ^^^ b.toBitVec.setWidth 32) &&& 0xFF#32).toNat 0#32 ^^^ (crc >>> 8)

/-- The host's CRC-32: the same initial register and final complement as `crc32`, with the
table-driven byte step. -/
def crc32Table (data : List UInt8) : BitVec 32 :=
  ~~~(data.foldl crcTableByte 0xFFFFFFFF#32)

theorem crcTable_getD {n : Nat} (h : n < 256) :
    crcTable.getD n 0#32 = crcShift^[8] (BitVec.ofNat 32 n) := by
  simp [crcTable, List.getElem?_range h]

theorem getLsbD_0xFF (i : Nat) : (0xFF#32).getLsbD i = decide (i < 8) := by
  rw [BitVec.getLsbD_ofNat, show (0xFF : Nat) = 2 ^ 8 - 1 from rfl, Nat.testBit_two_pow_sub_one]
  by_cases h : i < 8 <;> simp [h]; omega

/-- Eight shift steps of a word: those of its low byte, and the rest moved down a byte. -/
theorem crcShift_iterate_eight (x : BitVec 32) :
    crcShift^[8] x = crcShift^[8] (x &&& 0xFF#32) ^^^ x >>> 8 := by
  have hsplit : x = (x &&& 0xFF#32) ^^^ (x &&& ~~~0xFF#32) := by
    ext i
    simp only [BitVec.getLsbD_xor, BitVec.getLsbD_and, BitVec.getLsbD_not, getLsbD_0xFF, i.isLt,
      decide_True, Bool.true_and]
    cases x.getLsbD i <;> cases decide (i.val < 8) <;> rfl
  have hlow : ∀ i < 8, (x &&& ~~~0xFF#32).getLsbD i = false := by
    intro i hi
    simp only [BitVec.getLsbD_and, BitVec.getLsbD_not, getLsbD_0xFF, hi]
    simp
  have hhigh : (x &&& ~~~0xFF#32) >>> 8 = x >>> 8 := by
    ext i
    simp only [BitVec.getLsbD_ushiftRight, BitVec.getLsbD_and, BitVec.getLsbD_not, getLsbD_0xFF]
    by_cases h : 8 + i.val < 32
    · simp [h]
    · simp [BitVec.getLsbD_ge x (8 + i.val) (by omega)]
  conv => lhs; rw [hsplit]
  rw [crcShift_iterate_xor, crcShift_iterate_of_low hlow, hhigh]

theorem byte_ushiftRight_eight (b : UInt8) : b.toBitVec.setWidth 32 >>> 8 = 0#32 := by
  ext i
  simp [BitVec.getLsbD_ge b.toBitVec (8 + i.val) (by omega)]

/-- **One byte, both ways**: the firmware's eight shift steps are the table step, for every
register and byte. -/
theorem crcByte_eq_crcTableByte (crc : BitVec 32) (b : UInt8) :
    crcByte crc b = crcTableByte crc b := by
  have hlt : ((crc ^^^ b.toBitVec.setWidth 32) &&& 0xFF#32).toNat < 256 := by
    rw [BitVec.toNat_and]; exact Nat.lt_of_le_of_lt Nat.and_le_right (by decide)
  rw [crcByte, crcShift_iterate_eight, crcTableByte, crcTable_getD hlt, BitVec.ofNat_toNat,
    BitVec.setWidth_eq, BitVec.ushiftRight_xor_distrib, byte_ushiftRight_eight, BitVec.xor_zero]

/-- **The firmware's `crc32` is the host's table-driven CRC-32**, on every buffer. -/
theorem crc32_eq_crc32Table (data : List UInt8) : crc32 data = crc32Table data := by
  rw [crc32, crc32Table, crcUpdate,
    show crcByte = crcTableByte from funext₂ crcByte_eq_crcTableByte]

end SorterInterface
