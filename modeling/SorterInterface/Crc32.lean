import Mathlib.Logic.Function.Iterate

/-! # The CRC-32 of the firmware

`crc32` (lines 45–61) runs a 32-bit register over the bytes of a buffer: each byte is XORed
into the low byte of the register, and the register then takes eight shift steps, each XORing
in the reflected polynomial `0xEDB88320` when the bit shifted out was set; the result is
complemented.  The transmit path appends the CRC of a response as four little-endian bytes
(`appendCrc`, lines 576–581), and the receive path compares the CRC of a decoded frame with
its last four bytes (`crcMatches`, lines 306–310).

A shift step is linear over XOR (`crcShift_xor`) and injective (`crcShift_injective`), and a
word whose low bits are clear only moves down through it (`crcShift_iterate_of_low`).  The
table-driven form (`Crc32Table`) and the burst-error guarantee (`Crc32Burst`) rest on these
three facts.
-/

namespace SorterInterface

/-- One iteration of the inner loop of `crc32`: if `crc & 1`, shift and XOR in the
polynomial, else only shift. -/
def crcShift (crc : BitVec 32) : BitVec 32 :=
  if crc.getLsbD 0 then (crc >>> 1) ^^^ 0xEDB88320#32 else crc >>> 1

/-- One iteration of the outer loop: `crc ^= data[i]`, then eight shift steps. -/
def crcByte (crc : BitVec 32) (b : UInt8) : BitVec 32 :=
  crcShift^[8] (crc ^^^ b.toBitVec.setWidth 32)

/-- The register after the bytes `data`, starting from `crc`. -/
def crcUpdate (crc : BitVec 32) (data : List UInt8) : BitVec 32 :=
  data.foldl crcByte crc

/-- `crc32(data, length)`: the register starts at `0xFFFFFFFF` and is complemented at the
end. -/
def crc32 (data : List UInt8) : BitVec 32 :=
  ~~~(crcUpdate 0xFFFFFFFF#32 data)

/-- The four bytes of a word in the memory order of the little-endian RP2040, as
`memcpy(tx_message + resp_len, &crc, sizeof(crc))` copies them. -/
def le32 (w : BitVec 32) : List UInt8 :=
  [⟨w.extractLsb' 0 8⟩, ⟨w.extractLsb' 8 8⟩, ⟨w.extractLsb' 16 8⟩, ⟨w.extractLsb' 24 8⟩]

/-- The word stored little-endian in the first four bytes of `bs`, as
`memcpy(&incoming_crc, ..., 4)` and the dispatcher's `*((uint32_t*) ...)` read it.  Bytes
past the fourth are shifted out. -/
def readLe32 (bs : List UInt8) : BitVec 32 :=
  bs.foldr (fun b w => (w <<< 8) ^^^ b.toBitVec.setWidth 32) 0#32

/-- The transmit path: a message followed by its CRC. -/
def appendCrc (r : List UInt8) : List UInt8 :=
  r ++ le32 (crc32 r)

/-- The receive path's integrity check on a decoded frame: the CRC of all but its last four
bytes equals the little-endian word in those four. -/
def crcMatches (d : List UInt8) : Prop :=
  crc32 (d.take (d.length - 4)) = readLe32 (d.drop (d.length - 4))

instance (d : List UInt8) : Decidable (crcMatches d) :=
  inferInstanceAs (Decidable (_ = _))

/-! ## The shift step -/

theorem crcShift_of_getLsbD_false {x : BitVec 32} (h : x.getLsbD 0 = false) :
    crcShift x = x >>> 1 := by
  simp [crcShift, h]

theorem crcShift_xor (a b : BitVec 32) : crcShift (a ^^^ b) = crcShift a ^^^ crcShift b := by
  ext i
  simp only [crcShift, BitVec.getLsbD_xor]
  cases a.getLsbD 0 <;> cases b.getLsbD 0 <;>
    simp only [Bool.false_xor, Bool.xor_false, Bool.true_xor, Bool.not_true, if_true, if_false,
      Bool.false_eq_true, BitVec.getLsbD_xor, BitVec.getLsbD_ushiftRight] <;>
    cases a.getLsbD (1 + i) <;> cases b.getLsbD (1 + i) <;> simp

@[simp] theorem crcShift_zero : crcShift 0#32 = 0#32 := by decide

/-- Only `0` shifts to `0`: bit 31 of a shifted word is the bit shifted out, since the
polynomial has its top bit set. -/
theorem crcShift_eq_zero {x : BitVec 32} (h : crcShift x = 0#32) : x = 0#32 := by
  cases hx : x.getLsbD 0
  · rw [crcShift_of_getLsbD_false hx] at h
    ext i
    rcases Nat.eq_zero_or_pos i.val with h0 | hpos
    · simp [h0, hx]
    · have := congrArg (BitVec.getLsbD · (i.val - 1)) h
      simp only [BitVec.getLsbD_ushiftRight, BitVec.getLsbD_zero] at this
      rw [show 1 + (i.val - 1) = i.val by omega] at this
      simpa using this
  · have := congrArg (BitVec.getLsbD · 31) h
    simp [crcShift, hx] at this

theorem crcShift_injective : Function.Injective crcShift := by
  intro x y h
  have hz := crcShift_eq_zero (show crcShift (x ^^^ y) = 0#32 by
    rw [crcShift_xor, h, BitVec.xor_self])
  ext i
  simpa using congrArg (BitVec.getLsbD · i.val) hz

theorem crcShift_iterate_xor (n : Nat) (a b : BitVec 32) :
    crcShift^[n] (a ^^^ b) = crcShift^[n] a ^^^ crcShift^[n] b := by
  induction n generalizing a b with
  | zero => rfl
  | succ n ih => simp only [Function.iterate_succ_apply, crcShift_xor, ih]

@[simp] theorem crcShift_iterate_zero (n : Nat) : crcShift^[n] 0#32 = 0#32 :=
  Function.iterate_fixed crcShift_zero n

theorem crcShift_iterate_eq_zero {n : Nat} {x : BitVec 32} (h : crcShift^[n] x = 0#32) :
    x = 0#32 :=
  crcShift_injective.iterate n (h.trans (crcShift_iterate_zero n).symm)

/-- A word whose low `k` bits are clear only moves down through `k` shift steps. -/
theorem crcShift_iterate_of_low {k : Nat} {x : BitVec 32} (h : ∀ i < k, x.getLsbD i = false) :
    crcShift^[k] x = x >>> k := by
  induction k with
  | zero => simp [BitVec.ushiftRight_zero]
  | succ k ih =>
    rw [Function.iterate_succ_apply', ih (fun i hi => h i (by omega)),
      crcShift_of_getLsbD_false (by simpa using h k (by omega)), BitVec.shiftRight_add]

/-! ## The register over a buffer -/

@[simp] theorem crcUpdate_nil (crc : BitVec 32) : crcUpdate crc [] = crc := rfl

@[simp] theorem crcUpdate_cons (crc : BitVec 32) (b : UInt8) (data : List UInt8) :
    crcUpdate crc (b :: data) = crcUpdate (crcByte crc b) data := rfl

theorem crcUpdate_append (crc : BitVec 32) (a b : List UInt8) :
    crcUpdate crc (a ++ b) = crcUpdate (crcUpdate crc a) b :=
  List.foldl_append _ _ _ _

/-- The reference vector of the specification: the CRC of the ASCII digits `"123456789"`. -/
example : crc32 [0x31, 0x32, 0x33, 0x34, 0x35, 0x36, 0x37, 0x38, 0x39] = 0xCBF43926#32 := by
  set_option maxRecDepth 20000 in decide

/-! ## The checksum on the wire -/

theorem readLe32_le32 (w : BitVec 32) : readLe32 (le32 w) = w := by
  ext i
  have hi := i.isLt
  simp only [readLe32, le32, List.foldr, BitVec.getLsbD_xor, BitVec.getLsbD_shiftLeft,
    BitVec.getLsbD_setWidth, BitVec.getLsbD_extractLsb', BitVec.getLsbD_zero, Nat.sub_sub]
  by_cases h8 : i.val < 8
  · simp (disch := omega) only [decide_eq_true, decide_eq_false, Nat.zero_add]; simp
  by_cases h16 : i.val < 16
  · simp (disch := omega) only [decide_eq_true, decide_eq_false, Nat.add_sub_cancel']; simp
  by_cases h24 : i.val < 24
  · simp (disch := omega) only [decide_eq_true, decide_eq_false, Nat.add_sub_cancel']; simp
  · simp (disch := omega) only [decide_eq_true, decide_eq_false, Nat.add_sub_cancel']; simp

@[simp] theorem length_le32 (w : BitVec 32) : (le32 w).length = 4 := rfl

@[simp] theorem length_appendCrc (r : List UInt8) : (appendCrc r).length = r.length + 4 := by
  simp [appendCrc]

/-- **What the transmit path builds, the receive path accepts.** -/
theorem crcMatches_appendCrc (r : List UInt8) : crcMatches (appendCrc r) := by
  simp [crcMatches, appendCrc, readLe32_le32]

end SorterInterface
