import SorterInterface.Crc32

/-! # The checksum detects every burst of up to 32 bits

A frame goes out as `appendCrc m`, a message followed by its CRC.  A corruption `e` flips the
bits of the frame where `e` has ones (`xorBytes`).  The receive path rejects the corrupted
frame when `crcMatches` fails.

The proof reads the frame a bit at a time, in the order the CRC consumes it: byte by byte,
least significant bit first (`frameBits`).  One bit goes into the register by `crcBit`, and a
byte's eight bits are exactly `crcByte` (`crcByte_eq_foldl`).  Up to 32 bits fed into a
register `r` give `r` XORed with those bits, shifted (`foldl_crcBit`).  Two facts follow:

* the check depends on the error only: the corrupted frame passes iff the register run from
  `0` over the error pattern ends at `0` (`crcMatches_xorBytes_iff`);
* over a burst, that register cannot end at `0`: leading zeros leave it at `0`, the burst
  itself leaves a nonzero word, and the trailing zeros only shift it, which is injective
  (`crcUpdate_zero_ne_zero`).
-/

namespace SorterInterface

/-- A corruption applied to a frame: the bytes XORed pairwise. -/
def xorBytes (a b : List UInt8) : List UInt8 :=
  List.zipWith (· ^^^ ·) a b

/-- The bits of a byte, least significant first. -/
def byteBits (b : UInt8) : List Bool :=
  (List.range 8).map b.toBitVec.getLsbD

/-- The bits of a frame, byte by byte, least significant bit first within a byte. -/
def frameBits (f : List UInt8) : List Bool :=
  f.flatMap byteBits

/-- A bit as a register word. -/
def bitWord (b : Bool) : BitVec 32 :=
  if b then 1#32 else 0#32

/-- One bit into the register: XORed into bit 0, then one shift step. -/
def crcBit (crc : BitVec 32) (b : Bool) : BitVec 32 :=
  crcShift (crc ^^^ bitWord b)

/-- A list of bits as a word, the first bit least significant. -/
def ofBits : List Bool → BitVec 32
  | [] => 0#32
  | b :: bs => bitWord b ^^^ (ofBits bs <<< 1)

/-! ## Bits of words -/

theorem bitWord_xor (a b : Bool) : bitWord (a ^^ b) = bitWord a ^^^ bitWord b := by
  cases a <;> cases b <;> decide

theorem getLsbD_bitWord (b : Bool) (i : Nat) : (bitWord b).getLsbD i = (decide (i = 0) && b) := by
  cases b <;> cases i <;> simp [bitWord]

theorem getLsbD_ofBits (bs : List Bool) (i : Nat) :
    (ofBits bs).getLsbD i = (decide (i < 32) && bs.getD i false) := by
  induction bs generalizing i with
  | nil => simp [ofBits]
  | cons b bs ih =>
    cases i with
    | zero => simp [ofBits, getLsbD_bitWord]
    | succ i =>
      simp only [ofBits, BitVec.getLsbD_xor, getLsbD_bitWord, BitVec.getLsbD_shiftLeft, ih]
      by_cases hi : i + 1 < 32
      · simp [hi, show i < 32 by omega]
      · simp [hi]

theorem ofBits_append (a c : List Bool) :
    ofBits (a ++ c) = ofBits a ^^^ (ofBits c <<< a.length) := by
  induction a with
  | nil => simp [ofBits, BitVec.shiftLeft_zero]
  | cons b a ih =>
    rw [List.cons_append, ofBits, ofBits, ih, BitVec.shiftLeft_xor_distrib, List.length_cons,
      BitVec.shiftLeft_add, BitVec.xor_assoc]

theorem ofBits_zipWith_xor {x y : List Bool} (h : x.length = y.length) :
    ofBits (List.zipWith xor x y) = ofBits x ^^^ ofBits y := by
  induction x generalizing y with
  | nil => cases y <;> simp_all [ofBits]
  | cons a x ih =>
    cases y with
    | nil => simp at h
    | cons b y =>
      simp only [List.zipWith_cons_cons, ofBits, bitWord_xor, ih (by simpa using h),
        BitVec.shiftLeft_xor_distrib]
      ext i
      simp only [BitVec.getLsbD_xor]
      cases (bitWord a).getLsbD i <;> cases (bitWord b).getLsbD i <;>
        cases (ofBits x <<< 1).getLsbD i <;> cases (ofBits y <<< 1).getLsbD i <;> rfl

@[simp] theorem length_byteBits (b : UInt8) : (byteBits b).length = 8 := by
  simp [byteBits]

@[simp] theorem length_frameBits (f : List UInt8) : (frameBits f).length = 8 * f.length := by
  induction f with
  | nil => rfl
  | cons b f ih => simp [frameBits, List.flatMap_cons] at *; omega

theorem ofBits_byteBits (b : UInt8) : ofBits (byteBits b) = b.toBitVec.setWidth 32 := by
  ext i
  rw [getLsbD_ofBits, BitVec.getLsbD_setWidth]
  by_cases h : i.val < 8
  · simp [byteBits, List.getElem?_range h, i.isLt]
  · simp [byteBits, BitVec.getLsbD_ge b.toBitVec i.val (by omega),
      List.getElem?_eq_none (show (List.range 8).length ≤ i.val by simpa using h)]

theorem readLe32_eq_ofBits (f : List UInt8) : readLe32 f = ofBits (frameBits f) := by
  induction f with
  | nil => rfl
  | cons b f ih =>
    rw [frameBits, List.flatMap_cons, ← frameBits, ofBits_append, ofBits_byteBits,
      length_byteBits, ← ih, BitVec.xor_comm]
    rfl

/-! ## Feeding bits to the register -/

/-- **Up to 32 bits into the register**: the register XORed with them, then one shift step
per bit. -/
theorem foldl_crcBit (crc : BitVec 32) (bs : List Bool) (h : bs.length ≤ 32) :
    bs.foldl crcBit crc = crcShift^[bs.length] (crc ^^^ ofBits bs) := by
  induction bs generalizing crc with
  | nil => simp [ofBits]
  | cons b bs ih =>
    have h31 : (ofBits bs).getLsbD 31 = false := by
      simp [getLsbD_ofBits, List.getD_eq_getElem?_getD,
        List.getElem?_eq_none (show bs.length ≤ 31 by simp at h; omega)]
    have hshift : crcShift (ofBits bs <<< 1) = ofBits bs := by
      rw [crcShift_of_getLsbD_false (by simp)]
      ext i
      by_cases hi : i.val = 31
      · simp [hi, h31]
      · simp [show 1 + i.val < 32 by omega, show ¬ 1 + i.val < 1 by omega,
          show 1 + i.val - 1 = i.val by omega]
    rw [List.foldl_cons, ih _ (by simp at h; omega), List.length_cons,
      Function.iterate_succ_apply, ofBits, ← BitVec.xor_assoc, crcShift_xor, hshift]
    rfl

/-- A bit that is `0` only shifts the register. -/
theorem foldl_crcBit_of_false (crc : BitVec 32) (bs : List Bool) (h : ∀ b ∈ bs, b = false) :
    bs.foldl crcBit crc = crcShift^[bs.length] crc := by
  induction bs generalizing crc with
  | nil => rfl
  | cons b bs ih =>
    rw [List.foldl_cons, h b (List.mem_cons_self _ _), ih _ (fun x hx => h x (by simp [hx])),
      List.length_cons, Function.iterate_succ_apply]
    simp [crcBit, bitWord]

theorem crcByte_eq_foldl (crc : BitVec 32) (b : UInt8) :
    crcByte crc b = (byteBits b).foldl crcBit crc := by
  rw [foldl_crcBit _ _ (by simp), ofBits_byteBits, length_byteBits, crcByte]

theorem crcUpdate_eq_foldl (crc : BitVec 32) (f : List UInt8) :
    crcUpdate crc f = (frameBits f).foldl crcBit crc := by
  induction f generalizing crc with
  | nil => rfl
  | cons b f ih =>
    rw [crcUpdate_cons, ih, crcByte_eq_foldl]
    simp only [frameBits, List.flatMap_cons, List.foldl_append]

/-- Four bytes into the register: the register XORed with their little-endian word, then 32
shift steps. -/
theorem crcUpdate_of_length_four (crc : BitVec 32) {c : List UInt8} (h : c.length = 4) :
    crcUpdate crc c = crcShift^[32] (crc ^^^ readLe32 c) := by
  rw [crcUpdate_eq_foldl, foldl_crcBit _ _ (by simp [h]), readLe32_eq_ofBits, length_frameBits, h]

/-! ## Linearity -/

theorem xor_eq_zero_iff {a b : BitVec 32} : a ^^^ b = 0#32 ↔ a = b := by
  refine ⟨fun h => ?_, fun h => by rw [h, BitVec.xor_self]⟩
  ext i
  simpa using congrArg (BitVec.getLsbD · i.val) h

theorem byteBits_xor (a b : UInt8) :
    byteBits (a ^^^ b) = List.zipWith xor (byteBits a) (byteBits b) := by
  rw [byteBits, byteBits, byteBits, List.zipWith_map, List.zipWith_same]
  exact List.map_congr_left fun i _ => BitVec.getLsbD_xor

theorem frameBits_xorBytes {a b : List UInt8} (h : a.length = b.length) :
    frameBits (xorBytes a b) = List.zipWith xor (frameBits a) (frameBits b) := by
  induction a generalizing b with
  | nil => cases b <;> simp_all [xorBytes, frameBits]
  | cons x a ih =>
    cases b with
    | nil => simp at h
    | cons y b =>
      have hab : a.length = b.length := by simpa using h
      have := ih hab
      simp only [xorBytes, frameBits, List.zipWith_cons_cons, List.flatMap_cons] at this ⊢
      rw [List.zipWith_append _ _ _ _ _ (by simp), byteBits_xor, this]

theorem crcBit_xor (r s : BitVec 32) (a b : Bool) :
    crcBit (r ^^^ s) (a ^^ b) = crcBit r a ^^^ crcBit s b := by
  rw [crcBit, crcBit, crcBit, ← crcShift_xor, bitWord_xor]
  congr 1
  ext i
  simp only [BitVec.getLsbD_xor]
  cases r.getLsbD i <;> cases s.getLsbD i <;> cases (bitWord a).getLsbD i <;>
    cases (bitWord b).getLsbD i <;> rfl

theorem foldl_crcBit_xor (r s : BitVec 32) {x y : List Bool} (h : x.length = y.length) :
    (List.zipWith xor x y).foldl crcBit (r ^^^ s) = x.foldl crcBit r ^^^ y.foldl crcBit s := by
  induction x generalizing y r s with
  | nil => cases y <;> simp_all
  | cons a x ih =>
    cases y with
    | nil => simp at h
    | cons b y =>
      rw [List.zipWith_cons_cons, List.foldl_cons, List.foldl_cons, List.foldl_cons, crcBit_xor,
        ih _ _ (by simpa using h)]

/-- **The register is linear**: run over two same-length buffers XORed together, from two
registers XORed together, it ends at the XOR of the two runs. -/
theorem crcUpdate_xorBytes (r s : BitVec 32) {a b : List UInt8} (h : a.length = b.length) :
    crcUpdate (r ^^^ s) (xorBytes a b) = crcUpdate r a ^^^ crcUpdate s b := by
  rw [crcUpdate_eq_foldl, crcUpdate_eq_foldl, crcUpdate_eq_foldl, frameBits_xorBytes h,
    foldl_crcBit_xor _ _ (by simp [h])]

theorem readLe32_xorBytes {a b : List UInt8} (h : a.length = b.length) :
    readLe32 (xorBytes a b) = readLe32 a ^^^ readLe32 b := by
  rw [readLe32_eq_ofBits, readLe32_eq_ofBits, readLe32_eq_ofBits, frameBits_xorBytes h,
    ofBits_zipWith_xor (by simp [h])]

theorem length_xorBytes {a b : List UInt8} (h : a.length = b.length) :
    (xorBytes a b).length = a.length := by
  simp [xorBytes, h]

theorem xor_left_cancel_iff {a b c : BitVec 32} : c ^^^ a = c ^^^ b ↔ a = b := by
  refine ⟨fun h => ?_, fun h => by rw [h]⟩
  ext i
  simpa using congrArg (BitVec.getLsbD · i.val) h

theorem crc32_xorBytes {a b : List UInt8} (h : a.length = b.length) :
    crc32 (xorBytes a b) = crc32 a ^^^ crcUpdate 0#32 b := by
  have hlin := crcUpdate_xorBytes 0xFFFFFFFF#32 0#32 h
  rw [BitVec.xor_zero] at hlin
  rw [crc32, crc32, hlin]
  ext i
  simp only [BitVec.getLsbD_not, BitVec.getLsbD_xor]
  cases (crcUpdate 0xFFFFFFFF#32 a).getLsbD i <;> cases (crcUpdate 0#32 b).getLsbD i <;> simp

/-- **The check sees only the error**: a corrupted frame passes iff the register run from `0`
over the error pattern ends at `0`, whatever the message. -/
theorem crcMatches_xorBytes_iff (m e : List UInt8) (he : e.length = m.length + 4) :
    crcMatches (xorBytes (appendCrc m) e) ↔ crcUpdate 0#32 e = 0#32 := by
  obtain ⟨e₁, e₂, rfl, h1, h2⟩ : ∃ e₁ e₂, e = e₁ ++ e₂ ∧ m.length = e₁.length ∧
      (le32 (crc32 m)).length = e₂.length :=
    ⟨e.take m.length, e.drop m.length, (List.take_append_drop _ _).symm, by simp [he],
      by simp only [length_le32, List.length_drop, he]; omega⟩
  have hsplit : xorBytes (appendCrc m) (e₁ ++ e₂) =
      xorBytes m e₁ ++ xorBytes (le32 (crc32 m)) e₂ :=
    List.zipWith_append _ _ _ _ _ h1
  have hlen : (xorBytes m e₁ ++ xorBytes (le32 (crc32 m)) e₂).length - 4 =
      (xorBytes m e₁).length := by
    simp [length_xorBytes h1, length_xorBytes h2]
  rw [crcMatches, hsplit, hlen, List.take_left, List.drop_left, crc32_xorBytes h1,
    readLe32_xorBytes h2, readLe32_le32, xor_left_cancel_iff, crcUpdate_append,
    crcUpdate_of_length_four _ (show e₂.length = 4 by simpa using h2.symm)]
  constructor
  · intro h
    rw [h, BitVec.xor_self, crcShift_iterate_zero]
  · intro h
    exact xor_eq_zero_iff.mp (crcShift_iterate_eq_zero h)

/-! ## Bursts -/

theorem true_mem_frameBits {e : List UInt8} (h : ∃ b ∈ e, b ≠ 0) : true ∈ frameBits e := by
  obtain ⟨b, hb, hne⟩ := h
  have : ∃ i < 8, b.toBitVec.getLsbD i = true := by
    refine Classical.byContradiction fun hall => hne (UInt8.eq_of_toBitVec_eq ?_)
    ext i
    cases hx : b.toBitVec.getLsbD i
    · exact (BitVec.getLsbD_zero).symm
    · exact absurd ⟨i.val, i.isLt, hx⟩ hall
  obtain ⟨i, hi, hbit⟩ := this
  exact List.mem_flatMap.mpr ⟨b, hb, List.mem_map.mpr ⟨i, List.mem_range.mpr hi, hbit⟩⟩

/-- **Over a burst, the register run from `0` does not end at `0`.**  The bits before the
burst leave it at `0`, the burst leaves it at its own nonzero word shifted, and the bits after
it shift it further. -/
theorem crcUpdate_zero_ne_zero (e : List UInt8) (hnz : true ∈ frameBits e) (p : Nat)
    (hp : ∀ i < (frameBits e).length, (frameBits e).getD i false = true → p ≤ i ∧ i < p + 32) :
    crcUpdate 0#32 e ≠ 0#32 := by
  have hbit : ∀ i (h : i < (frameBits e).length), (frameBits e)[i] = true → p ≤ i ∧ i < p + 32 :=
    fun i h hi => hp i h (by simp [List.getD_eq_getElem?_getD, List.getElem?_eq_getElem h, hi])
  have hpre : ∀ b ∈ (frameBits e).take p, b = false := by
    intro b hb
    obtain ⟨i, hi, rfl⟩ := List.mem_iff_getElem.mp hb
    rw [List.getElem_take]
    simp only [List.length_take] at hi
    cases hx : (frameBits e)[i] with
    | false => rfl
    | true => have := hbit i (by omega) hx; omega
  have hpost : ∀ b ∈ ((frameBits e).drop p).drop 32, b = false := by
    intro b hb
    obtain ⟨i, hi, rfl⟩ := List.mem_iff_getElem.mp hb
    simp only [List.getElem_drop, List.length_drop] at hi ⊢
    cases hx : (frameBits e)[p + (32 + i)] with
    | false => rfl
    | true => have := hbit _ (by omega) hx; omega
  have hmid : ofBits (((frameBits e).drop p).take 32) ≠ 0#32 := by
    obtain ⟨i, hi, hx⟩ := List.mem_iff_getElem.mp hnz
    obtain ⟨hpi, hip⟩ := hbit i hi hx
    intro h0
    have := congrArg (BitVec.getLsbD · (i - p)) h0
    simp only [getLsbD_ofBits, BitVec.getLsbD_zero, List.getD_eq_getElem?_getD,
      List.getElem?_take, List.getElem?_drop] at this
    simp [show i - p < 32 by omega, show p + (i - p) = i by omega,
      List.getElem?_eq_getElem hi, hx] at this
  intro h
  rw [crcUpdate_eq_foldl, ← List.take_append_drop p (frameBits e),
    ← List.take_append_drop 32 ((frameBits e).drop p), List.foldl_append, List.foldl_append,
    foldl_crcBit_of_false _ _ hpre, crcShift_iterate_zero, foldl_crcBit_of_false _ _ hpost,
    foldl_crcBit 0#32 _ (by simp [Nat.min_le_left]), BitVec.zero_xor] at h
  exact hmid (crcShift_iterate_eq_zero (crcShift_iterate_eq_zero h))

/-- **Every burst of up to 32 bits is detected.**  Corrupt the frame `appendCrc m` that the
transmit path builds by any nonzero error pattern `e` whose set bits lie within 32 consecutive
positions of the frame: the receive path's check rejects it. -/
theorem crc32_detects_burst (m e : List UInt8) (he : e.length = m.length + 4)
    (hnz : ∃ b ∈ e, b ≠ 0)
    (hburst : ∃ p, ∀ i < (frameBits e).length,
      (frameBits e).getD i false = true → p ≤ i ∧ i < p + 32) :
    ¬ crcMatches (xorBytes (appendCrc m) e) := by
  obtain ⟨p, hp⟩ := hburst
  rw [crcMatches_xorBytes_iff m e he]
  exact crcUpdate_zero_ne_zero e (true_mem_frameBits hnz) p hp

/-- A single bit flipped in the address byte of a PING frame is caught. -/
theorem crc32_detects_address_bit_flip :
    ¬ crcMatches (xorBytes (appendCrc [0x00, 0x02, 0x00, 0x00]) [1, 0, 0, 0, 0, 0, 0, 0]) :=
  crc32_detects_burst _ _ rfl ⟨1, by decide, by decide⟩ ⟨0, by decide⟩

end SorterInterface
