import SorterInterface.Crc32Table
import SorterInterface.Crc32Burst

/-! # CRC-32/ISO-HDLC by polynomial division

The CRC-32 of the catalogues (CRC-32/ISO-HDLC, the CRC of zlib and Ethernet) is defined by
division of polynomials over GF(2).  The message's bits, each byte least significant bit
first, are the coefficients of a polynomial `M(x)` of degree `n - 1`, highest degree first;
the check is the remainder of `x^32 M(x) + x^n (x^31 + ... + 1)` modulo the generator
`x^32 + 0x04C11DB7`, its bits reflected and complemented.  `polyRem` is schoolbook long
division by `x^32 + g`, and `crc32IsoHdlc` the check so defined; the firmware's `crc32` is this
check on every message (`crc32_eq_crc32IsoHdlc`).

The firmware's register runs the same division in another shape.  It is reflected, so that the
generator reads `0xEDB88320` and the remainder shifts right (`reflect32_divStep`).  It does
without the 32 zero coefficients of `x^32 M(x)`: 32 steps after a coefficient enters at the top
of the reflected remainder it has reached the bottom, where the register takes its bits in at
once (`crcShift_iterate_shiftIn`).  And its initial all-ones register is the
`x^n (x^31 + ... + 1)` term (`foldl_crcBit_allOnes`).
-/

namespace SorterInterface

/-- One step of long division by `x^32 + g` over GF(2), `r` holding the remainder (the
coefficient of `x^i` in bit `i`): the remainder times `x`, plus the next coefficient; when that
reaches degree 32 the divisor is subtracted. -/
def divStep (g r : BitVec 32) (b : Bool) : BitVec 32 :=
  if r.msb then ((r <<< 1) ^^^ bitWord b) ^^^ g else (r <<< 1) ^^^ bitWord b

/-- The remainder modulo `x^32 + g` of the polynomial whose coefficients, highest degree first,
are `bs`. -/
def polyRem (g : BitVec 32) (bs : List Bool) : BitVec 32 :=
  bs.foldl (divStep g) 0#32

/-- A word with its 32 bits in reverse order. -/
def reflect32 (w : BitVec 32) : BitVec 32 :=
  ofBits ((List.range 32).map fun i => w.getLsbD (31 - i))

/-- CRC-32/ISO-HDLC as the catalogues define it: the remainder of
`x^32 M(x) + x^n (x^31 + ... + 1)` modulo `x^32 + 0x04C11DB7`, reflected and complemented,
where `M(x)` has the message's bits as coefficients, highest degree first. -/
def crc32IsoHdlc (data : List UInt8) : BitVec 32 :=
  ~~~(reflect32 (polyRem 0x04C11DB7#32
    (List.zipWith xor (frameBits data ++ List.replicate 32 false)
      (List.replicate 32 true ++ List.replicate (8 * data.length) false))))

/-- The check value of the catalogues. -/
example : crc32IsoHdlc [0x31, 0x32, 0x33, 0x34, 0x35, 0x36, 0x37, 0x38, 0x39] = 0xCBF43926#32 := by
  set_option maxRecDepth 20000 in decide

/-- One step of the reflected division: a shift step of the register, with the next coefficient
entering at the top. -/
def shiftIn (q : BitVec 32) (b : Bool) : BitVec 32 :=
  crcShift q ^^^ reflect32 (bitWord b)

/-! ## Reflection -/

theorem getLsbD_reflect32 (w : BitVec 32) (i : Nat) :
    (reflect32 w).getLsbD i = (decide (i < 32) && w.getLsbD (31 - i)) := by
  by_cases hi : i < 32
  · simp [reflect32, getLsbD_ofBits, hi, List.getElem?_range hi]
  · simp [reflect32, getLsbD_ofBits, hi]

theorem reflect32_xor (a b : BitVec 32) : reflect32 (a ^^^ b) = reflect32 a ^^^ reflect32 b := by
  ext i
  simp [getLsbD_reflect32]

theorem reflect32_shiftLeft_one (r : BitVec 32) : reflect32 (r <<< 1) = reflect32 r >>> 1 := by
  ext i
  simp only [getLsbD_reflect32, BitVec.getLsbD_shiftLeft, BitVec.getLsbD_ushiftRight]
  by_cases h : i.val < 31
  · simp [h, show 1 + i.val < 32 by omega, show 31 - (1 + i.val) = 31 - i.val - 1 by omega,
      show 31 - i.val < 32 by omega, show 31 - i.val ≠ 0 by omega]
  · simp [show i.val = 31 by omega]

theorem getLsbD_zero_reflect32 (r : BitVec 32) : (reflect32 r).getLsbD 0 = r.msb := by
  simp [getLsbD_reflect32, BitVec.msb_eq_getLsbD_last]

/-- **The division, reflected, is the firmware's shift step**: the generator `0x04C11DB7`
reflected is `0xEDB88320`, and the remainder shifts right. -/
theorem reflect32_divStep (r : BitVec 32) (b : Bool) :
    reflect32 (divStep 0x04C11DB7#32 r b) = shiftIn (reflect32 r) b := by
  have hg : reflect32 0x04C11DB7#32 = 0xEDB88320#32 := by decide
  rw [divStep, shiftIn, crcShift, getLsbD_zero_reflect32]
  cases r.msb with
  | false => simp only [Bool.false_eq_true, if_false, reflect32_xor, reflect32_shiftLeft_one]
  | true => simp only [if_true, reflect32_xor, reflect32_shiftLeft_one, hg]; ac_rfl

theorem reflect32_foldl_divStep (r : BitVec 32) (bs : List Bool) :
    reflect32 (bs.foldl (divStep 0x04C11DB7#32) r) = bs.foldl shiftIn (reflect32 r) := by
  induction bs generalizing r with
  | nil => rfl
  | cons b bs ih => rw [List.foldl_cons, ih, reflect32_divStep, List.foldl_cons]

/-! ## Without the appended zeros -/

theorem shiftIn_false (q : BitVec 32) : shiftIn q false = crcShift q := by
  simp [shiftIn, show reflect32 (bitWord false) = 0#32 by decide]

theorem foldl_shiftIn_replicate_false (q : BitVec 32) (k : Nat) :
    (List.replicate k false).foldl shiftIn q = crcShift^[k] q := by
  induction k generalizing q with
  | zero => rfl
  | succ k ih => rw [List.replicate_succ, List.foldl_cons, shiftIn_false, ih]; rfl

/-- A coefficient entering at the top of the reflected remainder reaches the bottom 31 steps
later, where the register takes it in. -/
theorem crcShift_iterate_shiftIn (q : BitVec 32) (b : Bool) :
    crcShift^[32] (shiftIn q b) = crcBit (crcShift^[32] q) b := by
  have htop : crcShift^[31] (reflect32 (bitWord b)) = bitWord b := by
    rw [crcShift_iterate_of_low fun i hi => by simp [getLsbD_reflect32, getLsbD_bitWord]; omega]
    cases b <;> decide
  calc crcShift^[32] (shiftIn q b)
      = crcShift (crcShift^[32] q) ^^^ crcShift (crcShift^[31] (reflect32 (bitWord b))) := by
        rw [shiftIn, crcShift_iterate_xor, ← Function.iterate_succ_apply,
          Function.iterate_succ_apply' _ 32, Function.iterate_succ_apply' _ 31 (reflect32 _)]
    _ = crcBit (crcShift^[32] q) b := by rw [htop, crcBit, crcShift_xor]

theorem crcShift_iterate_foldl_shiftIn (q : BitVec 32) (bs : List Bool) :
    crcShift^[32] (bs.foldl shiftIn q) = bs.foldl crcBit (crcShift^[32] q) := by
  induction bs generalizing q with
  | nil => rfl
  | cons b bs ih => rw [List.foldl_cons, ih, crcShift_iterate_shiftIn, List.foldl_cons]

theorem shiftIn_xor (q q' : BitVec 32) (a b : Bool) :
    shiftIn (q ^^^ q') (a ^^ b) = shiftIn q a ^^^ shiftIn q' b := by
  rw [shiftIn, shiftIn, shiftIn, crcShift_xor, bitWord_xor, reflect32_xor]
  ac_rfl

theorem foldl_shiftIn_xor (q q' : BitVec 32) {x y : List Bool} (h : x.length = y.length) :
    (List.zipWith xor x y).foldl shiftIn (q ^^^ q') = x.foldl shiftIn q ^^^ y.foldl shiftIn q' := by
  induction x generalizing y q q' with
  | nil => cases y <;> simp_all
  | cons a x ih =>
    cases y with
    | nil => simp at h
    | cons b y =>
      rw [List.zipWith_cons_cons, List.foldl_cons, List.foldl_cons, List.foldl_cons, shiftIn_xor,
        ih _ _ (by simpa using h)]

/-! ## The initial register -/

theorem zipWith_xor_replicate_false (m : List Bool) :
    List.zipWith xor m (List.replicate m.length false) = m := by
  induction m with
  | nil => rfl
  | cons b m ih => simp [List.replicate_succ, ih]

/-- The all-ones register is the `x^n (x^31 + ... + 1)` term: it adds `crcShift^[n]` of
itself to a run from `0`. -/
theorem foldl_crcBit_allOnes (m : List Bool) :
    m.foldl crcBit 0xFFFFFFFF#32 = m.foldl crcBit 0#32 ^^^ crcShift^[m.length] 0xFFFFFFFF#32 := by
  have h := foldl_crcBit_xor 0#32 0xFFFFFFFF#32 (List.length_replicate m.length false).symm
  rwa [zipWith_xor_replicate_false, BitVec.zero_xor,
    foldl_crcBit_of_false _ (List.replicate m.length false) fun _ => List.eq_of_mem_replicate,
    List.length_replicate] at h

/-- **The firmware's CRC is CRC-32/ISO-HDLC**, the remainder of polynomial division by
`0x04C11DB7`, reflected, with initial and final complement. -/
theorem crc32_eq_crc32IsoHdlc (data : List UInt8) : crc32 data = crc32IsoHdlc data := by
  have hones : (List.replicate 32 true).foldl shiftIn 0#32 = 0xFFFFFFFF#32 := by
    set_option maxRecDepth 4000 in decide
  rw [crc32IsoHdlc, polyRem, reflect32_foldl_divStep, show reflect32 0#32 = 0#32 by decide,
    ← BitVec.xor_self (x := 0#32), foldl_shiftIn_xor _ _ (by simp), List.foldl_append,
    List.foldl_append, foldl_shiftIn_replicate_false, foldl_shiftIn_replicate_false,
    crcShift_iterate_foldl_shiftIn, crcShift_iterate_zero, hones, ← length_frameBits,
    ← foldl_crcBit_allOnes, ← crcUpdate_eq_foldl, crc32]

/-- **The firmware's CRC is the standard CRC-32**, in both of its usual definitions: the
host's table-driven byte step and the catalogues' polynomial division. -/
theorem crc32_standard (data : List UInt8) :
    crc32 data = crc32Table data ∧ crc32 data = crc32IsoHdlc data :=
  ⟨crc32_eq_crc32Table data, crc32_eq_crc32IsoHdlc data⟩

end SorterInterface
