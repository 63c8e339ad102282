import Mathlib.Data.List.Basic

/-! # The frame codec

`main` frames its messages with `COBS_encode` and `COBS_decode` of `cobs.h`, which is not in
the repository.  Both are modelled here from the specification (§4.2): zero-elimination byte
stuffing, in which the input is cut at its zero bytes and each run between zeros is written
after a length byte, so that the encoding holds no zero and the zero byte can delimit frames on
the wire.  A run of 254 nonzero bytes is written with the length byte `0xFF` and is not
followed by a zero.

The specification says both that the encoding holds the terminator "nowhere except as the final
delimiter" and that the terminator "is never part of either buffer passed to encode/decode".
The model takes the second reading: `cobsEncode` writes no delimiter of its own, and `main`
writes none after the frame either.  The bounds of the later modules rest on it: a message of
`n ≤ 254` bytes encodes into `n + 1` bytes, so a request or a response of at most 250 bytes, with
its four CRC bytes, fills at most the 255 bytes of `rx_buffer` and `tx_buffer`, and a run of at
most 255 stuffed bytes decodes into at most the 254 bytes of `rx_message`.

Both are written as byte-at-a-time loops, as C implementations of the codec are, so that they
evaluate on concrete frames.  What `main` relies on is proved here: a run of at most 255
stuffed bytes decodes, if at all, to one byte fewer (`cobsDecode_length`), and a message of at
most 254 bytes always encodes into the 255-byte `tx_buffer` (`cobsEncode_isSome`).  The
encoding holds no zero (`ne_zero_of_mem_encodeFrom`) and decodes back to the message
(`cobsDecode_encodeFrom`).
-/

namespace SorterInterface

/-- Decoding inside a block: `block` more data bytes of the current block are expected, and
`code` is the length byte that opened it. -/
def decodeFrom (block code : Nat) : List UInt8 → Option (List UInt8)
  | [] => if block = 0 then some [] else none
  | b :: rest =>
    if block = 0 then
      if b = 0 then none
      else (decodeFrom (b.toNat - 1) b.toNat rest).map fun d => if code = 0xFF then d else 0 :: d
    else (decodeFrom (block - 1) code rest).map (b :: ·)

/-- Modelled from the spec: `COBS_decode(src, len, dst, dst_size)`, whose source is not in the
repository.  It fails (a negative result in the C code) when a length byte points past the end
of the input, when the input holds a zero, or when the decoded bytes would not fit in
`dst_size`. -/
def cobsDecode (src : List UInt8) (dstSize : Nat) : Option (List UInt8) :=
  match src with
  | [] => some []
  | c :: rest =>
    if c = 0 then none
    else match decodeFrom (c.toNat - 1) c.toNat rest with
      | some d => if d.length ≤ dstSize then some d else none
      | none => none

/-- Encoding with an open block `blk` of nonzero bytes, not yet written. -/
def encodeFrom (blk : List UInt8) : List UInt8 → List UInt8
  | [] => (blk.length + 1).toUInt8 :: blk
  | b :: rest =>
    if b = 0 then ((blk.length + 1).toUInt8 :: blk) ++ encodeFrom [] rest
    else if blk.length = 253 then
      (0xFF :: (blk ++ [b])) ++ (if rest = [] then [] else encodeFrom [] rest)
    else encodeFrom (blk ++ [b]) rest

/-- Modelled from the spec: `COBS_encode(src, len, dst, dst_size)`, whose source is not in the
repository.  It fails when the encoding would not fit in `dst_size` bytes. -/
def cobsEncode (src : List UInt8) (dstSize : Nat) : Option (List UInt8) :=
  if (encodeFrom [] src).length ≤ dstSize then some (encodeFrom [] src) else none

/-! ## Lengths -/

/-- Inside a block, each byte decodes to one byte, as long as no length byte follows a block
of `0xFF`: the bound says a `0xFF` block is the last one. -/
theorem decodeFrom_length {block code : Nat} {x d : List UInt8}
    (h : decodeFrom block code x = some d)
    (hx : x.length + (if code = 0xFF then 254 - block else 0) ≤ 254) :
    d.length = x.length := by
  induction x generalizing block code d with
  | nil =>
    simp only [decodeFrom] at h
    split at h <;> simp_all
  | cons b rest ih =>
    simp only [decodeFrom] at h
    split at h
    · split at h
      · cases h
      · obtain ⟨d', hd', rfl⟩ := Option.map_eq_some'.mp h
        have hcode : code ≠ 0xFF := by rintro rfl; simp at hx; omega
        have := ih hd' (by split <;> simp at hx ⊢ <;> omega)
        simp [hcode, this]
    · obtain ⟨d', hd', rfl⟩ := Option.map_eq_some'.mp h
      have := ih hd' (by split <;> simp_all <;> omega)
      simp [this]

/-- **A run of at most 255 stuffed bytes decodes to one byte fewer.** -/
theorem cobsDecode_length {src d : List UInt8} {dstSize : Nat} (h : cobsDecode src dstSize = some d)
    (hsrc : src ≠ []) (hlen : src.length ≤ 255) : d.length + 1 = src.length := by
  match src, h with
  | c :: rest, h =>
    simp only [cobsDecode] at h
    split at h
    · cases h
    · split at h
      · split at h
        · cases h
          rename_i d' hd' _
          have := decodeFrom_length hd' (by split <;> simp at hlen ⊢ <;> omega)
          simp [this]
        · cases h
      · cases h

theorem cobsDecode_length_le {src d : List UInt8} {dstSize : Nat}
    (h : cobsDecode src dstSize = some d) : d.length ≤ dstSize := by
  unfold cobsDecode at h
  split at h
  · cases h; simp
  · split at h
    · cases h
    · split at h
      · split at h
        · cases h; assumption
        · cases h
      · cases h

/-- An open block of `k` bytes and `n` more input bytes, `k + n ≤ 254`, encode into
`k + n + 1` bytes: one length byte per block, and each zero of the input is replaced by the
next block's length byte. -/
theorem length_encodeFrom (blk x : List UInt8) (h : blk.length + x.length ≤ 254) :
    (encodeFrom blk x).length = blk.length + x.length + 1 := by
  induction x generalizing blk with
  | nil => simp [encodeFrom]
  | cons b rest ih =>
    simp only [encodeFrom]
    split
    · simp [ih [] (by simp at h ⊢; omega)]
    · split
      · have : rest = [] := List.eq_nil_of_length_eq_zero (by simp at h; omega)
        subst this
        simp_all
      · rw [ih _ (by simp at h ⊢; omega)]
        simp; omega

/-- **A message of at most 254 bytes always encodes into a buffer of 255.** -/
theorem cobsEncode_isSome {src : List UInt8} (h : src.length ≤ 254) :
    cobsEncode src 255 = some (encodeFrom [] src) := by
  rw [cobsEncode, if_pos (by rw [length_encodeFrom [] src (by simpa using h)]; simp; omega)]

/-! ## Round trip -/

theorem toNat_toUInt8_of_lt {n : Nat} (h : n < 256) : n.toUInt8.toNat = n := by
  simp [Nat.toUInt8, UInt8.toNat, UInt8.ofNat, Fin.ofNat, Nat.mod_eq_of_lt h]

theorem toUInt8_succ_ne_zero {n : Nat} (h : n < 255) : (n + 1).toUInt8 ≠ 0 := fun h0 => by
  simpa [h0] using toNat_toUInt8_of_lt (show n + 1 < 256 by omega)

/-- The bytes of a block are copied as they are. -/
theorem decodeFrom_append (code : Nat) (blk rest : List UInt8) :
    decodeFrom blk.length code (blk ++ rest) = (decodeFrom 0 code rest).map (blk ++ ·) := by
  induction blk with
  | nil => simp
  | cons b blk ih => simp [decodeFrom, ih, Option.map_map, Function.comp_def]

theorem decodeFrom_block (code : Nat) (blk : List UInt8) :
    decodeFrom blk.length code blk = some blk := by
  simpa [decodeFrom] using decodeFrom_append code blk []

/-- A length byte opening a block of `n < 255` bytes: a zero is restored in front of the block
unless the previous block was a full one. -/
theorem decodeFrom_code {n code : Nat} (h : n < 255) (rest : List UInt8) :
    decodeFrom 0 code ((n + 1).toUInt8 :: rest) =
      (decodeFrom n (n + 1) rest).map ((if code = 0xFF then [] else [0]) ++ ·) := by
  simp only [decodeFrom, if_true, toUInt8_succ_ne_zero h, if_false,
    toNat_toUInt8_of_lt (show n + 1 < 256 by omega), Nat.add_sub_cancel]
  split <;> simp

/-- Decoding undoes encoding, block by block: `blk` is the open block of the encoder, `code`
the length byte of the block the decoder closed last. -/
theorem decodeFrom_encodeFrom (blk x : List UInt8) (code : Nat) (hblk : ∀ b ∈ blk, b ≠ 0)
    (hlen : blk.length ≤ 253) :
    decodeFrom 0 code (encodeFrom blk x) = some ((if code = 0xFF then [] else [0]) ++ blk ++ x) := by
  induction x generalizing blk code with
  | nil =>
    simp [encodeFrom, decodeFrom_code (show blk.length < 255 by omega), decodeFrom_block]
  | cons b rest ih =>
    simp only [encodeFrom]
    split
    · -- a zero closes the open block
      subst b
      rw [List.cons_append, decodeFrom_code (by omega), decodeFrom_append,
        ih [] _ (by simp) (by simp)]
      simp [show blk.length + 1 ≠ 255 by omega]
    · split
      · -- the block is full: it is closed by `0xFF`, with no zero restored after it
        have hfull := decodeFrom_append (254 + 1) (blk ++ [b])
          (if rest = [] then [] else encodeFrom [] rest)
        rw [show (blk ++ [b]).length = 254 by simp; omega] at hfull
        have htail : decodeFrom 0 (254 + 1) (if rest = [] then [] else encodeFrom [] rest) =
            some rest := by
          split
          · simp [decodeFrom, *]
          · simpa using ih [] (254 + 1) (by simp) (by simp)
        rw [List.cons_append, show (0xFF : UInt8) = (254 + 1 : Nat).toUInt8 by decide,
          decodeFrom_code (by omega), hfull, htail]
        simp
      · rw [ih (blk ++ [b]) code (by simpa [or_imp, forall_and, ‹¬b = 0›] using hblk)
          (by simp; omega)]
        simp

theorem encodeFrom_ne_nil (blk x : List UInt8) : encodeFrom blk x ≠ [] := by
  induction x generalizing blk with
  | nil => simp [encodeFrom]
  | cons b rest ih =>
    simp only [encodeFrom]
    split
    · simp
    · split
      · simp
      · exact ih _

/-- **The encoding holds no zero byte**, so that zero can delimit frames. -/
theorem ne_zero_of_mem_encodeFrom {blk x : List UInt8} (hblk : ∀ b ∈ blk, b ≠ 0)
    (hlen : blk.length ≤ 253) : ∀ c ∈ encodeFrom blk x, c ≠ 0 := by
  induction x generalizing blk with
  | nil =>
    simpa [encodeFrom, toUInt8_succ_ne_zero (show blk.length < 255 by omega)] using hblk
  | cons b rest ih =>
    have hrest := @ih [] (by simp) (by simp)
    simp only [encodeFrom]
    split
    · simpa [or_imp, forall_and, toUInt8_succ_ne_zero (show blk.length < 255 by omega)]
        using And.intro hblk hrest
    · split
      · split <;> simp_all [or_imp, forall_and]
      · exact ih (by simpa [or_imp, forall_and, ‹¬b = 0›] using hblk) (by simp; omega)

/-- Decoding from the first length byte on, as `COBS_decode` does, is decoding after a full
block: no zero is restored in front. -/
theorem cobsDecode_eq_bind {src : List UInt8} (h : src ≠ []) (dstSize : Nat) :
    cobsDecode src dstSize =
      (decodeFrom 0 0xFF src).bind fun d => if d.length ≤ dstSize then some d else none := by
  match src, h with
  | c :: rest, _ =>
    simp only [cobsDecode, decodeFrom, if_true]
    split
    · rfl
    · cases decodeFrom (c.toNat - 1) c.toNat rest <;> simp

/-- **Decoding undoes encoding**: a message decodes back from its encoding into any buffer
with room for it. -/
theorem cobsDecode_encodeFrom (x : List UInt8) {dstSize : Nat} (h : x.length ≤ dstSize) :
    cobsDecode (encodeFrom [] x) dstSize = some x := by
  rw [cobsDecode_eq_bind (encodeFrom_ne_nil [] x), decodeFrom_encodeFrom [] x 0xFF (by simp)
    (by simp)]
  simp [h]

end SorterInterface
