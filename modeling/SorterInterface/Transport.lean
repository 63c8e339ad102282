import SorterInterface.Session

/-! # The loop as a frame-level server

The protocol asks of the board, frame by frame: a frame that decodes to a message addressed to
the board with a right CRC is answered with the switch's response to that message, and any other
frame gets nothing (`Frame.answer`).  On every stream of frames of 8 to 255 stuffed bytes, with
read timeouts anywhere, the loop does exactly this (`run_answers_accepted_frames`): the frames it
writes are the answers of the accepted frames, in order.

What the stream must keep to is where the loop falls short of the protocol.  A run shorter than
8 bytes stays in `rx_buffer` in front of the next frame, a longer one than 255 bytes is cut, a
message announcing more payload than it carries is answered from stale bytes of `rx_message`, a
`HOME` with a negative sensor channel runs into undefined behaviour, and a `DRV_SET_MICROSTEPS`
request with a bad count is not answered at all.  The frames the loop takes in one piece are
`Frame.Whole`; `Frame.Fits` leaves out the unanswered requests besides.
-/

namespace SorterInterface

open Message

/-- A delimiter-terminated run as it reaches the board. -/
structure Frame where
  /-- The reads before the delimiter: the run's bytes, and timeouts anywhere. -/
  reads : List Input
  /-- What the collaborators answer when the frame's message is dispatched. -/
  replies : Replies

namespace Frame

/-- The reads of the frame: its run, then its delimiter. -/
def inputs (f : Frame) : List Input :=
  f.reads ++ [⟨.byte 0, f.replies⟩]

/-- The message the frame carries, if it passes the checks: the run decodes, and the result is
addressed to the board and ends with the CRC of the rest. -/
def message? (f : Frame) : Option (List UInt8) :=
  match cobsDecode (bytesOf f.reads) 254 with
  | some d =>
    if d.getD 0 0 = deviceAddress ∧ crcMatches d then some (d.take (d.length - 4)) else none
  | none => none

/-- What the protocol owes the frame: the switch's response to the message it carries, with its
CRC and encoded, if it carries one. -/
def answer (f : Frame) : Option (List UInt8) :=
  f.message?.bind fun m =>
    match dispatch f.replies m with
    | some (.respond c p, _) => some (encodeFrom [] (appendCrc (responseBytes m c p)))
    | _ => none

/-- The frame of the bytes `bs`, read with the collaborators answering `hw`. -/
def ofBytes (hw : Replies) (bs : List UInt8) : Frame :=
  ⟨bs.map fun b => ⟨.byte b, hw⟩, hw⟩

/-- The frame the host sends for the message `m`: `m` with its CRC, COBS-encoded. -/
def sent (hw : Replies) (m : List UInt8) : Frame :=
  ofBytes hw (encodeFrom [] (appendCrc m))

/-- The frames the loop takes in one piece: a run of 8 to 255 nonzero bytes, whose message, if
it carries one, announces no more payload than it has and is not a `HOME` that reads below
`digital_input_pins`. -/
structure Whole (f : Frame) : Prop where
  nonzero : ∀ b ∈ bytesOf f.reads, b ≠ 0
  length_ge : 8 ≤ (bytesOf f.reads).length
  length_le : (bytesOf f.reads).length ≤ 255
  payload_le : ∀ m ∈ f.message?, 4 + (payloadLength m).toNat ≤ m.length
  not_below : ∀ m ∈ f.message?, ¬ readsBelowInputs m

theorem whole_iff (f : Frame) :
    f.Whole ↔ (∀ b ∈ bytesOf f.reads, b ≠ 0) ∧ 8 ≤ (bytesOf f.reads).length ∧
      (bytesOf f.reads).length ≤ 255 ∧
      ∀ m ∈ f.message?, 4 + (payloadLength m).toNat ≤ m.length ∧ ¬ readsBelowInputs m :=
  ⟨fun h => ⟨h.nonzero, h.length_ge, h.length_le,
      fun m hm => ⟨h.payload_le m hm, h.not_below m hm⟩⟩,
    fun ⟨h1, h2, h3, h4⟩ => ⟨h1, h2, h3, fun m hm => (h4 m hm).1, fun m hm => (h4 m hm).2⟩⟩

instance (f : Frame) : Decidable f.Whole :=
  decidable_of_iff _ (whole_iff f).symm

/-- The frames the frame-level result is about: whole frames whose message, if they carry one,
is not one the switch leaves by `continue`. -/
structure Fits (f : Frame) extends f.Whole : Prop where
  not_skips : ∀ m ∈ f.message?, ¬ skipsResponse m

theorem fits_iff (f : Frame) : f.Fits ↔ f.Whole ∧ ∀ m ∈ f.message?, ¬ skipsResponse m :=
  ⟨fun h => ⟨h.toWhole, h.not_skips⟩, fun ⟨h1, h2⟩ => ⟨h1, h2⟩⟩

instance (f : Frame) : Decidable f.Fits :=
  decidable_of_iff _ (fits_iff f).symm

theorem message?_eq_some {f : Frame} {m : List UInt8} (h : f.message? = some m) :
    ∃ d, cobsDecode (bytesOf f.reads) 254 = some d ∧ d.getD 0 0 = deviceAddress ∧
      crcMatches d ∧ d.take (d.length - 4) = m := by
  unfold message? at h
  split at h
  · next d hd =>
    split_ifs at h with hok
    exact ⟨d, hd, hok.1, hok.2, Option.some.inj h⟩
  · cases h

theorem message?_eq_none {f : Frame} (h : f.message? = none) {d : List UInt8}
    (hd : cobsDecode (bytesOf f.reads) 254 = some d) (haddr : d.getD 0 0 = deviceAddress) :
    ¬ crcMatches d := fun hcrc => by
  simp only [message?, hd] at h
  rw [if_pos ⟨haddr, hcrc⟩] at h
  cases h

end Frame

/-- A frame the theorem is about, from an empty `rx_buffer` with no message pending, gets what
the protocol owes it, and the loop ends ready for the next frame. -/
theorem run_frame (s : LoopState) (rest : List Input) {f : Frame} (hs : s.rxBuffer = [])
    (hml : s.msgLen ≤ 0) (hf : f.Fits) :
    ∃ s', frames (run s (f.inputs ++ rest)) = f.answer.toList ++ frames (run s' rest) ∧
      s'.rxBuffer = [] ∧ s'.msgLen ≤ 0 := by
  obtain ⟨s₁, hrun, hb₁, -, -⟩ := run_reads_of_nonpos s (⟨.byte 0, f.replies⟩ :: rest) hml
    hf.nonzero (by rw [hs]; simpa using hf.length_le)
  rw [hs, List.nil_append] at hb₁
  have h8 : ¬ s₁.rxBuffer.length < 8 := by rw [hb₁]; have := hf.length_ge; omega
  rw [Frame.inputs, List.append_assoc, List.singleton_append, hrun]
  cases hm : f.message? with
  | none =>
    -- the checks reject the run: only its decode is seen
    have hdel := delimit_rejected s₁ fun d hd => Frame.message?_eq_none hm (hb₁ ▸ hd)
    have hstep :
        step ⟨.byte 0, f.replies⟩ s₁ = ((delimit s₁).1, some (delimit s₁).2) := by
      rw [step_delimiter, finish_of_nonpos _ _ hdel, List.append_nil]
    refine ⟨(delimit s₁).2, ?_, (delimit_long s₁ h8).2, hdel⟩
    rw [run_cons_of_some _ (congrArg Prod.snd hstep), hstep, frames_append,
      (delimit_long s₁ h8).1]
    simp [Frame.answer, hm]
  | some m =>
    -- the checks accept the run: its message is answered
    obtain ⟨d, hd, haddr, hcrc, rfl⟩ := Frame.message?_eq_some hm
    have hlen := cobsDecode_length hd
      (List.ne_nil_of_length_pos (by have := hf.length_ge; omega)) hf.length_le
    have hpl := hf.payload_le _ hm
    simp only [List.length_take, Nat.min_eq_left (Nat.sub_le _ _)] at hpl
    obtain ⟨c, p, calls, hdsp, hp⟩ := dispatch_responds f.replies _
      (by have := cobsDecode_length_le hd; omega) (hf.not_below _ hm) (hf.not_skips _ hm)
    have hstep := step_answers_accepted s₁ f.replies (hb₁ ▸ hd) h8 haddr hcrc hpl hdsp hp
    refine ⟨{ checkFrame s₁ d with msgLen := 0 }, ?_, rfl, Int.le_refl 0⟩
    rw [run_cons_of_some _ (congrArg Prod.snd hstep), hstep]
    simp [Frame.answer, hm, hdsp]

/-- **The loop serves the protocol frame by frame.**  From a state with an empty `rx_buffer` and
no message pending, on every stream of frames of 8 to 255 stuffed bytes whose messages announce
no more payload than they carry, are not a `HOME` with a negative sensor channel and are not left
by `continue`, the frames the loop writes are
exactly what the protocol owes the frames, in order: the switch's response to each frame that
decodes to a message addressed to the board with a right CRC, and nothing for the others,
whatever the collaborators answer and wherever the reads time out. -/
theorem run_answers_accepted_frames (s : LoopState) (fs : List Frame) (hs : s.rxBuffer = [])
    (hml : s.msgLen ≤ 0) (hf : ∀ f ∈ fs, f.Fits) :
    frames (run s (fs.flatMap Frame.inputs)) = fs.filterMap Frame.answer := by
  induction fs generalizing s with
  | nil => rfl
  | cons f fs ih =>
    obtain ⟨s', hrun, hs', hml'⟩ := run_frame s _ hs hml (hf f (List.mem_cons_self _ _))
    rw [List.flatMap_cons, hrun, ih s' hs' hml' fun f' h => hf f' (List.mem_cons_of_mem _ h),
      List.filterMap_cons]
    cases f.answer <;> rfl

set_option maxRecDepth 8000 in
/-- A `PING` with a corrupted CRC, the `PING` of the specification's example with a read timeout
in its frame, and a `PING` addressed to another board: only the second is answered. -/
theorem ping_among_rejected_frames_answered :
    frames (run (LoopState.start (List.replicate 254 0) (List.length_replicate _ _))
        (List.flatMap
          [.ofBytes .idle [1, 2, 2, 1, 5, 114, 11, 192, 35],
            ⟨⟨.timeout, .idle⟩ :: (Frame.sent .idle [0, 2, 0, 2, 0x41, 0x42]).reads, .idle⟩,
            .sent .idle [1, 2, 0, 0]]
          Frame.inputs)) =
      [encodeFrom [] (appendCrc (responseBytes [0, 2, 0, 2, 0x41, 0x42] 2 [0x41, 0x42]))] :=
  run_answers_accepted_frames _ _ rfl (by decide) (by decide)

end SorterInterface
