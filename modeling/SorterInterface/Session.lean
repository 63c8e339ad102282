import SorterInterface.Responses

/-! # A host session

The host sends its requests one after another, each as the frame of the message with its CRC
followed by the delimiter, and the board's reads may time out anywhere between the bytes.  From
a state with an empty `rx_buffer` and no message pending, as `main` starts, the loop answers
every request the switch answers with exactly one frame, and in the order of the requests
(`run_answers_each_request`): no answer is lost, none is sent twice, none overtakes another.
The requests the switch leaves by `continue` (`skipsResponse`) are the exception, and a `HOME`
that reads below `digital_input_pins` is not a request the host can send: it runs into undefined
behaviour.

Timeouts change nothing while no message is pending (`run_reads_of_nonpos`), and the delimiter
of a request leaves the loop with an empty `rx_buffer` and `msg_len` cleared, which is where the
next request starts (`run_request`).  A frame that does not decode, is addressed elsewhere or
fails its CRC gets no answer: a run of eight bytes or more is decoded and cleared, and a shorter
one stays in `rx_buffer` (`run_drops_rejected_frame`).
-/

namespace SorterInterface

open Message

/-- The frame an action writes, if it writes one. -/
def Action.frame? : Action → Option (List UInt8)
  | .write e => some e
  | _ => none

/-- The frames written, in order. -/
def frames (acts : List Action) : List (List UInt8) :=
  acts.filterMap Action.frame?

/-- A request as the host sends it. -/
structure Request where
  /-- The reads before the delimiter: the bytes of the frame, and timeouts anywhere. -/
  reads : List Input
  /-- What the collaborators answer when the request is dispatched. -/
  replies : Replies
  /-- The message, before its CRC and the stuffing. -/
  message : List UInt8

namespace Request

/-- The reads of the request: its frame, then its delimiter. -/
def inputs (r : Request) : List Input :=
  r.reads ++ [⟨.byte 0, r.replies⟩]

/-- The frame the board answers the request with, when the switch answers it. -/
def answer (r : Request) : Option (List UInt8) :=
  match dispatch r.replies r.message with
  | some (.respond c p, _) => some (encodeFrom [] (appendCrc (responseBytes r.message c p)))
  | _ => none

/-- What the host's framing promises: the reads deliver the frame of the message with its CRC,
and the message is addressed to the board, fits `rx_message` with its CRC, and carries the
payload its header announces; and what the switch needs to stay within its arrays: the message
is not a `HOME` that reads below `digital_input_pins`. -/
structure WellFormed (r : Request) : Prop where
  frame : bytesOf r.reads = encodeFrom [] (appendCrc r.message)
  address : r.message.getD 0 0 = deviceAddress
  length_le : r.message.length ≤ 250
  payload_le : 4 + (payloadLength r.message).toNat ≤ r.message.length
  not_below : ¬ readsBelowInputs r.message

end Request

@[simp] theorem frames_nil : frames [] = [] := rfl

@[simp] theorem frames_append (a b : List Action) : frames (a ++ b) = frames a ++ frames b :=
  List.filterMap_append a b _

@[simp] theorem frames_cons_write (e : List UInt8) (acts : List Action) :
    frames (.write e :: acts) = e :: frames acts := rfl

@[simp] theorem frames_cons_decode (x : List UInt8) (r : Option (List UInt8)) (acts : List Action) :
    frames (.decode x r :: acts) = frames acts := rfl

@[simp] theorem frames_cons_dispatch (m : List UInt8) (n : Nat) (acts : List Action) :
    frames (.dispatch m n :: acts) = frames acts := rfl

@[simp] theorem frames_calls (calls : List Call) : frames (calls.map .call) = [] := by
  induction calls with
  | nil => rfl
  | cons c calls ih => exact ih

/-- A well-formed request the switch answers, from an empty `rx_buffer` with no message
pending, gets its answer as the only frame of its reads, and the loop ends ready for the next
one. -/
theorem run_request (s : LoopState) (rest : List Input) {r : Request} (hs : s.rxBuffer = [])
    (hml : s.msgLen ≤ 0) (hr : r.WellFormed) (hskip : ¬ skipsResponse r.message) :
    ∃ e s', r.answer = some e ∧
      frames (run s (r.inputs ++ rest)) = e :: frames (run s' rest) ∧
      s'.rxBuffer = [] ∧ s'.msgLen = 0 := by
  have h250 := hr.length_le
  obtain ⟨c, p, calls, hd, hp⟩ :=
    dispatch_responds r.replies r.message (by have := hr.payload_le; omega) hr.not_below hskip
  obtain ⟨s₁, hrun, hb₁, -, -⟩ := run_reads_of_nonpos s (⟨.byte 0, r.replies⟩ :: rest) hml
    (by rw [hr.frame]; exact ne_zero_of_mem_encodeFrom (by simp) (by simp))
    (by rw [hs, hr.frame, length_frame h250]; simp; omega)
  rw [hs, List.nil_append, hr.frame] at hb₁
  have hstep := step_answers_frame s₁ r.replies hb₁ hr.address h250 hr.payload_le hd hp
  refine ⟨encodeFrom [] (appendCrc (responseBytes r.message c p)),
    { checkFrame s₁ (appendCrc r.message) with msgLen := 0 },
    by simp [Request.answer, hd], ?_, rfl, rfl⟩
  rw [Request.inputs, List.append_assoc, List.singleton_append, hrun,
    run_cons_of_some _ (congrArg Prod.snd hstep), hstep]
  simp

/-- **Every request is answered once, in order.**  From a state with an empty `rx_buffer` and
no message pending, a sequence of well-formed requests, none of which the switch leaves by
`continue`, makes the loop write one frame per request, the request's answer, in the order of
the requests, whatever the collaborators answer and wherever the reads time out. -/
theorem run_answers_each_request (s : LoopState) (rs : List Request) (hs : s.rxBuffer = [])
    (hml : s.msgLen ≤ 0) (hwf : ∀ r ∈ rs, r.WellFormed)
    (hok : ∀ r ∈ rs, ¬ skipsResponse r.message) :
    (frames (run s (rs.flatMap Request.inputs))).map some = rs.map Request.answer := by
  induction rs generalizing s with
  | nil => rfl
  | cons r rs ih =>
    obtain ⟨e, s', he, hrun, hs', hml'⟩ :=
      run_request s _ hs hml (hwf r (List.mem_cons_self _ _)) (hok r (List.mem_cons_self _ _))
    rw [List.flatMap_cons, hrun, List.map_cons, List.map_cons, he,
      ih s' hs' (by omega) (fun r' h => hwf r' (List.mem_cons_of_mem _ h))
        (fun r' h => hok r' (List.mem_cons_of_mem _ h))]

set_option maxRecDepth 4000 in
/-- A `PING` with no payload, then the `PING` of the specification's example with the payload
`[0x41, 0x42]`, whose frame arrives after a read timeout. -/
theorem two_pings_answered :
    (frames (run (LoopState.start (List.replicate 254 0) (List.length_replicate _ _))
        (List.flatMap
          [⟨([1, 2, 2, 1, 5, 114, 11, 192, 34] : List UInt8).map (fun b => ⟨.byte b, .idle⟩),
              .idle, [0, 2, 0, 0]⟩,
            ⟨⟨.timeout, .idle⟩ :: (encodeFrom [] (appendCrc [0, 2, 0, 2, 0x41, 0x42])).map
                (fun b => ⟨.byte b, .idle⟩), .idle, [0, 2, 0, 2, 0x41, 0x42]⟩]
          Request.inputs))).map some =
      [some (encodeFrom [] (appendCrc (responseBytes [0, 2, 0, 0] 2 []))),
        some (encodeFrom [] (appendCrc (responseBytes [0, 2, 0, 2, 0x41, 0x42] 2 [0x41, 0x42])))] :=
  run_answers_each_request _ _ rfl (by decide)
    (by simp only [List.mem_cons, List.mem_singleton, List.not_mem_nil, or_false]
        rintro r (rfl | rfl) <;> exact ⟨by decide, by decide, by decide, by decide, by decide⟩)
    (by decide)

/-! ## Rejected frames -/

/-- A delimiter after a run the checks reject leaves no message pending, whatever was pending
before. -/
theorem delimit_rejected (s : LoopState)
    (hrej : ∀ d, cobsDecode s.rxBuffer 254 = some d → d.getD 0 0 = deviceAddress →
      ¬ crcMatches d) :
    (delimit s).2.msgLen ≤ 0 := by
  unfold delimit
  split
  · simp
  · split
    · simp
    · next h8 _ d hd =>
      have hlen := cobsDecode_length hd (by rintro h; simp [h] at h8) s.rxBuffer_length_le
      rw [checkFrame_msgLen s (by omega) (cobsDecode_length_le hd),
        if_neg fun h => hrej d hd h.1 h.2]
      decide

/-- **A frame the checks reject gets no answer.**  From a state with an empty `rx_buffer` and no
message pending, the reads of a run of at most 255 nonzero bytes that does not decode to a buffer
addressed to the board with a right CRC, and its delimiter, make no dispatch, no call on a
collaborator and no write, wherever the reads time out, and leave no message pending.  A run of
eight bytes or more is handed to `COBS_decode` once and cleared from `rx_buffer`; a shorter one
is not decoded, and stays in `rx_buffer` in front of the next run. -/
theorem run_drops_rejected_frame (s : LoopState) (rest : List Input) (hw : Replies)
    {is : List Input} (hs : s.rxBuffer = []) (hml : s.msgLen ≤ 0)
    (hbs : ∀ b ∈ bytesOf is, b ≠ 0) (h255 : (bytesOf is).length ≤ 255)
    (hrej : ∀ d, cobsDecode (bytesOf is) 254 = some d → d.getD 0 0 = deviceAddress →
      ¬ crcMatches d) :
    ∃ s', run s (is ++ ⟨.byte 0, hw⟩ :: rest) =
        (if (bytesOf is).length < 8 then []
          else [.decode (bytesOf is) (cobsDecode (bytesOf is) 254)]) ++ run s' rest ∧
      s'.rxBuffer = (if (bytesOf is).length < 8 then bytesOf is else []) ∧ s'.msgLen ≤ 0 := by
  obtain ⟨s₁, hrun, hb₁, -, -⟩ :=
    run_reads_of_nonpos s (⟨.byte 0, hw⟩ :: rest) hml hbs (by rw [hs]; simpa using h255)
  rw [hs, List.nil_append] at hb₁
  have hdel := delimit_rejected s₁ (hb₁ ▸ hrej)
  have hstep : step ⟨.byte 0, hw⟩ s₁ = ((delimit s₁).1, some (delimit s₁).2) := by
    rw [step_delimiter, finish_of_nonpos hw _ hdel, List.append_nil]
  -- what the delimiter branch does with the run
  have hd : (delimit s₁).1 = (if (bytesOf is).length < 8 then []
        else [.decode (bytesOf is) (cobsDecode (bytesOf is) 254)]) ∧
      (delimit s₁).2.rxBuffer = if (bytesOf is).length < 8 then bytesOf is else [] := by
    rw [← hb₁]
    by_cases h8 : s₁.rxBuffer.length < 8
    · simp [delimit_short s₁ h8, h8]
    · simp [delimit_long s₁ h8, h8]
  refine ⟨(delimit s₁).2, ?_, hd.2, hdel⟩
  rw [hrun, run_cons_of_some _ (congrArg Prod.snd hstep), hstep, hd.1]

set_option maxRecDepth 4000 in
/-- The frame of a `PING` whose last CRC byte is corrupted, on a board just started: its run is
decoded, and nothing else happens. -/
theorem corrupted_ping_dropped :
    ∃ s', run (LoopState.start (List.replicate 254 0) (List.length_replicate _ _))
        (([1, 2, 2, 1, 5, 114, 11, 192, 35] : List UInt8).map (fun b => ⟨.byte b, .idle⟩) ++
          [⟨.byte 0, .idle⟩]) =
        [.decode [1, 2, 2, 1, 5, 114, 11, 192, 35] (cobsDecode [1, 2, 2, 1, 5, 114, 11, 192, 35] 254)] ++
          run s' [] ∧
      s'.rxBuffer = [] ∧ s'.msgLen ≤ 0 := by
  obtain ⟨s', hrun, hb, hl⟩ := @run_drops_rejected_frame
    (LoopState.start (List.replicate 254 0) (List.length_replicate _ _)) [] .idle
    (([1, 2, 2, 1, 5, 114, 11, 192, 35] : List UInt8).map fun b => ⟨.byte b, .idle⟩) rfl
    (by decide) (by decide) (by decide) fun d hd _ => by
      obtain rfl :=
        Option.some.inj ((show cobsDecode (bytesOf (([1, 2, 2, 1, 5, 114, 11, 192, 35] :
          List UInt8).map (fun b => ⟨.byte b, .idle⟩))) 254 = some [0, 2, 0, 0, 114, 11, 192, 35]
          by decide).symm.trans hd)
      decide
  exact ⟨s', hrun, hb, hl⟩

end SorterInterface
