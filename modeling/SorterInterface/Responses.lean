import SorterInterface.Frames

/-! # What the loop writes

A request reaches the switch in the iteration whose read returned its delimiter, and the
response the switch builds is written in that same iteration: the response with its CRC,
COBS-encoded, once, and `msg_len` is cleared (`finish_respond`).  From an empty `rx_buffer`, a
request addressed to the board and framed as the host frames it is decoded, dispatched as its
own bytes say, and answered before the next read (`run_answers_request`); every frame the loop
writes holds no zero and decodes to a response followed by its CRC (`written_frames_decode`),
and from every reachable state that response is addressed to the board and its
`payload_length` is exact: it passes every check the loop makes on a request, and the one it
does not make (`written_frames_wellFormed`).

The `continue` of the `DRV_SET_MICROSTEPS` case breaks this: it leaves the iteration with
nothing written and `msg_len` as it was, so the request is dispatched again after every read
timeout until the next delimiter (`run_redispatches_skipped`,
`microsteps_frame_redispatched`).
-/

namespace SorterInterface

open Message

/-! ## One response per iteration -/

@[simp] theorem length_responseBytes (m : List UInt8) (c : UInt8) (p : List UInt8) :
    (responseBytes m c p).length = p.length + 4 := by
  simp [responseBytes]

/-- **A response is written in the iteration that dispatched its request**: once, with its
CRC, encoded, and `msg_len` is cleared. -/
theorem finish_respond (hw : Replies) (s : LoopState) {c : UInt8} {p : List UInt8}
    {calls : List Call} (hpos : 0 < s.msgLen)
    (hd : dispatch hw s.rxMessage = some (.respond c p, calls)) (hp : p.length ≤ 246) :
    finish hw s = (.dispatch s.rxMessage s.msgLen.toNat :: calls.map .call ++
        [.write (encodeFrom [] (appendCrc (responseBytes s.rxMessage c p)))],
      some { s with msgLen := 0 }) := by
  simp [finish, hpos, hd, show ¬ 254 < p.length + 4 + 4 by omega,
    cobsEncode_isSome
      (show (appendCrc (responseBytes s.rxMessage c p)).length ≤ 254 by simp; omega)]

/-! ## A request and its answer -/

theorem length_frame {m : List UInt8} (h : m.length ≤ 250) :
    (encodeFrom [] (appendCrc m)).length = m.length + 5 := by
  rw [length_encodeFrom [] _ (by simp; omega)]
  simp

theorem responseBytes_congr {m₁ m₂ : List UInt8} (h : m₁.take 4 = m₂.take 4) (c : UInt8)
    (p : List UInt8) : responseBytes m₁ c p = responseBytes m₂ c p := by
  have h0 : devAddress m₁ = devAddress m₂ :=
    (getD_take (K := 4) (by omega)).symm.trans (h ▸ getD_take (by omega))
  have h2 : channel m₁ = channel m₂ :=
    (getD_take (K := 4) (by omega)).symm.trans (h ▸ getD_take (by omega))
  simp [responseBytes, h0, h2]

/-- Once `COBS_decode` has written `d` into `rx_message`, the bytes before its CRC are those of
the message `d` carries. -/
theorem take_checkFrame_rxMessage (s : LoopState) {d : List UInt8} (h254 : d.length ≤ 254)
    {K : Nat} (hK : K ≤ d.length - 4) :
    (checkFrame s d).rxMessage.take K = (d.take (d.length - 4)).take K := by
  have htake : (overwrite s.rxMessage d).take d.length = d :=
    take_overwrite _ _ (by rw [s.rxMessage_length]; exact h254)
  calc (overwrite s.rxMessage d).take K
      = ((overwrite s.rxMessage d).take d.length).take K := by
        rw [List.take_take, Nat.min_eq_left (by omega)]
    _ = (d.take (d.length - 4)).take K := by rw [htake, List.take_take, Nat.min_eq_left hK]

theorem checkFrame_msgLen_of_pass (s : LoopState) {d : List UInt8} (h8 : 8 ≤ d.length)
    (h254 : d.length ≤ 254) (haddr : d.getD 0 0 = deviceAddress) (hcrc : crcMatches d) :
    (checkFrame s d).msgLen = ((d.length - 4 : Nat) : Int) := by
  rw [checkFrame_msgLen s (by omega) h254, if_pos ⟨haddr, hcrc⟩]
  omega

/-- The delimiter after a run that decodes to a buffer `d` the checks accept, whose header
announces no more payload than the message carries and which the switch answers, dispatches
the message, makes the calls the switch makes on the message itself and writes the response:
`rx_message` begins with `d`, and its stale tail is never read. -/
theorem step_answers_accepted (s : LoopState) (hw : Replies) {d : List UInt8} {c : UInt8}
    {p : List UInt8} {calls : List Call} (hdec : cobsDecode s.rxBuffer 254 = some d)
    (h8 : ¬ s.rxBuffer.length < 8) (haddr : d.getD 0 0 = deviceAddress) (hcrc : crcMatches d)
    (hpl : 4 + (payloadLength (d.take (d.length - 4))).toNat ≤ d.length - 4)
    (hd : dispatch hw (d.take (d.length - 4)) = some (.respond c p, calls))
    (hp : p.length ≤ 246) :
    step ⟨.byte 0, hw⟩ s =
      (.decode s.rxBuffer (some d) :: .dispatch (overwrite s.rxMessage d) (d.length - 4) ::
          (calls.map .call ++
            [.write (encodeFrom [] (appendCrc (responseBytes (d.take (d.length - 4)) c p)))]),
        some { checkFrame s d with msgLen := 0 }) := by
  have hlen := cobsDecode_length hdec (by rintro h; simp [h] at h8) s.rxBuffer_length_le
  have h254 := cobsDecode_length_le hdec
  have hmsg := checkFrame_msgLen_of_pass s (by omega) h254 haddr hcrc
  -- `rx_message` now begins with the message
  have hd' : dispatch hw (checkFrame s d).rxMessage = some (.respond c p, calls) :=
    (dispatch_congr hw (take_checkFrame_rxMessage s h254 hpl).symm).symm.trans hd
  have hrx : (checkFrame s d).rxMessage = overwrite s.rxMessage d := rfl
  rw [step_delimiter, show delimit s = ([.decode s.rxBuffer (some d)], checkFrame s d) by
    simp [delimit, h8, hdec], finish_respond hw _ (by omega) hd' hp]
  simp only [← hrx, hmsg, responseBytes_congr (take_checkFrame_rxMessage s h254 (K := 4)
    (by omega)), Int.toNat_ofNat]
  simp

@[simp] theorem take_appendCrc (m : List UInt8) : (appendCrc m).take m.length = m := by
  simp [appendCrc]

/-- The delimiter after the frame of a request addressed to the board, whose header announces no
more payload than it carries and which the switch answers, decodes it, dispatches it, makes the
calls the switch makes on the request itself and writes the response. -/
theorem step_answers_frame (s : LoopState) (hw : Replies) {m : List UInt8} {c : UInt8}
    {p : List UInt8} {calls : List Call} (hb : s.rxBuffer = encodeFrom [] (appendCrc m))
    (haddr : m.getD 0 0 = deviceAddress) (h250 : m.length ≤ 250)
    (hpl : 4 + (payloadLength m).toNat ≤ m.length)
    (hd : dispatch hw m = some (.respond c p, calls)) (hp : p.length ≤ 246) :
    step ⟨.byte 0, hw⟩ s =
      (.decode (encodeFrom [] (appendCrc m)) (some (appendCrc m)) ::
          .dispatch (overwrite s.rxMessage (appendCrc m)) m.length ::
          (calls.map .call ++ [.write (encodeFrom [] (appendCrc (responseBytes m c p)))]),
        some { checkFrame s (appendCrc m) with msgLen := 0 }) := by
  have hdec : cobsDecode s.rxBuffer 254 = some (appendCrc m) := by
    rw [hb]
    exact cobsDecode_encodeFrom _ (by simp; omega)
  have haddr' : (appendCrc m).getD 0 0 = deviceAddress := by
    rw [← haddr]
    simp [appendCrc, List.getElem?_append_left (show 0 < m.length by omega)]
  have := step_answers_accepted s hw hdec (by rw [hb, length_frame h250]; omega) haddr'
    (crcMatches_appendCrc m) (by simpa using hpl) (by simpa using hd) hp
  simpa [hb] using this

/-- **A request is answered before the next read.**  From any state with an empty `rx_buffer`,
the frame of a message `m` addressed to the board, whose header announces no more payload than
it carries, and its delimiter make the loop decode it, dispatch it, make the calls the switch
makes on `m` itself, and write the response the switch builds for `m` with its CRC, encoded,
all before the next read; `msg_len` is then cleared. -/
theorem run_answers_request (s : LoopState) (is rest : List Input) (hw : Replies)
    {m : List UInt8} {c : UInt8} {p : List UInt8} {calls : List Call}
    (hs : s.rxBuffer = []) (haddr : m.getD 0 0 = deviceAddress) (h250 : m.length ≤ 250)
    (hpl : 4 + (payloadLength m).toNat ≤ m.length)
    (his : is.map Input.event = (encodeFrom [] (appendCrc m)).map .byte)
    (hd : dispatch hw m = some (.respond c p, calls)) (hp : p.length ≤ 246) :
    ∃ s', run s (is ++ ⟨.byte 0, hw⟩ :: rest) =
        .decode (encodeFrom [] (appendCrc m)) (some (appendCrc m)) ::
          .dispatch (overwrite s.rxMessage (appendCrc m)) m.length ::
          (calls.map .call ++ .write (encodeFrom [] (appendCrc (responseBytes m c p))) ::
            run s' rest) ∧
        s'.rxBuffer = [] ∧ s'.msgLen = 0 := by
  obtain ⟨s₁, hrun, hb₁, hm₁, -⟩ := run_bytes s (⟨.byte 0, hw⟩ :: rest)
    (ne_zero_of_mem_encodeFrom (by simp) (by simp)) (by rw [hs, length_frame h250]; simp; omega) his
  rw [hs, List.nil_append] at hb₁
  have hstep := step_answers_frame s₁ hw hb₁ haddr h250 hpl hd hp
  refine ⟨{ checkFrame s₁ (appendCrc m) with msgLen := 0 }, ?_, rfl, rfl⟩
  rw [hrun, run_cons_of_some _ (congrArg Prod.snd hstep), hstep, hm₁]
  simp

set_option maxRecDepth 4000 in
/-- A `PING` with no payload, on a board just started: the answer is a `PING` with no
payload. -/
theorem ping_answered :
    ∃ s', run (LoopState.start (List.replicate 254 0) (List.length_replicate _ _))
        (([1, 2, 2, 1, 5, 114, 11, 192, 34] : List UInt8).map (fun b => ⟨.byte b, .idle⟩) ++
          [⟨.byte 0, .idle⟩]) =
        .decode (encodeFrom [] (appendCrc [0, 2, 0, 0])) (some (appendCrc [0, 2, 0, 0])) ::
          .dispatch (overwrite (List.replicate 254 0) (appendCrc [0, 2, 0, 0])) 4 ::
          (([] : List Call).map .call ++
            .write (encodeFrom [] (appendCrc (responseBytes [0, 2, 0, 0] 2 []))) :: run s' []) ∧
        s'.rxBuffer = [] ∧ s'.msgLen = 0 :=
  run_answers_request _ _ [] .idle rfl rfl (by decide) (by decide) (by decide) (by decide)
    (by decide)

/-! ## What is written -/

theorem write_mem_finish {hw : Replies} {s : LoopState} {e : List UInt8}
    (h : .write e ∈ (finish hw s).1) :
    ∃ r, 4 ≤ r.length ∧ r.length + 4 ≤ 254 ∧ e = encodeFrom [] (appendCrc r) := by
  rcases finish_cases hw s with ⟨-, hf⟩ | ⟨-, calls, tail, hf, htail⟩
  · simp [hf] at h
  · rw [hf] at h
    rcases htail with ⟨rfl, -⟩ | ⟨rfl, -⟩ | ⟨c, p, -, hlen, rfl, -⟩
    · simp at h
    · simp at h
    · exact ⟨_, by simp, hlen, by simpa using h⟩

theorem write_mem_step {i : Input} {s : LoopState} {e : List UInt8}
    (h : .write e ∈ (step i s).1) :
    ∃ r, 4 ≤ r.length ∧ r.length + 4 ≤ 254 ∧ e = encodeFrom [] (appendCrc r) := by
  obtain ⟨t, ht, -⟩ := mem_step_finish h nofun
  exact write_mem_finish ht

/-- **Every frame the loop writes can be read by the host**: it holds no zero byte, fits the
255-byte `tx_buffer`, and decodes to a response of a header and a payload followed by its CRC,
which passes the check. -/
theorem written_frames_decode (s : LoopState) (is : List Input) {e : List UInt8}
    (h : .write e ∈ run s is) :
    (∀ b ∈ e, b ≠ 0) ∧ e.length ≤ 255 ∧
      ∃ d, cobsDecode e 254 = some d ∧ 8 ≤ d.length ∧ crcMatches d := by
  induction is generalizing s with
  | nil => simp [run] at h
  | cons i is ih =>
    simp only [run, List.mem_append] at h
    rcases h with h | h
    · obtain ⟨r, h4, hlen, rfl⟩ := write_mem_step h
      refine ⟨ne_zero_of_mem_encodeFrom (by simp) (by simp), ?_, appendCrc r,
        cobsDecode_encodeFrom _ (by simp; omega), by simp; omega, crcMatches_appendCrc r⟩
      rw [length_encodeFrom [] _ (by simp; omega)]
      simp; omega
    · split at h
      · exact ih _ h
      · simp at h

set_option maxRecDepth 4000 in
/-- The answer to a `PING` with no payload. -/
theorem ping_answer_decodes :
    (∀ b ∈ encodeFrom [] (appendCrc [0, 2, 0, 0]), b ≠ 0) ∧
      (encodeFrom [] (appendCrc [0, 2, 0, 0])).length ≤ 255 ∧
      ∃ d, cobsDecode (encodeFrom [] (appendCrc [0, 2, 0, 0])) 254 = some d ∧ 8 ≤ d.length ∧
        crcMatches d :=
  written_frames_decode (LoopState.start (List.replicate 254 0) (List.length_replicate _ _))
    (([1, 2, 2, 1, 5, 114, 11, 192, 34, 0] : List UInt8).map fun b => ⟨.byte b, .idle⟩)
    (by decide)

/-! ## Responses are well-formed messages -/

theorem getD_zero_of_begins {d m : List UInt8} (h : d <+: m) (hd : 0 < d.length) :
    m.getD 0 0 = d.getD 0 0 := by
  obtain ⟨t, rfl⟩ := h
  cases d with
  | nil => simp at hd
  | cons b d => rfl

/-- A response is written only while the invariant holds of a pending message, so it echoes the
address the frame was accepted for, and its `payload_length` is its payload's size. -/
theorem finish_write_addressed {hw : Replies} {last : Option (List UInt8 × Option (List UInt8))}
    {s : LoopState} {e : List UInt8} (hinv : FrameInv last s) (h : .write e ∈ (finish hw s).1) :
    ∃ r, e = encodeFrom [] (appendCrc r) ∧ r.getD 0 0 = deviceAddress ∧
      (r.getD 3 0).toNat + 4 = r.length ∧ r.length + 4 ≤ 254 := by
  rcases finish_cases hw s with ⟨-, hf⟩ | ⟨hpos, calls, tail, hf, htail⟩
  · simp [hf] at h
  · rw [hf] at h
    rcases htail with ⟨rfl, -⟩ | ⟨rfl, -⟩ | ⟨c, p, -, hlen, rfl, -⟩
    · simp at h
    · simp at h
    · obtain ⟨x, d, -, hacc⟩ := hinv hpos
      have haddr : devAddress s.rxMessage = deviceAddress :=
        (getD_zero_of_begins hacc.begins (by have := hacc.msgLen_eq; omega)).trans hacc.address
      refine ⟨_, by simpa using h, by simpa [responseBytes] using haddr, ?_, hlen⟩
      simp only [length_responseBytes] at hlen
      simpa [responseBytes] using toNat_toUInt8_of_lt (show p.length < 256 by omega)

theorem write_mem_step_inv {i : Input} {last : Option (List UInt8 × Option (List UInt8))}
    {s : LoopState} {e : List UInt8} (hinv : FrameInv last s) (h : .write e ∈ (step i s).1) :
    ∃ last' t, FrameInv last' t ∧ .write e ∈ (finish i.replies t).1 := by
  rcases step_cases i s with ⟨s', hs, -, -⟩ | ⟨pre, t, hs, hpre, ht⟩
  · simp [hs] at h
  · rw [hs, List.mem_append] at h
    have hw : .write e ∈ (finish i.replies t).1 := h.resolve_left fun hp => by
      obtain ⟨x, r, h⟩ := hpre _ hp
      cases h
    rcases ht with ⟨-, rfl | ht⟩ | hd
    · exact ⟨last, _, hinv, hw⟩
    · exact ⟨last, t, fun h => absurd h (by omega), hw⟩
    · exact ⟨_, t, by simpa [hd] using (delimit_inv last s).2, hw⟩

theorem write_mem_run_inv {last : Option (List UInt8 × Option (List UInt8))} {s : LoopState}
    {is : List Input} {e : List UInt8} (hinv : FrameInv last s) (h : .write e ∈ run s is) :
    ∃ last' t hw, FrameInv last' t ∧ .write e ∈ (finish hw t).1 := by
  induction is generalizing s last with
  | nil => simp [run] at h
  | cons i is ih =>
    simp only [run, List.mem_append] at h
    rcases h with h | h
    · obtain ⟨l, t, ht, h⟩ := write_mem_step_inv hinv h
      exact ⟨l, t, _, ht, h⟩
    · split at h
      · next s' hs' => exact ih ((step_inv i hinv).2 s' hs') h
      · simp at h

/-- **Every response is a well-formed message**: from every state the loop reaches, each frame
it writes decodes to a message addressed to the board, whose `payload_length` byte is its size
less the header and the CRC, and whose CRC is right; the checks the loop makes on a request,
and the one it does not make. -/
theorem written_frames_wellFormed {s : LoopState} (hs : Reachable s) (is : List Input)
    {e : List UInt8} (h : .write e ∈ run s is) :
    ∃ d, cobsDecode e 254 = some d ∧ d.getD 0 0 = deviceAddress ∧
      (d.getD 3 0).toNat + 8 = d.length ∧ crcMatches d := by
  obtain ⟨last, hinv⟩ := reachable_frameInv hs
  obtain ⟨l, t, hw, ht, hwt⟩ := write_mem_run_inv hinv h
  obtain ⟨r, rfl, haddr, hpl, hlen⟩ := finish_write_addressed ht hwt
  have hr : ∀ n < r.length, (appendCrc r).getD n 0 = r.getD n 0 := fun n hn => by
    simp [appendCrc, List.getD_eq_getElem?_getD, List.getElem?_append_left hn]
  refine ⟨appendCrc r, cobsDecode_encodeFrom _ (by simp; omega), ?_, ?_, crcMatches_appendCrc r⟩
  · rw [hr 0 (by omega), haddr]
  · rw [hr 3 (by omega), length_appendCrc]
    omega

set_option maxRecDepth 4000 in
/-- The answer to a `PING` with no payload, on a board just started. -/
theorem ping_answer_wellFormed :
    ∃ d, cobsDecode (encodeFrom [] (appendCrc [0, 2, 0, 0])) 254 = some d ∧
      d.getD 0 0 = deviceAddress ∧ (d.getD 3 0).toNat + 8 = d.length ∧ crcMatches d :=
  written_frames_wellFormed (.start (List.replicate 254 0) (List.length_replicate _ _))
    (([1, 2, 2, 1, 5, 114, 11, 192, 34, 0] : List UInt8).map fun b => ⟨.byte b, .idle⟩)
    (by decide)

/-! ## A case that does not answer -/

/-- The delimiter after a run that decodes to a buffer the checks accept, whose message the
switch leaves by `continue`: the message is dispatched, nothing else happens, and it stays
pending. -/
theorem step_skips_accepted (s : LoopState) (hw : Replies) {d : List UInt8}
    (hdec : cobsDecode s.rxBuffer 254 = some d) (h8 : ¬ s.rxBuffer.length < 8)
    (haddr : d.getD 0 0 = deviceAddress) (hcrc : crcMatches d)
    (hpl : 4 + (payloadLength (d.take (d.length - 4))).toNat ≤ d.length - 4)
    (hd : dispatch hw (d.take (d.length - 4)) = some (.skip, [])) :
    step ⟨.byte 0, hw⟩ s =
      ([.decode s.rxBuffer (some d), .dispatch (overwrite s.rxMessage d) (d.length - 4)],
        some (checkFrame s d)) := by
  have hlen := cobsDecode_length hdec (by rintro h; simp [h] at h8) s.rxBuffer_length_le
  have h254 := cobsDecode_length_le hdec
  have hmsg := checkFrame_msgLen_of_pass s (by omega) h254 haddr hcrc
  rw [step_delimiter, show delimit s = ([.decode s.rxBuffer (some d)], checkFrame s d) by
    simp [delimit, h8, hdec], finish_skip hw _ (by omega)
      ((dispatch_congr hw (take_checkFrame_rxMessage s h254 hpl).symm).symm.trans hd), hmsg]
  rfl

/-- **A request the switch leaves by `continue` is dispatched again after every timeout.**
Nothing is written and the state does not change, so each read timeout dispatches the same
message once more, until a byte arrives. -/
theorem run_redispatches_skipped (s : LoopState) (is : List Input) (hpos : 0 < s.msgLen)
    (hskip : ∀ i ∈ is, i.event = .timeout ∧ dispatch i.replies s.rxMessage = some (.skip, [])) :
    run s is = is.map (fun _ => .dispatch s.rxMessage s.msgLen.toNat) ∧ after s is = some s := by
  induction is with
  | nil => exact ⟨rfl, rfl⟩
  | cons i is ih =>
    obtain ⟨⟨e, hw⟩, hi⟩ := (⟨i, rfl⟩ : ∃ j, j = i)
    obtain ⟨hev, hd⟩ := hskip i (List.mem_cons_self _ _)
    subst hi
    cases hev
    have hstep : step ⟨.timeout, hw⟩ s = _ := finish_skip hw s hpos hd
    obtain ⟨hrun, ha⟩ := ih fun j hj => hskip j (List.mem_cons_of_mem _ hj)
    refine ⟨?_, by simp [after, hstep, ha]⟩
    rw [run_cons_of_some is (congrArg Prod.snd hstep), hstep, hrun]
    rfl

set_option maxRecDepth 4000 in
/-- A `DRV_SET_MICROSTEPS` request with the count 3 just accepted, then two read timeouts. -/
theorem microsteps_three_redispatched :
    run (checkFrame (LoopState.start (List.replicate 254 0) (List.length_replicate _ _))
          [0, 33, 0, 4, 3, 0, 0, 0, 111, 228, 221, 235])
        [⟨.timeout, .idle⟩, ⟨.timeout, .idle⟩] =
      [.dispatch (overwrite (List.replicate 254 0) [0, 33, 0, 4, 3, 0, 0, 0, 111, 228, 221, 235]) 8,
        .dispatch (overwrite (List.replicate 254 0) [0, 33, 0, 4, 3, 0, 0, 0, 111, 228, 221, 235]) 8] ∧
      after (checkFrame (LoopState.start (List.replicate 254 0) (List.length_replicate _ _))
          [0, 33, 0, 4, 3, 0, 0, 0, 111, 228, 221, 235])
        [⟨.timeout, .idle⟩, ⟨.timeout, .idle⟩] =
      some (checkFrame (LoopState.start (List.replicate 254 0) (List.length_replicate _ _))
          [0, 33, 0, 4, 3, 0, 0, 0, 111, 228, 221, 235]) :=
  run_redispatches_skipped _ _ (by decide) (by decide)

set_option maxRecDepth 8000 in
/-- The frame of a `DRV_SET_MICROSTEPS` request with the count 3, on a board just started,
then two read timeouts: the request is dispatched three times and nothing is written. -/
theorem microsteps_frame_redispatched :
    run (LoopState.start (List.replicate 254 0) (List.length_replicate _ _))
        (([1, 2, 33, 3, 4, 3, 1, 1, 5, 111, 228, 221, 235, 0] : List UInt8).map
            (fun b => ⟨.byte b, .idle⟩) ++ [⟨.timeout, .idle⟩, ⟨.timeout, .idle⟩]) =
      [.decode [1, 2, 33, 3, 4, 3, 1, 1, 5, 111, 228, 221, 235]
          (some [0, 33, 0, 4, 3, 0, 0, 0, 111, 228, 221, 235]),
        .dispatch ([0, 33, 0, 4, 3, 0, 0, 0, 111, 228, 221, 235] ++ List.replicate 242 0) 8,
        .dispatch ([0, 33, 0, 4, 3, 0, 0, 0, 111, 228, 221, 235] ++ List.replicate 242 0) 8,
        .dispatch ([0, 33, 0, 4, 3, 0, 0, 0, 111, 228, 221, 235] ++ List.replicate 242 0) 8] := by
  decide

end SorterInterface
