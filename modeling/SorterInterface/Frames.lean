import SorterInterface.Reception
import SorterInterface.Requests

/-! # What the loop dispatches

The checks at a delimiter (lines 288–317) are all the loop does to a frame before the switch
reads it through the `struct Message` overlay.  `FrameInv` is what they leave behind: while
`msg_len > 0`, the last call of `COBS_decode` turned a run of 8 to 255 stuffed bytes into a
buffer `d` that passed the address and CRC checks (`Accepted`), `msg_len` is `|d| - 4`, and
`rx_message` begins with `d`.  The loop starts in it and every step keeps it, so it holds in
every reachable state (`reachable_frameInv`) and every dispatch of every run is of such a frame
(`dispatch_accepted`).

What the checks do not establish: `d` may be seven bytes long, and the header's
`payload_length` is never compared with `msg_len`.  The switch reads nothing past
`4 + payload_length` bytes (`dispatch_take`), so where the header agrees with the frame it
acts on the frame's own bytes; where it does not, it reads the frame's CRC and stale bytes of
`rx_message` (`header_overstating_payload_echoes_crc`).
-/

namespace SorterInterface

open Message

/-! ## The checks at a delimiter -/

theorem take_overwrite (buf d : List UInt8) (h : d.length ≤ buf.length) :
    (overwrite buf d).take d.length = d := by
  induction buf generalizing d with
  | nil => simp_all
  | cons b buf ih =>
    cases d with
    | nil => simp
    | cons x d => simp [overwrite, ih d (by simpa using h)]

/-- What the checks compute: a decoded buffer of 4 to 254 bytes passes when it is addressed to
the board and its last four bytes are the CRC of the others, and `msg_len` is then its length
without the CRC. -/
theorem checkFrame_msgLen (s : LoopState) {d : List UInt8} (h4 : 4 ≤ d.length)
    (h254 : d.length ≤ 254) :
    (checkFrame s d).msgLen =
      if d.getD 0 0 = deviceAddress ∧ crcMatches d then (d.length : Int) - 4 else -1 := by
  have htake := take_overwrite s.rxMessage d (by rw [s.rxMessage_length]; exact h254)
  simp only [checkFrame]
  generalize overwrite s.rxMessage d = rx at htake ⊢
  have haddr : rx.getD 0 0 = d.getD 0 0 := by rw [← htake, getD_take (by omega)]
  have hmsg : d.take (d.length - 4) = rx.take (d.length - 4) :=
    calc d.take (d.length - 4) = (rx.take d.length).take (d.length - 4) := by rw [htake]
      _ = rx.take (d.length - 4) := by rw [List.take_take, Nat.min_eq_left (by omega)]
  have hcrc : d.drop (d.length - 4) = (rx.drop (d.length - 4)).take 4 :=
    calc d.drop (d.length - 4) = (rx.take d.length).drop (d.length - 4) := by rw [htake]
      _ = (rx.drop (d.length - 4)).take (d.length - (d.length - 4)) := List.drop_take _ _ _
      _ = (rx.drop (d.length - 4)).take 4 := by rw [show d.length - (d.length - 4) = 4 by omega]
  simp only [haddr, crcMatches, hmsg, hcrc, ne_eq]
  split_ifs <;> simp_all

/-! ## The invariant -/

/-- What the checks at a delimiter establish about a message `m` dispatched with
`msg_len = n`: `COBS_decode` turned the run `x` of 8 to 255 stuffed bytes into `d`, whose first
byte is `DEVICE_ADDRESS` and whose last four bytes are the CRC of the others; `n` is `|d| - 4`,
and `m`, the 254 bytes of `rx_message`, begins with `d`. -/
structure Accepted (x d m : List UInt8) (n : Nat) : Prop where
  run_length : 8 ≤ x.length ∧ x.length ≤ 255
  decoded_length : d.length + 1 = x.length
  msgLen_eq : d.length = n + 4
  address : d.getD 0 0 = deviceAddress
  crc : crcMatches d
  begins : d <+: m
  message_length : m.length = 254

/-- The invariant of the loop: while `msg_len > 0`, the frame in `rx_message` is the one the
last call of `COBS_decode`, `last`, accepted. -/
def FrameInv (last : Option (List UInt8 × Option (List UInt8))) (s : LoopState) : Prop :=
  0 < s.msgLen → ∃ x d, last = some (x, some d) ∧ Accepted x d s.rxMessage s.msgLen.toNat

/-- Every dispatch among the actions is of the frame the last call of `COBS_decode` before it
accepted; `last` is the last call before the actions. -/
def DispatchesAccepted : Option (List UInt8 × Option (List UInt8)) → List Action → Prop
  | _, [] => True
  | last, a :: acts =>
    (∀ m n, a = .dispatch m n → ∃ x d, last = some (x, some d) ∧ Accepted x d m n) ∧
      DispatchesAccepted (a.decodeCall?.or last) acts

theorem decodeCalls_cons (a : Action) (acts : List Action) :
    decodeCalls (a :: acts) = a.decodeCall?.toList ++ decodeCalls acts := by
  cases a <;> rfl

theorem getLast?_decodeCalls_cons (a : Action) (acts : List Action)
    (last : Option (List UInt8 × Option (List UInt8))) :
    (decodeCalls (a :: acts)).getLast?.or last =
      (decodeCalls acts).getLast?.or (a.decodeCall?.or last) := by
  rw [decodeCalls_cons, List.getLast?_append, Option.or_assoc]
  cases a.decodeCall? <;> rfl

theorem dispatchesAccepted_append (last : Option (List UInt8 × Option (List UInt8)))
    (a b : List Action) :
    DispatchesAccepted last (a ++ b) ↔
      DispatchesAccepted last a ∧ DispatchesAccepted ((decodeCalls a).getLast?.or last) b := by
  induction a generalizing last with
  | nil => simp [DispatchesAccepted]
  | cons x a ih =>
    simp only [List.cons_append, DispatchesAccepted, List.append_eq, ih, getLast?_decodeCalls_cons,
      and_assoc]

theorem dispatchesAccepted_calls (last : Option (List UInt8 × Option (List UInt8)))
    (calls : List Call) (tail : List Action) :
    DispatchesAccepted last (calls.map .call ++ tail) ↔ DispatchesAccepted last tail := by
  induction calls with
  | nil => rfl
  | cons c calls ih => simp [DispatchesAccepted, ih, Action.decodeCall?]

/-- The checks of a delimiter establish the invariant for the call of `COBS_decode` they
follow. -/
theorem checkFrame_inv (s : LoopState) {d : List UInt8} (hd : cobsDecode s.rxBuffer 254 = some d)
    (h8 : ¬ s.rxBuffer.length < 8) : FrameInv (some (s.rxBuffer, some d)) (checkFrame s d) := by
  have hlen := cobsDecode_length hd (by rintro h; simp [h] at h8) s.rxBuffer_length_le
  have h254 := cobsDecode_length_le hd
  intro hpos
  rw [checkFrame_msgLen s (by omega) h254] at hpos ⊢
  split_ifs at hpos ⊢ with hok
  · have htake := take_overwrite s.rxMessage d (by rw [s.rxMessage_length]; exact h254)
    exact ⟨_, _, rfl, ⟨by omega, s.rxBuffer_length_le⟩, hlen, by omega, hok.1, hok.2,
      List.prefix_iff_eq_take.mpr htake.symm, by simp [checkFrame, s.rxMessage_length]⟩
  · omega

/-- A delimiter sets `msg_len` afresh: the invariant holds after it, whatever held before. -/
theorem delimit_inv (last : Option (List UInt8 × Option (List UInt8))) (s : LoopState) :
    DispatchesAccepted last (delimit s).1 ∧
      FrameInv ((decodeCalls (delimit s).1).getLast?.or last) (delimit s).2 := by
  unfold delimit
  split
  · exact ⟨trivial, fun h => by simp at h⟩
  · split
    · exact ⟨by simp [DispatchesAccepted], fun h => by simp at h⟩
    · next h8 _ d hd =>
      refine ⟨by simp [DispatchesAccepted], ?_⟩
      simpa [decodeCalls, Action.decodeCall?, hd] using checkFrame_inv s hd h8

theorem finish_inv (hw : Replies) {last : Option (List UInt8 × Option (List UInt8))}
    {s : LoopState} (hinv : FrameInv last s) :
    DispatchesAccepted last (finish hw s).1 ∧
      ∀ s', (finish hw s).2 = some s' → FrameInv last s' := by
  rcases finish_cases hw s with ⟨-, hf⟩ | ⟨hpos, calls, tail, hf, htail⟩
  · rw [hf]
    exact ⟨trivial, fun s' h => by cases h; exact hinv⟩
  · refine ⟨?_, fun s' h => ?_⟩
    · rw [hf]
      refine ⟨fun m n h => ?_, ?_⟩
      · cases h
        exact hinv hpos
      · rw [List.append_eq, dispatchesAccepted_calls]
        rcases htail with ⟨rfl, -⟩ | ⟨rfl, -⟩ | ⟨c, p, -, -, rfl, -⟩ <;>
          simp [DispatchesAccepted, Action.decodeCall?]
    · rcases htail with ⟨-, hn⟩ | ⟨-, hs⟩ | ⟨-, -, -, -, -, hs⟩
      · simp [hn] at h
      · cases hs ▸ h
        exact hinv
      · cases hs ▸ h
        exact fun h0 => absurd h0 (by simp)

/-- **One step keeps the invariant**, and every dispatch it makes is of an accepted frame. -/
theorem step_inv (i : Input) {last : Option (List UInt8 × Option (List UInt8))} {s : LoopState}
    (hinv : FrameInv last s) :
    DispatchesAccepted last (step i s).1 ∧
      ∀ s', (step i s).2 = some s' →
        FrameInv ((decodeCalls (step i s).1).getLast?.or last) s' := by
  rcases step_cases i s with ⟨s', hs, hm, hl⟩ | ⟨pre, t, hs, -, ht⟩
  · -- a byte stored
    rw [hs]
    refine ⟨trivial, fun s'' h => ?_⟩
    cases h
    intro hpos
    rw [hl] at hpos
    rw [hm, hl]
    exact hinv hpos
  · -- the end of an iteration, after the decode of a delimiter
    obtain ⟨hpre, hpost⟩ : DispatchesAccepted last pre ∧
        FrameInv ((decodeCalls pre).getLast?.or last) t := by
      rcases ht with ⟨rfl, rfl | ht⟩ | hd
      · exact ⟨trivial, hinv⟩
      · exact ⟨trivial, fun h => absurd h (by omega)⟩
      · simpa [hd] using delimit_inv last s
    obtain ⟨hf1, hf2⟩ := finish_inv i.replies hpost
    rw [hs]
    refine ⟨(dispatchesAccepted_append _ _ _).mpr ⟨hpre, hf1⟩, fun s' h => ?_⟩
    simpa [decodeCalls_finish] using hf2 s' h

/-- **Every dispatch of a run is of an accepted frame**, from any state in the invariant. -/
theorem run_inv {last : Option (List UInt8 × Option (List UInt8))} {s : LoopState}
    (hinv : FrameInv last s) (is : List Input) : DispatchesAccepted last (run s is) := by
  induction is generalizing s last with
  | nil => trivial
  | cons i is ih =>
    obtain ⟨h1, h2⟩ := step_inv i hinv
    simp only [run]
    refine (dispatchesAccepted_append _ _ _).mpr ⟨h1, ?_⟩
    split
    · exact ih (h2 _ ‹_›)
    · trivial

/-- The invariant holds in every state the loop reaches from its start. -/
theorem reachable_frameInv {s : LoopState} (h : Reachable s) : ∃ last, FrameInv last s := by
  induction h with
  | start rx h => exact ⟨none, fun h => by simp [LoopState.start] at h⟩
  | step i _ hs ih =>
    obtain ⟨last, hinv⟩ := ih
    exact ⟨_, (step_inv i hinv).2 _ hs⟩

/-! ## What the switch reads -/

/-- Where the header agrees with the frame, the switch acts on the frame's own bytes: the
message part of `d`, without its CRC and without what `rx_message` holds past it. -/
theorem Accepted.dispatch_eq {x d m : List UInt8} {n : Nat} (hacc : Accepted x d m n)
    (hw : Replies) (hpl : 4 + (payloadLength m).toNat ≤ n) :
    dispatch hw m = dispatch hw (d.take n) := by
  have hd : m.take d.length = d := (List.prefix_iff_eq_take.mp hacc.begins).symm
  have hn := hacc.msgLen_eq
  refine dispatch_congr hw ?_
  rw [List.take_take, Nat.min_eq_left hpl, ← hd, List.take_take, Nat.min_eq_left (by omega)]

/-- **Every dispatch is of an accepted frame.**  In every run of the loop from its start, over
any bytes and read timeouts, a message `m` dispatched with `msg_len = n` was accepted by the
last call of `COBS_decode` before the dispatch, which produced `d`: `|d| = n + 4` is at least
7, `d` is addressed to the board and carries its CRC, and `rx_message` begins with `d`.
`payload_length` is not compared with `n`: only where `4 + payload_length ≤ n` does the switch
act on the message bytes of `d` alone. -/
theorem dispatch_accepted (rx : List UInt8) (h : rx.length = 254) (is : List Input)
    (pre post : List Action) (m : List UInt8) (n : Nat)
    (hrun : run (LoopState.start rx h) is = pre ++ .dispatch m n :: post) :
    ∃ x d, (decodeCalls pre).getLast? = some (x, some d) ∧ Accepted x d m n ∧
      ∀ hw, 4 + (payloadLength m).toNat ≤ n → dispatch hw m = dispatch hw (d.take n) := by
  have hall := run_inv (show FrameInv none (LoopState.start rx h) from
    fun h0 => by simp [LoopState.start] at h0) is
  rw [hrun, dispatchesAccepted_append] at hall
  obtain ⟨x, d, hlast, hacc⟩ := hall.2.1 m n rfl
  exact ⟨x, d, by simpa using hlast, hacc, fun hw hpl => hacc.dispatch_eq hw hpl⟩

set_option maxRecDepth 4000 in
/-- The frame of a `PING` with no payload, on a board just started. -/
theorem ping_frame_accepted :
    ∃ x d, (decodeCalls [.decode [1, 2, 2, 1, 5, 114, 11, 192, 34]
        (some [0, 2, 0, 0, 114, 11, 192, 34])]).getLast? = some (x, some d) ∧
      Accepted x d ([0, 2, 0, 0, 114, 11, 192, 34] ++ List.replicate 246 0) 4 ∧
      ∀ hw, 4 + (payloadLength ([0, 2, 0, 0, 114, 11, 192, 34] ++ List.replicate 246 0)).toNat ≤ 4 →
        dispatch hw ([0, 2, 0, 0, 114, 11, 192, 34] ++ List.replicate 246 0) =
          dispatch hw (d.take 4) :=
  dispatch_accepted (List.replicate 254 0) (List.length_replicate _ _)
    (([1, 2, 2, 1, 5, 114, 11, 192, 34, 0] : List UInt8).map fun b => ⟨.byte b, .idle⟩)
    [.decode [1, 2, 2, 1, 5, 114, 11, 192, 34] (some [0, 2, 0, 0, 114, 11, 192, 34])]
    [.write (encodeFrom [] (appendCrc [0, 2, 0, 0]))] _ 4 (by decide)

set_option maxRecDepth 4000 in
/-- The frame of a `PING` whose header announces four payload bytes and which carries none: the
frame is accepted and dispatched with `msg_len = 4`, and the `PING` echoes the frame's CRC. -/
theorem header_overstating_payload_echoes_crc :
    run (LoopState.start (List.replicate 254 0xAA) (List.length_replicate _ _))
        ((encodeFrom [] (appendCrc [0, 2, 0, 4])).map (fun b => ⟨.byte b, .idle⟩) ++
          [⟨.byte 0, .idle⟩]) =
      [.decode (encodeFrom [] (appendCrc [0, 2, 0, 4])) (some (appendCrc [0, 2, 0, 4])),
        .dispatch (appendCrc [0, 2, 0, 4] ++ List.replicate 246 0xAA) 4,
        .write (encodeFrom [] (appendCrc (appendCrc [0, 2, 0, 4])))] := by
  decide

end SorterInterface
