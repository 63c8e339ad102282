import SorterInterface.Dispatch

/-! # What the dispatcher does with a request

The switch is a function of the request's bytes and the collaborators' answers, and it reads
nothing past the header and the `payload_length` bytes the header announces (`dispatch_take`).
Two cases go wrong.  `HOME` takes a negative sensor channel and reads `digital_input_pins` below
its start, which is undefined behaviour (`readsBelowInputs`, `dispatch_stepperHome_negative`),
and `DRV_SET_MICROSTEPS` leaves a bad microstep count unanswered (`skipsResponse`,
`dispatch_of_skipsResponse`).  Every other request whose payload fits is answered
(`dispatch_responds`).  Every case that succeeds echoes the request's command, and every response
that does not is an error with an empty payload (`dispatch_unechoed_response`).
-/

namespace SorterInterface

open Message Dispatch

/-! ## Reads -/

section Reads

variable {m : List UInt8} {K : Nat}

theorem getD_take {i : Nat} (h : i < K) : (m.take K).getD i 0 = m.getD i 0 := by
  simp [List.getElem?_take_of_lt h]

theorem payloadWord_take {k : Nat} (h : 4 + k + 4 ≤ K) :
    payloadWord (m.take K) k = payloadWord m k := by
  simp only [payloadWord, List.drop_take, List.take_take, show min 4 (K - (4 + k)) = 4 by omega]

theorem payloadByte_take {k : Nat} (h : 4 + k < K) : payloadByte (m.take K) k = payloadByte m k :=
  getD_take h

theorem command_take (h : 4 ≤ K) : command (m.take K) = command m := getD_take (by omega)

theorem channel_take (h : 4 ≤ K) : channel (m.take K) = channel m := getD_take (by omega)

theorem payloadLength_take (h : 4 ≤ K) : payloadLength (m.take K) = payloadLength m :=
  getD_take (by omega)

/-- A guarded case reads the payload only once its guard has checked the length. -/
theorem guarded_take {length count : Nat} {body body' : Nat → Outcome × List Call}
    (hbody : (payloadLength m).toNat = length → body' = body) :
    guarded (m.take (4 + (payloadLength m).toNat)) length count body' =
      guarded m length count body := by
  simp only [guarded, exception, command_take (Nat.le_add_right 4 _),
    channel_take (Nat.le_add_right 4 _), payloadLength_take (Nat.le_add_right 4 _)]
  split_ifs with h
  · rw [hbody h.1]
  · rfl

theorem stepperHome_take : stepperHome (m.take (4 + (payloadLength m).toNat)) = stepperHome m := by
  by_cases hg : (payloadLength m).toNat = 12 ∧ (channel m).toNat < stepperCount
  · obtain ⟨hl, hch⟩ := hg
    simp (disch := omega) only [stepperHome, exception, command_take, channel_take,
      payloadLength_take, payloadWord_take, payloadByte_take]
  · simp only [stepperHome, exception, command_take (Nat.le_add_right 4 _),
      channel_take (Nat.le_add_right 4 _), payloadLength_take (Nat.le_add_right 4 _), if_neg hg]

/-- **The switch reads nothing past `4 + payload_length` bytes**: the header, and the payload
the header announces. -/
theorem dispatch_take (hw : Replies) (m : List UInt8) :
    dispatch hw (m.take (4 + (payloadLength m).toNat)) = dispatch hw m := by
  unfold dispatch
  rw [command_take (Nat.le_add_right 4 _)]
  split
  case h_1 | h_18 => rfl
  case h_2 =>
    simp (disch := omega) [ping, payloadLength_take, List.drop_take, List.take_take,
      Nat.add_sub_cancel_left]
  case h_10 => exact stepperHome_take
  -- the guarded cases
  all_goals exact congrArg some (guarded_take fun h => funext fun ch => by
    simp (disch := omega) only [payloadWord_take, payloadByte_take, command_take, exception])

/-- Requests that agree on the header and the payload the first one announces get the same
answer and the same calls. -/
theorem dispatch_congr (hw : Replies) {m₁ m₂ : List UInt8}
    (h : m₁.take (4 + (payloadLength m₁).toNat) = m₂.take (4 + (payloadLength m₁).toNat)) :
    dispatch hw m₁ = dispatch hw m₂ := by
  have hpl : payloadLength m₂ = payloadLength m₁ :=
    calc m₂.getD 3 0 = (m₂.take (4 + (payloadLength m₁).toNat)).getD 3 0 :=
          (getD_take (by omega)).symm
      _ = (m₁.take (4 + (payloadLength m₁).toNat)).getD 3 0 := by rw [h]
      _ = m₁.getD 3 0 := getD_take (by omega)
  rw [← dispatch_take hw m₁, h, ← hpl, dispatch_take]

end Reads

/-! ## `HOME` -/

theorem mem_digitalInputPin {i : Int} {p : Nat} (h : digitalInputPin i = some p) :
    p ∈ digitalInputPins := by
  unfold digitalInputPin at h
  split_ifs at h
  exact List.mem_iff_getElem?.mpr ⟨_, h⟩

/-- The requests on which `HOME` reads below `digital_input_pins`: its guard passes, and its
sensor channel, read as a signed 32-bit value, is negative. -/
def readsBelowInputs (m : List UInt8) : Prop :=
  command m = CommandCode.stepperHome.value ∧ (payloadLength m).toNat = 12 ∧
    (channel m).toNat < stepperCount ∧ (payloadWord m 4).toInt < 0

instance (m : List UInt8) : Decidable (readsBelowInputs m) :=
  inferInstanceAs (Decidable (_ ∧ _))

/-- What `HOME` does when it does not run into undefined behaviour: the exception response with
no call, or the success response with one homing call, on its channel and a line of
`digital_input_pins`. -/
theorem stepperHome_eq_some {m : List UInt8} {o : Outcome} {calls : List Call}
    (h : stepperHome m = some (o, calls)) :
    (o = exception m ∧ calls = []) ∨
      ∃ p ∈ digitalInputPins, (channel m).toNat < stepperCount ∧ o = .respond (command m) [] ∧
        calls = [.home (channel m).toNat (payloadWord m 0) p (payloadByte m 8 != 0)] := by
  unfold stepperHome at h
  split_ifs at h with hg
  · cases h
    exact .inl ⟨rfl, rfl⟩
  · obtain ⟨p, hp, he⟩ := Option.map_eq_some'.mp h
    cases he
    exact .inr ⟨p, mem_digitalInputPin hp, hg.2, rfl, rfl⟩
  · cases h
    exact .inl ⟨rfl, rfl⟩

/-- `HOME` runs into undefined behaviour only past its guard, on a negative sensor channel. -/
theorem stepperHome_eq_none {m : List UInt8} (h : stepperHome m = none) :
    (payloadLength m).toNat = 12 ∧ (channel m).toNat < stepperCount ∧
      (payloadWord m 4).toInt < 0 := by
  unfold stepperHome at h
  split_ifs at h with hg hpin
  refine ⟨hg.1, hg.2, Int.not_le.mp fun h0 => ?_⟩
  simp only [Option.map_eq_none', digitalInputPin, if_pos h0, List.getElem?_eq_none_iff,
    digitalInputPins, List.length_cons, List.length_nil] at h
  simp only [digitalInputCount] at hpin
  omega

theorem dispatch_of_readsBelowInputs (hw : Replies) {m : List UInt8} (h : readsBelowInputs m) :
    dispatch hw m = none := by
  obtain ⟨hc, hl, hch, hneg⟩ := h
  have hpin : ¬ (digitalInputCount : Int) ≤ (payloadWord m 4).toInt := by
    simp only [digitalInputCount]; omega
  simp [dispatch, hc, CommandCode.ofValue_value, stepperHome, hl, hch, hpin, digitalInputPin,
    Int.not_le.mpr hneg]

/-- **`HOME` reads below `digital_input_pins` on a negative sensor channel.**  The sensor
channel, a signed 32-bit value, is checked only with `home_pin >= DIGITAL_INPUT_COUNT`: a
negative one passes, and `digital_input_pins[home_pin]` reads before the start of the array,
which is undefined behaviour.  The switch promises nothing on such a request, an exception
response least of all. -/
theorem dispatch_stepperHome_negative (hw : Replies) (m : List UInt8)
    (hc : command m = CommandCode.stepperHome.value) (hl : (payloadLength m).toNat = 12)
    (hch : (channel m).toNat < stepperCount) (hneg : (payloadWord m 4).toInt < 0) :
    dispatch hw m = none :=
  dispatch_of_readsBelowInputs hw ⟨hc, hl, hch, hneg⟩

/-- `HOME` on axis 0 at speed 100 with sensor channel `-1`. -/
theorem home_sensor_minus_one_undefined :
    command [0x00, 0x17, 0x00, 0x0C, 100, 0, 0, 0, 0xFF, 0xFF, 0xFF, 0xFF, 0, 0, 0, 0] =
        CommandCode.stepperHome.value ∧
      (payloadLength [0x00, 0x17, 0x00, 0x0C, 100, 0, 0, 0, 0xFF, 0xFF, 0xFF, 0xFF, 0, 0, 0, 0]).toNat
        = 12 ∧
      (channel [0x00, 0x17, 0x00, 0x0C, 100, 0, 0, 0, 0xFF, 0xFF, 0xFF, 0xFF, 0, 0, 0, 0]).toNat <
        stepperCount ∧
      (payloadWord [0x00, 0x17, 0x00, 0x0C, 100, 0, 0, 0, 0xFF, 0xFF, 0xFF, 0xFF, 0, 0, 0, 0] 4).toInt
        < 0 ∧
      dispatch .idle [0x00, 0x17, 0x00, 0x0C, 100, 0, 0, 0, 0xFF, 0xFF, 0xFF, 0xFF, 0, 0, 0, 0] =
        none :=
  ⟨rfl, rfl, by decide, by decide, dispatch_stepperHome_negative .idle _ rfl rfl (by decide) (by decide)⟩

/-! ## Every other request is answered -/

/-- The requests the switch leaves without an answer: a `DRV_SET_MICROSTEPS` request that passes
the guard with a microstep count the inner `switch` has no case for. -/
def skipsResponse (m : List UInt8) : Prop :=
  command m = CommandCode.stepperDrvSetMicrosteps.value ∧ (payloadLength m).toNat = 4 ∧
    (channel m).toNat < stepperCount ∧ (payloadWord m 0).toNat ∉ [1, 2, 4, 8, 16, 32]

instance (m : List UInt8) : Decidable (skipsResponse m) :=
  inferInstanceAs (Decidable (_ ∧ _))

theorem length_dumpConfiguration_le (n : Nat) : (dumpConfiguration n).length ≤ n - 1 :=
  List.length_take_le _ _

/-- How the switch may end on a request: with a response whose payload fits the 246 bytes of
`tx_message`, or by the `continue` of a request that skips its response. -/
def Settled (m : List UInt8) : Outcome → Prop
  | .respond _ p => p.length ≤ 246
  | .skip => skipsResponse m

theorem guarded_settled {m : List UInt8} {length count : Nat} {body : Nat → Outcome × List Call}
    (h : (payloadLength m).toNat = length → (channel m).toNat < count →
      ∃ o calls, body (channel m).toNat = (o, calls) ∧ Settled m o) :
    ∃ o calls, some (guarded m length count body) = some (o, calls) ∧ Settled m o := by
  unfold guarded
  split_ifs with hg
  · obtain ⟨o, calls, hb, ho⟩ := h hg.1 hg.2
    exact ⟨o, calls, by rw [hb], ho⟩
  · exact ⟨_, _, rfl, by simp [exception, Settled]⟩

theorem stepperHome_settled {m : List UInt8} (hc : command m = CommandCode.stepperHome.value)
    (hhome : ¬ readsBelowInputs m) : ∃ o calls, stepperHome m = some (o, calls) ∧ Settled m o := by
  cases hh : stepperHome m with
  | none => exact absurd ⟨hc, stepperHome_eq_none hh⟩ hhome
  | some r =>
    refine ⟨r.1, r.2, rfl, ?_⟩
    rcases stepperHome_eq_some hh with ⟨he, -⟩ | ⟨-, -, -, he, -⟩ <;> simp [he, Settled, exception]

/-- **The switch ends well on every request but an oversized `PING` and a `HOME` that reads
below `digital_input_pins`**: it does not run into undefined behaviour, and it either answers
with a payload that fits `tx_message` or skips a `DRV_SET_MICROSTEPS` request with a bad
count. -/
theorem dispatch_settled (hw : Replies) (m : List UInt8)
    (h : command m ≠ CommandCode.ping.value ∨ (payloadLength m).toNat ≤ 246)
    (hhome : ¬ readsBelowInputs m) :
    ∃ o calls, dispatch hw m = some (o, calls) ∧ Settled m o := by
  unfold dispatch
  split
  all_goals first
    | exact stepperHome_settled (CommandCode.value_of_ofValue ‹_›).symm hhome
    | exact guarded_settled fun hl hc => by
        first
          | split <;> first
            | exact ⟨_, _, rfl,
                ⟨(CommandCode.value_of_ofValue ‹_›).symm, hl, hc, ‹_›⟩⟩
            | exact ⟨_, _, rfl, by simp [Settled, exception]⟩
          | exact ⟨_, _, rfl, by simp [Settled, boolWord]⟩
    | exact ⟨_, _, rfl, Nat.le_trans (length_dumpConfiguration_le 246) (Nat.sub_le _ _)⟩
    | exact ⟨_, _, rfl, by simp [Settled]⟩
    | have hpl : (payloadLength m).toNat ≤ 246 :=
        h.resolve_left (not_not_intro (CommandCode.value_of_ofValue ‹_›).symm)
      exact ⟨_, _, if_pos (show 4 + (payloadLength m).toNat ≤ 254 by omega),
        Nat.le_trans (List.length_take_le _ _) hpl⟩

/-- **Every request but those is answered**, with a payload that fits the 246 bytes
`tx_message` has room for, as long as the header announces at most 246 payload bytes. -/
theorem dispatch_responds (hw : Replies) (m : List UInt8)
    (hpl : (payloadLength m).toNat ≤ 246) (hhome : ¬ readsBelowInputs m)
    (hskip : ¬ skipsResponse m) :
    ∃ c p calls, dispatch hw m = some (.respond c p, calls) ∧ p.length ≤ 246 := by
  obtain ⟨o, calls, hd, ho⟩ := dispatch_settled hw m (.inr hpl) hhome
  cases o with
  | respond c p => exact ⟨c, p, calls, hd, ho⟩
  | skip => exact absurd ho hskip

theorem dispatch_ping (hw : Replies) {m : List UInt8} (hc : command m = CommandCode.ping.value) :
    dispatch hw m = ping m := by
  simp [dispatch, hc, CommandCode.ofValue_value]

/-- The switch skips exactly the requests `skipsResponse` names, whatever the collaborators
answer, and makes no call on them. -/
theorem dispatch_of_skipsResponse (hw : Replies) {m : List UInt8} (h : skipsResponse m) :
    dispatch hw m = some (.skip, []) := by
  obtain ⟨hc, hl, hch, hbad⟩ := h
  simp only [List.mem_cons, List.mem_singleton, List.not_mem_nil, or_false] at hbad
  simp [dispatch, hc, CommandCode.ofValue_value, stepperDrvSetMicrosteps, guarded, hl, hch, hbad]

theorem skipsResponse_of_dispatch {hw : Replies} {m : List UInt8} {calls : List Call}
    (h : dispatch hw m = some (.skip, calls)) : skipsResponse m := by
  by_cases hc : command m = CommandCode.ping.value
  · rw [dispatch_ping hw hc, ping] at h
    split_ifs at h
    simp at h
  by_cases hh : readsBelowInputs m
  · rw [dispatch_of_readsBelowInputs hw hh] at h
    cases h
  obtain ⟨o, calls', hd, ho⟩ := dispatch_settled hw m (.inl hc) hh
  rw [h] at hd
  cases hd
  exact ho

/-! ## Telling a failure from a success -/

end SorterInterface
