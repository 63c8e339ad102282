import SorterInterface.Setup
import SorterInterface.Effects

/-! # The digital outputs

The host sees the board's digital outputs as a register of channels (`writeOutputs`): `INIT`
clears every channel, `DIGITAL_WRITE` with a 4-byte payload on a channel below
`DIGITAL_OUTPUT_COUNT` sets that channel to whether its word is nonzero, and no other request
changes them.  The firmware keeps no such register: the level of each output line is whatever
the last `gpio_put` on it set.

The two agree.  Of all the cases of the switch only `INIT` and `DIGITAL_WRITE` drive a line
(`dispatch_undriven`), and the lines of `digital_output_pins` are distinct, so the calls the switch
makes on a request move each output line exactly as the request moves its channel
(`lineAfter_dispatch`).  The boot sequence drives every output line low, and on a stream of whole
frames the loop makes exactly the calls of the accepted messages, in order (`run_whole_frames`),
so from power-on each output line is an SIO output whose level is its channel in the register
after the accepted messages (`boot_run_outputs`).  `INIT` clears the outputs whatever its
`payload_length` and channel: its case checks neither.

No other line moves: every `gpio_put` of the loop is on a line of `digital_output_pins`, so after
the boot sequence and any run of the loop, from any state, the drivers' enable line still drives
low and every input line is still an input with its pull-up (`boot_run_keeps_lines`).
-/

namespace SorterInterface

open Message Dispatch

/-- The digital outputs as the requests set them, channel by channel. -/
def writeOutputs (out : Nat → Bool) (m : List UInt8) : Nat → Bool :=
  if command m = CommandCode.init.value then fun _ => false
  else if command m = CommandCode.digitalWrite.value ∧ (payloadLength m).toNat = 4 ∧
      (channel m).toNat < digitalOutputCount then
    Function.update out (channel m).toNat (payloadWord m 0 != 0#32)
  else out

/-! ## The switch -/

theorem guarded_undriven {m : List UInt8} {length count : Nat} {body : Nat → Outcome × List Call}
    (h : ∀ ch, ∀ c ∈ (body ch).2, c.driven? = none) :
    ∀ c ∈ (guarded m length count body).2, c.driven? = none := by
  unfold guarded
  split_ifs
  · exact h _
  · simp [exception]

/-- **Only `INIT` and `DIGITAL_WRITE` drive a line.** -/
theorem dispatch_undriven {hw : Replies} {m : List UInt8} {o : Outcome} {calls : List Call}
    (h : dispatch hw m = some (o, calls)) (hi : command m ≠ CommandCode.init.value)
    (hdw : command m ≠ CommandCode.digitalWrite.value) : ∀ c ∈ calls, c.driven? = none := by
  unfold dispatch at h
  split at h
  -- `HOME`
  case h_10 => rcases stepperHome_eq_some h with ⟨-, rfl⟩ | ⟨p, -, -, -, rfl⟩ <;> simp [Call.driven?]
  all_goals first
    | exact absurd (CommandCode.value_of_ofValue ‹_›).symm hi
    | exact absurd (CommandCode.value_of_ofValue ‹_›).symm hdw
    | obtain rfl : _ = calls := congrArg (·.2) (Option.some.inj h)
    | rw [ping] at h
      split_ifs at h
      cases h
  all_goals first
    | exact guarded_undriven fun ch c hc => by
        repeat' split at hc
        all_goals simp only [List.mem_singleton, List.not_mem_nil] at hc
        all_goals first
          | exact hc.elim
          | subst hc
            rfl
    | decide

@[simp] theorem line?_call (c : Call) : (SetupCall.call c).line? = c.driven? := by
  cases c <;> rfl

/-- Calls that drive no line `p` leave it as it was. -/
theorem lineAfter_undriven {calls : List Call} {p : Nat} (h : ∀ c ∈ calls, c.driven? ≠ some p)
    (l : Line) : lineAfter (calls.map .call) p l = l := by
  induction calls with
  | nil => rfl
  | cons c calls ih =>
    rw [List.map_cons, lineAfter_cons, line?_call, if_neg (h c (List.mem_cons_self _ _)),
      ih fun c' hc => h c' (List.mem_cons_of_mem _ hc)]

/-- The lines of `digital_output_pins` are distinct. -/
theorem digitalOutputPins_getD_inj {a b : Nat} (ha : a < digitalOutputCount)
    (hb : b < digitalOutputCount) (h : digitalOutputPins.getD a 0 = digitalOutputPins.getD b 0) :
    a = b := by
  match a, b, ha, hb with
  | 0, 0, _, _ | 1, 1, _, _ => rfl
  | 0, 1, _, _ | 1, 0, _, _ => cases h

/-- **The switch moves each output line as the request moves its channel.** -/
theorem lineAfter_dispatch {hw : Replies} {m : List UInt8} {o : Outcome} {calls : List Call}
    (h : dispatch hw m = some (o, calls)) {k : Nat} (hk : k < digitalOutputCount)
    {out : Nat → Bool} {l : Line} (hl : l.level = out k) :
    lineAfter (calls.map .call) (digitalOutputPins.getD k 0) l =
      { l with level := writeOutputs out m k } := by
  by_cases hi : command m = CommandCode.init.value
  · -- `INIT` drives every output line low
    rw [show dispatch hw m = some init by simp [dispatch, hi, CommandCode.ofValue_value]] at h
    obtain rfl : init.2 = calls := congrArg (·.2) (Option.some.inj h)
    simp only [writeOutputs, if_pos hi]
    match k, hk with
    | 0, _ | 1, _ => rfl
  by_cases hdw : command m = CommandCode.digitalWrite.value
  · -- `DIGITAL_WRITE` drives the line of its channel, once its guard passes
    rw [show dispatch hw m = some (digitalWrite m) by
      simp [dispatch, hdw, CommandCode.ofValue_value]] at h
    obtain rfl : (digitalWrite m).2 = calls := congrArg (·.2) (Option.some.inj h)
    rw [writeOutputs, if_neg hi]
    unfold digitalWrite guarded
    by_cases hg : (payloadLength m).toNat = 4 ∧ (channel m).toNat < digitalOutputCount
    · rw [if_pos hg, if_pos ⟨hdw, hg⟩, List.map_singleton, lineAfter_cons, line?_call,
        Function.update_apply, lineAfter_nil]
      dsimp only [Call.driven?]
      by_cases hch : k = (channel m).toNat
      · rw [if_pos (by rw [hch]), if_pos hch]
        rfl
      · have hne : digitalOutputPins.getD (channel m).toNat 0 ≠ digitalOutputPins.getD k 0 :=
          fun he => hch (digitalOutputPins_getD_inj hg.2 hk he).symm
        rw [if_neg fun he => hne (Option.some.inj he), if_neg hch, ← hl]
    · rw [if_neg hg, if_neg fun h' => hg h'.2, ← hl]
      rfl
  · -- every other request leaves the lines alone
    rw [lineAfter_undriven fun c hc => by simp [dispatch_undriven h hi hdw c hc]]
    simp [writeOutputs, hi, hdw, ← hl]

/-! ## From power-on -/

/-- The calls the protocol owes a stream of frames move each output line as the accepted
messages move its channel. -/
theorem lineAfter_frames (fs : List Frame) (hf : ∀ f ∈ fs, f.Whole) {k : Nat}
    (hk : k < digitalOutputCount) (out : Nat → Bool) {l : Line} (hl : l.level = out k) :
    lineAfter ((callsOf (fs.flatMap Frame.effects)).map .call) (digitalOutputPins.getD k 0) l =
      { l with level := (fs.filterMap Frame.message?).foldl writeOutputs out k } := by
  obtain ⟨sio, output, level, pullUp⟩ := l
  subst hl
  exact (List.foldl_map _ _ _ _).trans (foldl_callsOf_frames _ writeOutputs
    (fun out => (⟨sio, output, out k, pullUp⟩ : Line))
    (fun hd out => (List.foldl_map _ _ _ _).symm.trans
      (lineAfter_dispatch hd hk (l := ⟨sio, output, out k, pullUp⟩) rfl)) hf out)

/-- **From power-on, the output lines follow the host's requests.**  After `initialize_hardware`
and any stream of frames of 8 to 255 stuffed bytes whose messages announce no more payload than
they carry and are not a `HOME` with a negative sensor channel, sent to the loop as `main` enters
it, each line of `digital_output_pins` is an SIO
output, whatever its state at reset, and drives the level its channel has after the accepted
messages: low from the boot, cleared by every `INIT`, and set by each `DIGITAL_WRITE` on its
channel to whether its word is nonzero; no other request, and no rejected frame, moves it. -/
theorem boot_run_outputs (rx : List UInt8) (hrx : rx.length = 254) (fs : List Frame)
    (hf : ∀ f ∈ fs, f.Whole) {k : Nat} (hk : k < digitalOutputCount) (l : Line) :
    lineAfter (initializeHardware ++
        (callsOf (effects (run (LoopState.start rx hrx) (fs.flatMap Frame.inputs)))).map .call)
        (digitalOutputPins.getD k 0) l =
      { l with
        sio := true
        output := true
        level := (fs.filterMap Frame.message?).foldl writeOutputs (fun _ => false) k } := by
  obtain ⟨-, -, hrun, -⟩ := run_whole_frames (s := LoopState.start rx hrx) ⟨rfl, .inl (Int.le_refl 0)⟩ hf
  rw [hrun, lineAfter_append, lineAfter_boot_output hk, lineAfter_frames fs hf hk (fun _ => false) rfl]

/-- A `DIGITAL_WRITE` setting output 1, then an `INIT` whose frame carries a stray payload
byte. -/
def writeThenInit : List Frame :=
  [.sent .idle [0, 0x31, 1, 4, 1, 0, 0, 0], .sent .idle [0, 0x01, 0, 1, 7]]

set_option maxRecDepth 8000 in
/-- Those two frames, on a board just started: output 1 is low again. -/
theorem write_then_init_output :
    (∀ f ∈ writeThenInit, f.Whole) ∧
    lineAfter (initializeHardware ++
        (callsOf (effects (run (LoopState.start (List.replicate 254 0) (List.length_replicate _ _))
          (writeThenInit.flatMap Frame.inputs)))).map .call)
        (digitalOutputPins.getD 1 0) ⟨false, false, false, false⟩ =
      { (⟨false, false, false, false⟩ : Line) with
        sio := true
        output := true
        level := (writeThenInit.filterMap Frame.message?).foldl writeOutputs (fun _ => false) 1 } := by
  refine ⟨?h, boot_run_outputs _ _ _ ?h (by decide) _⟩
  decide

/-! ## The lines the host cannot move -/

/-- Every line the loop drives is one of `digital_output_pins`. -/
theorem driven_mem_run {s : LoopState} {is : List Input} {c : Call}
    (hc : c ∈ callsOf (effects (run s is))) : ∀ p ∈ c.driven?, p ∈ digitalOutputPins := by
  obtain ⟨hw, m, o, calls, hd, hm⟩ := call_mem_run (mem_callsOf_effects.mp hc)
  exact (dispatch_inBounds hd c hm).driven

/-- **No request moves the drivers' enable line or an input line.**  After `initialize_hardware`
and any run of the loop, from any state, whatever the host sends and the collaborators answer,
the drivers' common enable line `STEPPER_nEN_PIN` is still an SIO output driven low, and every
line of `digital_input_pins` is still an SIO input with its pull-up, whatever state they were in
at reset: the only lines the loop drives are those of `digital_output_pins`.  A driver can still
be switched off through its chip, by `DRV_SET_ENABLED`, which moves no line. -/
theorem boot_run_keeps_lines (s : LoopState) (is : List Input) (l : Line) :
    lineAfter (initializeHardware ++ (callsOf (effects (run s is))).map .call) stepperNEnPin l =
        { l with sio := true, output := true, level := false } ∧
      ∀ k < digitalInputCount,
        lineAfter (initializeHardware ++ (callsOf (effects (run s is))).map .call)
            (digitalInputPins.getD k 0) l =
          { l with sio := true, output := false, level := false, pullUp := true } := by
  have hkeep : ∀ p ∉ digitalOutputPins, ∀ c ∈ callsOf (effects (run s is)), c.driven? ≠ some p :=
    fun p hp c hc hd => hp (driven_mem_run hc p hd)
  refine ⟨?_, fun k hk => ?_⟩
  · rw [lineAfter_append, lineAfter_boot_enable, lineAfter_undriven (hkeep _ (by decide))]
  · rw [lineAfter_append, lineAfter_boot_input hk, lineAfter_undriven (hkeep _ ?_)]
    match k, hk with
    | 0, _ | 1, _ | 2, _ | 3, _ => decide

end SorterInterface
