import SorterInterface.Loop
import SorterInterface.Requests

/-! # The calls the loop makes

The switch indexes four arrays with numbers it reads from `rx_message`: `steppers` and
`tmc_drivers` with the channel, `digital_input_pins` with the channel of `DIGITAL_READ` and the
sensor channel of `HOME`, and `digital_output_pins` with the channel of `DIGITAL_WRITE`.  Each
case checks the channel against the array's count before it indexes (`Dispatch.guarded`), and
`CMD_INIT` runs over the counts themselves, so every call the switch makes stays within the
arrays (`dispatch_inBounds`), whatever the request holds.  `HOME` alone checks its sensor channel
from one side only, and its read below `digital_input_pins` is undefined behaviour, on which the
switch makes no call.

Every call of the loop comes from a run of the switch on `rx_message` (`call_mem_run`), so no
run of the loop, from any state and whatever stale bytes `rx_message` holds, makes a call outside
the arrays (`run_calls_inBounds`).
-/

namespace SorterInterface

open Message Dispatch

/-! ## What a call addresses -/

/-- The stepper and driver chip a call is on, for the calls on an axis. -/
def Call.axis? : Call → Option Nat
  | .moveSteps a _ | .moveAtSpeed a _ | .setSpeedLimits a _ _ | .setAcceleration a _
  | .isStopped a | .getPosition a | .setPosition a _ | .home a _ _ _ | .enableDriver a _
  | .setMicrosteps a _ | .setCurrent a _ _ _ | .readRegister a _ | .writeRegister a _ _ => some a
  | .gpioGet _ | .gpioPut _ _ => none

/-- The input line a call reads, or hands the stepper to home on. -/
def Call.sensed? : Call → Option Nat
  | .home _ _ pin _ => some pin
  | .gpioGet pin => some pin
  | _ => none

/-- The output line a call drives. -/
def Call.driven? : Call → Option Nat
  | .gpioPut pin _ => some pin
  | _ => none

/-- A call within the board's arrays: on one of the `STEPPER_COUNT` axes, reading one of
`digital_input_pins` and driving one of `digital_output_pins`. -/
structure Call.InBounds (c : Call) : Prop where
  axis : ∀ a ∈ c.axis?, a < stepperCount
  sensed : ∀ p ∈ c.sensed?, p ∈ digitalInputPins
  driven : ∀ p ∈ c.driven?, p ∈ digitalOutputPins

theorem inBounds_iff (c : Call) : c.InBounds ↔ (∀ a ∈ c.axis?, a < stepperCount) ∧
    (∀ p ∈ c.sensed?, p ∈ digitalInputPins) ∧ ∀ p ∈ c.driven?, p ∈ digitalOutputPins :=
  ⟨fun h => ⟨h.axis, h.sensed, h.driven⟩, fun ⟨h1, h2, h3⟩ => ⟨h1, h2, h3⟩⟩

instance (c : Call) : Decidable c.InBounds :=
  decidable_of_iff _ (inBounds_iff c).symm

/-- A call on an axis that reads and drives no line. -/
theorem inBounds_of_axis {c : Call} {a : Nat} (hax : c.axis? = some a)
    (hs : c.sensed? = none) (hd : c.driven? = none) (ha : a < stepperCount) : c.InBounds :=
  ⟨by simp [hax, ha], by simp [hs], by simp [hd]⟩

theorem getD_mem {l : List Nat} {i : Nat} (h : i < l.length) : l.getD i 0 ∈ l := by
  rw [List.getD_eq_getElem?_getD, List.getElem?_eq_getElem h]
  exact List.getElem_mem h

/-! ## The switch -/

theorem guarded_inBounds {m : List UInt8} {length count : Nat} {body : Nat → Outcome × List Call}
    (h : ∀ ch < count, ∀ c ∈ (body ch).2, c.InBounds) :
    ∀ c ∈ (guarded m length count body).2, c.InBounds := by
  unfold guarded
  split_ifs with hg
  · exact h _ hg.2
  · simp [exception]

/-- **The switch stays within the board's arrays** on every request. -/
theorem dispatch_inBounds {hw : Replies} {m : List UInt8} {o : Outcome} {calls : List Call}
    (h : dispatch hw m = some (o, calls)) : ∀ c ∈ calls, c.InBounds := by
  unfold dispatch at h
  split at h
  -- `HOME`
  case h_10 =>
    rcases stepperHome_eq_some h with ⟨-, rfl⟩ | ⟨p, hp, hch, -, rfl⟩
    · exact fun c hc => (List.not_mem_nil c hc).elim
    · intro c hc
      obtain rfl := List.mem_singleton.mp hc
      exact ⟨by simpa [Call.axis?] using hch, by simpa [Call.sensed?] using hp, nofun⟩
  all_goals first
    | obtain rfl : _ = calls := congrArg (·.2) (Option.some.inj h)
    | rw [ping] at h
      split_ifs at h
      cases h
  all_goals first
    | exact guarded_inBounds fun ch hch c hc => by
        repeat' split at hc
        all_goals simp only [List.mem_singleton, List.not_mem_nil] at hc
        all_goals first
          | exact hc.elim
          | subst hc
            exact inBounds_of_axis rfl rfl rfl hch
          -- `DIGITAL_READ`
          | subst hc
            exact ⟨nofun, fun p hp => by cases hp; exact getD_mem hch, nofun⟩
          -- `DIGITAL_WRITE`
          | subst hc
            exact ⟨nofun, nofun, fun p hp => by cases hp; exact getD_mem hch⟩
    -- `CMD_INIT`, and the cases that make no call
    | decide

/-! ## The loop -/

/-- Every call at the end of an iteration is one the switch makes on `rx_message`. -/
theorem call_mem_finish {hw : Replies} {s : LoopState} {c : Call}
    (h : .call c ∈ (finish hw s).1) :
    ∃ o calls, dispatch hw s.rxMessage = some (o, calls) ∧ c ∈ calls := by
  unfold finish at h
  split at h
  · split at h
    · simp at h
    · next calls hd => exact ⟨_, calls, hd, by simpa using h⟩
    · next calls hd =>
      refine ⟨_, calls, hd, ?_⟩
      split at h
      · simpa using h
      · split at h <;> simpa using h
  · simp at h

theorem call_mem_step {i : Input} {s : LoopState} {c : Call} (h : .call c ∈ (step i s).1) :
    ∃ m o calls, dispatch i.replies m = some (o, calls) ∧ c ∈ calls := by
  obtain ⟨t, ht, -⟩ := mem_step_finish h nofun
  exact ⟨_, call_mem_finish ht⟩

/-- Every call of a run is one the switch makes on some request. -/
theorem call_mem_run {s : LoopState} {is : List Input} {c : Call} (h : .call c ∈ run s is) :
    ∃ hw m o calls, dispatch hw m = some (o, calls) ∧ c ∈ calls := by
  induction is generalizing s with
  | nil => simp [run] at h
  | cons i is ih =>
    simp only [run, List.mem_append] at h
    rcases h with h | h
    · exact ⟨_, call_mem_step h⟩
    · split at h
      · exact ih h
      · simp at h

/-- **The loop never calls outside the board's arrays.**  In every run of the loop, from any
state, whatever bytes `rx_message` holds and whatever the collaborators answer, every call is on
one of the `STEPPER_COUNT` steppers and driver chips, every `gpio_get` reads a line of
`digital_input_pins`, every homing is given a line of `digital_input_pins`, and every `gpio_put`
drives a line of `digital_output_pins`. -/
theorem run_calls_inBounds (s : LoopState) (is : List Input) {c : Call}
    (h : .call c ∈ run s is) : c.InBounds := by
  obtain ⟨hw, m, o, calls, hd, hc⟩ := call_mem_run h
  exact dispatch_inBounds hd c hc

set_option maxRecDepth 4000 in
/-- The frame of a `DIGITAL_WRITE` setting output 1, on a board just started. -/
theorem digitalWrite_call_inBounds :
    .call (.gpioPut 15 true) ∈ run (LoopState.start (List.replicate 254 0) (List.length_replicate _ _))
        ((encodeFrom [] (appendCrc [0, 0x31, 1, 4, 1, 0, 0, 0])).map (fun b => ⟨.byte b, .idle⟩) ++
          [⟨.byte 0, .idle⟩]) ∧
      (Call.gpioPut 15 true).InBounds := by
  refine ⟨?h, run_calls_inBounds _ _ ?h⟩
  decide

end SorterInterface
