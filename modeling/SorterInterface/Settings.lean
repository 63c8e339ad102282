import SorterInterface.Outputs

/-! # The axes' settings

`initialize_hardware` configures each of the `STEPPER_COUNT` axes: an acceleration of 20000 and
speed limits of 16 and 4000 for the stepper, and for its driver chip the enable bit, a run
current of 31, a hold current of 16 and a hold delay of 10, eighth microsteps and StealthChop
(`bootSettings`).  Five requests change one setting of one axis: `SET_SPEED_LIMITS`,
`SET_ACCELERATION`, `DRV_SET_ENABLED`, `DRV_SET_MICROSTEPS` and `DRV_SET_CURRENT`
(`writeSettings`).  An axis's settings here are the values its setters were last called with
(`settingsAfter`); `DRV_WRITE_REGISTER` writes a raw register of the chip, which this view does
not follow.

The calls the switch makes on a request move each axis's settings as the request does
(`settingsAfter_dispatch`), so from power-on each axis holds the boot settings with the accepted
requests applied in order (`boot_run_settings`).  `INIT` does not restore them: it stops the
steppers and clears the outputs, but leaves every setting as the host last set it, and a
`DRV_SET_MICROSTEPS` with a bad count changes nothing.
-/

namespace SorterInterface

open Message Dispatch

/-- The settings of a stepper and its driver chip. -/
structure AxisSettings where
  acceleration : BitVec 32
  /-- The minimum and maximum speed. -/
  speedLimits : BitVec 32 × BitVec 32
  enabled : Bool
  microsteps : Nat
  /-- The run current, hold current and hold delay. -/
  current : BitVec 32 × BitVec 32 × BitVec 32
  stealthChop : Bool
  deriving DecidableEq, Repr

/-- The axis a call sets a setting of. -/
def SetupCall.configures? : SetupCall → Option Nat
  | .call (.setSpeedLimits a _ _) | .call (.setAcceleration a _) | .call (.enableDriver a _)
  | .call (.setMicrosteps a _) | .call (.setCurrent a _ _ _) | .enableStealthChop a _ => some a
  | _ => none

/-- The setting a call sets. -/
def SetupCall.configure : SetupCall → AxisSettings → AxisSettings
  | .call (.setSpeedLimits _ lo hi), s => { s with speedLimits := (lo, hi) }
  | .call (.setAcceleration _ v), s => { s with acceleration := v }
  | .call (.enableDriver _ e), s => { s with enabled := e }
  | .call (.setMicrosteps _ n), s => { s with microsteps := n }
  | .call (.setCurrent _ run hold delay), s => { s with current := (run, hold, delay) }
  | .enableStealthChop _ e, s => { s with stealthChop := e }
  | _, s => s

/-- The settings of axis `a` after the calls, from the settings `s` it had. -/
def settingsAfter (cs : List SetupCall) (a : Nat) (s : AxisSettings) : AxisSettings :=
  cs.foldl (fun s c => if c.configures? = some a then c.configure s else s) s

/-- The settings `initialize_hardware` gives every axis. -/
def bootSettings : AxisSettings :=
  ⟨20000#32, (16#32, 4000#32), true, 8, (31#32, 16#32, 10#32), true⟩

theorem settingsAfter_append (cs ds : List SetupCall) (a : Nat) (s : AxisSettings) :
    settingsAfter (cs ++ ds) a s = settingsAfter ds a (settingsAfter cs a s) :=
  List.foldl_append _ _ _ _

/-- After the boot sequence every axis holds the boot settings, whatever it held before. -/
theorem settingsAfter_boot {k : Nat} (hk : k < stepperCount) (s : AxisSettings) :
    settingsAfter initializeHardware k s = bootSettings := by
  match k, hk with
  | 0, _ | 1, _ | 2, _ | 3, _ => rfl

/-! ## The requests -/

/-- The guard of a setter's case, then `f` on the settings of its channel. -/
def configureAxis (st : Nat → AxisSettings) (m : List UInt8) (length : Nat)
    (f : AxisSettings → AxisSettings) : Nat → AxisSettings :=
  if (payloadLength m).toNat = length ∧ (channel m).toNat < stepperCount then
    Function.update st (channel m).toNat (f (st (channel m).toNat))
  else st

/-- Each axis's settings as the host's requests set them. -/
def writeSettings (st : Nat → AxisSettings) (m : List UInt8) : Nat → AxisSettings :=
  match CommandCode.ofValue (command m) with
  | some .stepperSetSpeedLimits =>
    configureAxis st m 8 fun s => { s with speedLimits := (payloadWord m 0, payloadWord m 4) }
  | some .stepperSetAcceleration =>
    configureAxis st m 4 fun s => { s with acceleration := payloadWord m 0 }
  | some .stepperDrvSetEnabled =>
    configureAxis st m 4 fun s => { s with enabled := payloadWord m 0 != 0#32 }
  | some .stepperDrvSetMicrosteps =>
    if (payloadWord m 0).toNat ∈ [1, 2, 4, 8, 16, 32] then
      configureAxis st m 4 fun s => { s with microsteps := (payloadWord m 0).toNat }
    else st
  | some .stepperDrvSetCurrent =>
    configureAxis st m 12 fun s =>
      { s with current := (payloadWord m 0, payloadWord m 4, payloadWord m 8) }
  | _ => st

/-! ## The switch -/

/-- A setter's case moves the settings of each axis as its guard and `f` do, when the body
makes the one call that sets `f` on the channel. -/
theorem settingsAfter_guarded {m : List UInt8} {length : Nat} {body : Nat → Outcome × List Call}
    {c : Nat → Call} {f : AxisSettings → AxisSettings} (hb : ∀ ch, (body ch).2 = [c ch])
    (hc : ∀ ch, (SetupCall.call (c ch)).configures? = some ch)
    (hf : ∀ ch s, (SetupCall.call (c ch)).configure s = f s) (k : Nat) (st : Nat → AxisSettings) :
    settingsAfter ((guarded m length stepperCount body).2.map .call) k (st k) =
      configureAxis st m length f k := by
  unfold guarded configureAxis
  split_ifs with hg
  · simp only [hb, settingsAfter, List.map_singleton, List.foldl_cons, List.foldl_nil, hc, hf,
      Option.some.injEq, Function.update_apply]
    by_cases hk : (channel m).toNat = k
    · rw [if_pos hk, if_pos hk.symm, hk]
    · rw [if_neg hk, if_neg (Ne.symm hk)]
  · rfl

/-- **The switch moves each axis's settings as the request does**, whatever the collaborators
answer. -/
theorem settingsAfter_dispatch {hw : Replies} {m : List UInt8} {o : Outcome} {calls : List Call}
    (h : dispatch hw m = some (o, calls)) (k : Nat) (st : Nat → AxisSettings) :
    settingsAfter (calls.map .call) k (st k) = writeSettings st m k := by
  unfold dispatch at h
  unfold writeSettings
  cases hc : CommandCode.ofValue (command m) with
  | none =>
    simp only [hc, Option.some.injEq, Prod.mk.injEq] at h
    obtain ⟨-, rfl⟩ := h
    rfl
  | some c =>
    cases c <;> simp only [hc, Option.some.injEq] at h ⊢
    case stepperHome =>
      -- a homing call sets nothing
      rcases stepperHome_eq_some h with ⟨-, rfl⟩ | ⟨p, -, -, -, rfl⟩ <;> rfl
    all_goals first
      | obtain rfl : _ = calls := congrArg (·.2) h
      | rw [ping] at h
        split_ifs at h
        obtain rfl : _ = calls := congrArg (·.2) (Option.some.inj h)
    case stepperSetSpeedLimits =>
      exact settingsAfter_guarded
        (c := fun ch => .setSpeedLimits ch (payloadWord m 0) (payloadWord m 4))
        (fun _ => rfl) (fun _ => rfl) (fun _ _ => rfl) k st
    case stepperSetAcceleration =>
      exact settingsAfter_guarded (c := fun ch => .setAcceleration ch (payloadWord m 0))
        (fun _ => rfl) (fun _ => rfl) (fun _ _ => rfl) k st
    case stepperDrvSetEnabled =>
      exact settingsAfter_guarded (c := fun ch => .enableDriver ch (payloadWord m 0 != 0#32))
        (fun _ => rfl) (fun _ => rfl) (fun _ _ => rfl) k st
    case stepperDrvSetMicrosteps =>
      unfold stepperDrvSetMicrosteps
      split_ifs with hw
      · exact settingsAfter_guarded (c := fun ch => .setMicrosteps ch (payloadWord m 0).toNat)
          (fun _ => rfl) (fun _ => rfl) (fun _ _ => rfl) k st
      · unfold guarded
        split_ifs <;> rfl
    case stepperDrvSetCurrent =>
      exact settingsAfter_guarded
        (c := fun ch => .setCurrent ch (payloadWord m 0) (payloadWord m 4) (payloadWord m 8))
        (fun _ => rfl) (fun _ => rfl) (fun _ _ => rfl) k st
    -- no other case sets anything
    all_goals first
      | rfl
      | dsimp only [stepperMoveSteps, stepperMoveAtSpeed, stepperIsStopped, stepperGetPosition,
          stepperSetPosition, stepperDrvReadRegister, stepperDrvWriteRegister, digitalRead,
          digitalWrite, guarded]
        split_ifs <;> (try split) <;> rfl

/-! ## From power-on -/

/-- The calls the protocol owes a stream of frames move each axis's settings as the accepted
messages do. -/
theorem settingsAfter_frames {fs : List Frame} (hf : ∀ f ∈ fs, f.Whole) (k : Nat)
    (st : Nat → AxisSettings) :
    settingsAfter ((callsOf (fs.flatMap Frame.effects)).map .call) k (st k) =
      (fs.filterMap Frame.message?).foldl writeSettings st k :=
  (List.foldl_map _ _ _ _).trans (foldl_callsOf_frames _ writeSettings (· k)
    (fun hd st => (List.foldl_map _ _ _ _).symm.trans (settingsAfter_dispatch hd k st)) hf st)

/-- **From power-on, each axis holds the settings the host asked for.**  After
`initialize_hardware` and any stream of frames of 8 to 255 stuffed bytes whose messages announce
no more payload than they carry and are not a `HOME` with a negative sensor channel, sent to the
loop as `main` enters it, the setters of each axis
were last called with the boot settings overridden by the accepted requests, in order, whatever
the axis held at reset and whatever the collaborators answer.  `INIT` restores none of them, and
no other request, no rejected frame and no `DRV_SET_MICROSTEPS` with a bad count changes them. -/
theorem boot_run_settings (rx : List UInt8) (hrx : rx.length = 254) (fs : List Frame)
    (hf : ∀ f ∈ fs, f.Whole) {k : Nat} (hk : k < stepperCount) (s : AxisSettings) :
    settingsAfter (initializeHardware ++
        (callsOf (effects (run (LoopState.start rx hrx) (fs.flatMap Frame.inputs)))).map .call) k s =
      (fs.filterMap Frame.message?).foldl writeSettings (fun _ => bootSettings) k := by
  obtain ⟨-, -, hrun, -⟩ :=
    run_whole_frames (s := LoopState.start rx hrx) ⟨rfl, .inl (Int.le_refl 0)⟩ hf
  rw [hrun, settingsAfter_append, settingsAfter_boot hk]
  exact settingsAfter_frames hf k fun _ => bootSettings

/-- A `SET_ACCELERATION` of 500 on axis 2, an `INIT`, then a `DRV_SET_MICROSTEPS` with the count
3 on axis 2. -/
def accelerationInitMicrosteps : List Frame :=
  [.sent .idle [0, 0x13, 2, 4, 0xF4, 1, 0, 0], .sent .idle [0, 0x01, 0, 0],
    .sent .idle [0, 0x21, 2, 4, 3, 0, 0, 0]]

set_option maxRecDepth 8000 in
/-- Those three frames, on a board just started: axis 2 keeps the acceleration of 500 and eighth
microsteps. -/
theorem acceleration_kept_through_init :
    (∀ f ∈ accelerationInitMicrosteps, f.Whole) ∧
    settingsAfter (initializeHardware ++
        (callsOf (effects (run (LoopState.start (List.replicate 254 0) (List.length_replicate _ _))
          (accelerationInitMicrosteps.flatMap Frame.inputs)))).map .call) 2 bootSettings =
      (accelerationInitMicrosteps.filterMap Frame.message?).foldl writeSettings
        (fun _ => bootSettings) 2 := by
  refine ⟨?h, boot_run_settings _ _ _ ?h (by decide) _⟩
  decide

end SorterInterface
