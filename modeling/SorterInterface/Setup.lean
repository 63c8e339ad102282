import SorterInterface.Calls

/-! # Bringing the board up

`main` calls `initialize_hardware` (lines 229–260) before it enters the communication loop.  It
sets up the TMC UART bus; for each of the `STEPPER_COUNT` axes it initialises the stepper with an
acceleration of 20000 and speed limits of 16 and 4000, and initialises the driver chip, enables
it, and sets run current 31, hold current 16 and hold delay 10, eighth microsteps and StealthChop;
it then makes the drivers' common enable line `STEPPER_nEN_PIN` an output driven low, every line
of `digital_input_pins` an input with its pull-up, and every line of `digital_output_pins` an
output driven low.  `initializeHardware` is that sequence of calls.

The GPIO lines are modelled by what the Pico SDK calls set on them (`Line`): `gpio_init` hands a
line to the SIO block as an input driving low, `gpio_set_dir` sets its direction, `gpio_pull_up`
turns its pull-up on and `gpio_put` sets the level it drives; `gpio_get` only reads.  Each line
follows the calls that name it (`lineAfter`), from whatever state it was in at reset.

After the boot sequence every output line is an SIO output driven low, every input line an SIO
input with its pull-up, and the enable line an SIO output driven low, whatever their state at
reset (`lineAfter_boot_output`, `lineAfter_boot_input`, `lineAfter_boot_enable`).
-/

namespace SorterInterface

/-- A call `initialize_hardware` makes: on the TMC UART bus, a stepper, a driver chip or a GPIO
line.  `stepperInit` and `driverInit` are the `initialize()` of a stepper and of a driver chip;
the calls the dispatcher makes as well are `Call`s. -/
inductive SetupCall where
  | setupComm (baudrate txPin rxPin : Nat)
  | stepperInit (axis : Nat)
  | driverInit (axis : Nat)
  | enableStealthChop (axis : Nat) (enabled : Bool)
  | gpioInit (pin : Nat)
  | gpioSetDir (pin : Nat) (out : Bool)
  | gpioPullUp (pin : Nat)
  | call (c : Call)
  deriving DecidableEq, Repr

/-- `initialize_hardware()`, call by call; `MICROSTEP_8` is the microstep count 8. -/
def initializeHardware : List SetupCall :=
  .setupComm tmcUartBaudrate tmcUartTxPin tmcUartRxPin ::
    ((List.range stepperCount).flatMap fun i =>
      [.stepperInit i, .call (.setAcceleration i 20000#32), .call (.setSpeedLimits i 16#32 4000#32),
        .driverInit i, .call (.enableDriver i true), .call (.setCurrent i 31#32 16#32 10#32),
        .call (.setMicrosteps i 8), .enableStealthChop i true]) ++
    [.gpioInit stepperNEnPin, .gpioSetDir stepperNEnPin true, .call (.gpioPut stepperNEnPin false)] ++
    ((List.range digitalInputCount).flatMap fun i =>
      [.gpioInit (digitalInputPins.getD i 0), .gpioSetDir (digitalInputPins.getD i 0) false,
        .gpioPullUp (digitalInputPins.getD i 0)]) ++
    (List.range digitalOutputCount).flatMap fun i =>
      [.gpioInit (digitalOutputPins.getD i 0), .gpioSetDir (digitalOutputPins.getD i 0) true,
        .call (.gpioPut (digitalOutputPins.getD i 0) false)]

/-! ## GPIO lines -/

/-- What the SDK sets on a GPIO line: whether the SIO block has it, whether it drives as an
output, the level it drives, and whether its pull-up is on. -/
structure Line where
  sio : Bool
  output : Bool
  level : Bool
  pullUp : Bool
  deriving DecidableEq, Repr

/-- The line a call sets something on. -/
def SetupCall.line? : SetupCall → Option Nat
  | .gpioInit p | .gpioSetDir p _ | .gpioPullUp p | .call (.gpioPut p _) => some p
  | _ => none

/-- What a call sets on its line. -/
def SetupCall.apply : SetupCall → Line → Line
  | .gpioInit _, l => { l with sio := true, output := false, level := false }
  | .gpioSetDir _ out, l => { l with output := out }
  | .gpioPullUp _, l => { l with pullUp := true }
  | .call (.gpioPut _ v), l => { l with level := v }
  | _, l => l

/-- Line `p` after the calls, from the state `l` it was in. -/
def lineAfter (cs : List SetupCall) (p : Nat) (l : Line) : Line :=
  cs.foldl (fun l c => if c.line? = some p then c.apply l else l) l

@[simp] theorem lineAfter_nil (p : Nat) (l : Line) : lineAfter [] p l = l := rfl

theorem lineAfter_append (cs ds : List SetupCall) (p : Nat) (l : Line) :
    lineAfter (cs ++ ds) p l = lineAfter ds p (lineAfter cs p l) :=
  List.foldl_append _ _ _ _

theorem lineAfter_cons (c : SetupCall) (cs : List SetupCall) (p : Nat) (l : Line) :
    lineAfter (c :: cs) p l = lineAfter cs p (if c.line? = some p then c.apply l else l) := rfl

/-! ## After the boot sequence -/

/-- **Every output line is an SIO output driven low** after the boot sequence. -/
theorem lineAfter_boot_output {k : Nat} (hk : k < digitalOutputCount) (l : Line) :
    lineAfter initializeHardware (digitalOutputPins.getD k 0) l =
      { l with sio := true, output := true, level := false } := by
  match k, hk with
  | 0, _ | 1, _ => rfl

/-- **Every input line is an SIO input with its pull-up** after the boot sequence. -/
theorem lineAfter_boot_input {k : Nat} (hk : k < digitalInputCount) (l : Line) :
    lineAfter initializeHardware (digitalInputPins.getD k 0) l =
      { l with sio := true, output := false, level := false, pullUp := true } := by
  match k, hk with
  | 0, _ | 1, _ | 2, _ | 3, _ => rfl

/-- The drivers' enable line is an SIO output driven low, which enables them. -/
theorem lineAfter_boot_enable (l : Line) :
    lineAfter initializeHardware stepperNEnPin l =
      { l with sio := true, output := true, level := false } := rfl

end SorterInterface
