import SorterInterface.Board

/-! # The command dispatcher

The `switch (msg->command)` of `main` (lines 337–575) reads the request in `rx_message` through
the `struct Message` overlay, calls the steppers, driver chips and GPIO lines, and builds the
response in `tx_message`.  Fifteen of its cases open with the same guard on the payload length
and the channel, and fourteen differ only in their sizes, their collection and their body
(`Dispatch.guarded`).  `HOME` checks and reads its sensor channel besides and has its own body;
`DRV_SET_MICROSTEPS` leaves the switch by a `continue` for a bad microstep count, and
`DRV_READ_REGISTER` reports a failed read.

`dispatch` returns how the switch ends (`Outcome`) and the calls made, in order, or `none` where
the C code has undefined behaviour.  That happens in two cases.  The `PING` echo copies as many
bytes as the request's header claims, past the 254 bytes of `rx_message` and `tx_message` for a
large one.  And `HOME` checks its signed sensor channel against `DIGITAL_INPUT_COUNT` only from
above, so a negative one indexes `digital_input_pins` below its start.
-/

namespace SorterInterface

open Message

/-- How the switch ends: `break` with a response built in `tx_message`, its command byte and
payload, or the `continue` of the `DRV_SET_MICROSTEPS` default case, with nothing built to
send. -/
inductive Outcome where
  | respond (command : UInt8) (payload : List UInt8)
  | skip
  deriving DecidableEq, Repr

namespace Dispatch

/-- A `bool` result in a 4-byte payload: `*((uint32_t*)resp->payload) = res ? 1 : 0`. -/
def boolWord (b : Bool) : List UInt8 :=
  le32 (if b then 1#32 else 0#32)

/-- The exception response: `msg->command | 0x80`, empty payload. -/
def exception (m : List UInt8) : Outcome :=
  .respond (command m ||| 0x80) []

/-- The guard every per-axis and per-line case opens with, `msg->payload_length == length &&
msg->channel < count`: the case's body runs on the channel, or the request gets the exception
response and nothing is called. -/
def guarded (m : List UInt8) (length count : Nat) (body : Nat → Outcome × List Call) :
    Outcome × List Call :=
  if (payloadLength m).toNat = length ∧ (channel m).toNat < count then body (channel m).toNat
  else (exception m, [])

/-- `case CMD_INIT`: stop every stepper, clear every digital output, answer with the board
configuration.  `dump_configuration` returns the length it formatted, which is the length of
the bytes it wrote, since the text fits in 246 bytes. -/
def init : Outcome × List Call :=
  (.respond CommandCode.init.value (dumpConfiguration 246),
    (List.range stepperCount).map (Call.moveAtSpeed · 0#32) ++
      (List.range digitalOutputCount).map fun i => .gpioPut (digitalOutputPins.getD i 0) false)

set_option maxRecDepth 10000 in
example : (dumpConfiguration 246).length = configurationText.length := by decide

/-- `case CMD_PING`: echo `payload_length` bytes of the request's payload, as `memcpy` copies
them from `rx_message` to `tx_message`; past the 254 bytes of the buffers the copy is undefined
behaviour. -/
def ping (m : List UInt8) : Option (Outcome × List Call) :=
  if 4 + (payloadLength m).toNat ≤ 254 then
    some (.respond CommandCode.ping.value ((m.drop 4).take (payloadLength m).toNat), [])
  else none

/-- `case CMD_STEPPER_MOVE_STEPS`. -/
def stepperMoveSteps (hw : Replies) (m : List UInt8) : Outcome × List Call :=
  guarded m 4 stepperCount fun ch =>
    (.respond (command m) (boolWord (hw.moveSteps ch (payloadWord m 0))),
      [.moveSteps ch (payloadWord m 0)])

/-- `case CMD_STEPPER_MOVE_AT_SPEED`. -/
def stepperMoveAtSpeed (hw : Replies) (m : List UInt8) : Outcome × List Call :=
  guarded m 4 stepperCount fun ch =>
    (.respond (command m) (boolWord (hw.moveAtSpeed ch (payloadWord m 0))),
      [.moveAtSpeed ch (payloadWord m 0)])

/-- `case CMD_STEPPER_SET_SPEED_LIMITS`. -/
def stepperSetSpeedLimits (m : List UInt8) : Outcome × List Call :=
  guarded m 8 stepperCount fun ch =>
    (.respond (command m) [], [.setSpeedLimits ch (payloadWord m 0) (payloadWord m 4)])

/-- `case CMD_STEPPER_SET_ACCELERATION`. -/
def stepperSetAcceleration (m : List UInt8) : Outcome × List Call :=
  guarded m 4 stepperCount fun ch =>
    (.respond (command m) [], [.setAcceleration ch (payloadWord m 0)])

/-- `case CMD_STEPPER_IS_STOPPED`. -/
def stepperIsStopped (hw : Replies) (m : List UInt8) : Outcome × List Call :=
  guarded m 0 stepperCount fun ch =>
    (.respond (command m) (boolWord (hw.isStopped ch)), [.isStopped ch])

/-- `case CMD_STEPPER_GET_POSITION`. -/
def stepperGetPosition (hw : Replies) (m : List UInt8) : Outcome × List Call :=
  guarded m 0 stepperCount fun ch =>
    (.respond (command m) (le32 (hw.getPosition ch)), [.getPosition ch])

/-- `case CMD_STEPPER_SET_POSITION`. -/
def stepperSetPosition (m : List UInt8) : Outcome × List Call :=
  guarded m 4 stepperCount fun ch =>
    (.respond (command m) [], [.setPosition ch (payloadWord m 0)])

/-- `case CMD_STEPPER_HOME`: past the guard of the other cases, the sensor channel `home_pin`, a
signed 32-bit value, is checked with `home_pin >= DIGITAL_INPUT_COUNT` alone before it indexes
`digital_input_pins`, and a read outside the array is undefined behaviour. -/
def stepperHome (m : List UInt8) : Option (Outcome × List Call) :=
  if (payloadLength m).toNat = 12 ∧ (channel m).toNat < stepperCount then
    if (digitalInputCount : Int) ≤ (payloadWord m 4).toInt then some (exception m, [])
    else (digitalInputPin (payloadWord m 4).toInt).map fun pin =>
      (.respond (command m) [],
        [.home (channel m).toNat (payloadWord m 0) pin (payloadByte m 8 != 0)])
  else some (exception m, [])

/-- `case CMD_STEPPER_DRV_SET_ENABLED`. -/
def stepperDrvSetEnabled (m : List UInt8) : Outcome × List Call :=
  guarded m 4 stepperCount fun ch =>
    (.respond (command m) [], [.enableDriver ch (payloadWord m 0 != 0#32)])

/-- `case CMD_STEPPER_DRV_SET_MICROSTEPS`: a count other than 1, 2, 4, 8, 16 and 32 reaches the
default case of the inner `switch`, whose `continue` leaves the dispatch. -/
def stepperDrvSetMicrosteps (m : List UInt8) : Outcome × List Call :=
  guarded m 4 stepperCount fun ch =>
    if (payloadWord m 0).toNat ∈ [1, 2, 4, 8, 16, 32] then
      (.respond (command m) [], [.setMicrosteps ch (payloadWord m 0).toNat])
    else (.skip, [])

/-- `case CMD_STEPPER_DRV_SET_CURRENT`. -/
def stepperDrvSetCurrent (m : List UInt8) : Outcome × List Call :=
  guarded m 12 stepperCount fun ch =>
    (.respond (command m) [],
      [.setCurrent ch (payloadWord m 0) (payloadWord m 4) (payloadWord m 8)])

/-- `case CMD_STEPPER_DRV_READ_REGISTER`: a failed read sets the exception bit. -/
def stepperDrvReadRegister (hw : Replies) (m : List UInt8) : Outcome × List Call :=
  guarded m 4 stepperCount fun ch =>
    match hw.readRegister ch (payloadWord m 0) with
    | some v => (.respond (command m) (le32 v), [.readRegister ch (payloadWord m 0)])
    | none => (.respond (command m ||| 0x80) [], [.readRegister ch (payloadWord m 0)])

/-- `case CMD_STEPPER_DRV_WRITE_REGISTER`. -/
def stepperDrvWriteRegister (m : List UInt8) : Outcome × List Call :=
  guarded m 8 stepperCount fun ch =>
    (.respond (command m) [], [.writeRegister ch (payloadWord m 0) (payloadWord m 4)])

/-- `case CMD_DIGITAL_READ`. -/
def digitalRead (hw : Replies) (m : List UInt8) : Outcome × List Call :=
  guarded m 0 digitalInputCount fun ch =>
    (.respond (command m) (boolWord (hw.gpioGet (digitalInputPins.getD ch 0))),
      [.gpioGet (digitalInputPins.getD ch 0)])

/-- `case CMD_DIGITAL_WRITE`. -/
def digitalWrite (m : List UInt8) : Outcome × List Call :=
  guarded m 4 digitalOutputCount fun ch =>
    (.respond (command m) [], [.gpioPut (digitalOutputPins.getD ch 0) (payloadWord m 0 != 0#32)])

end Dispatch

open Dispatch in
/-- `switch (msg->command)` over the request in `rx_message`: how the switch ends and the
calls it makes, in order; `none` is the undefined behaviour of an oversized `PING` copy or of a
`HOME` sensor read below `digital_input_pins`. -/
def dispatch (hw : Replies) (m : List UInt8) : Option (Outcome × List Call) :=
  match CommandCode.ofValue (command m) with
  | some .init => some init
  | some .ping => ping m
  | some .stepperMoveSteps => some (stepperMoveSteps hw m)
  | some .stepperMoveAtSpeed => some (stepperMoveAtSpeed hw m)
  | some .stepperSetSpeedLimits => some (stepperSetSpeedLimits m)
  | some .stepperSetAcceleration => some (stepperSetAcceleration m)
  | some .stepperIsStopped => some (stepperIsStopped hw m)
  | some .stepperGetPosition => some (stepperGetPosition hw m)
  | some .stepperSetPosition => some (stepperSetPosition m)
  | some .stepperHome => stepperHome m
  | some .stepperDrvSetEnabled => some (stepperDrvSetEnabled m)
  | some .stepperDrvSetMicrosteps => some (stepperDrvSetMicrosteps m)
  | some .stepperDrvSetCurrent => some (stepperDrvSetCurrent m)
  | some .stepperDrvReadRegister => some (stepperDrvReadRegister hw m)
  | some .stepperDrvWriteRegister => some (stepperDrvWriteRegister m)
  | some .digitalRead => some (digitalRead hw m)
  | some .digitalWrite => some (digitalWrite m)
  | _ => some (.respond CommandCode.badCommand.value [], [])

end SorterInterface
