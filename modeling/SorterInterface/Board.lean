import SorterInterface.Crc32

/-! # The board, the commands and the collaborators

The firmware's board configuration (lines 118–157), the command codes of `enum CommandCodes`
(lines 71–100) and the overlay `struct Message` (lines 63–69), read from a byte buffer.

The dispatcher drives three collaborators whose code is not in the repository: the steppers
(`Stepper.h`), the driver chips (`TMC2209.h`) and the GPIO lines.  They are modelled by what
crosses the interface: each `Call` the dispatcher makes, with its arguments, and the `Replies`
the collaborators give.  The steppers run on the other core, so their answers are whatever
state they are in when asked; a `Replies` value is that state, and the results below hold for
every one.
-/

namespace SorterInterface

/-! ## Board configuration -/

/-- `DEVICE_NAME`. -/
def deviceName : String := "FEEDER MB"

/-- `DEVICE_ADDRESS`. -/
def deviceAddress : UInt8 := 0x00

/-- `STEPPER_COUNT`. -/
def stepperCount : Nat := 4

/-- `TMC_UART_TX_PIN`. -/
def tmcUartTxPin : Nat := 16

/-- `TMC_UART_RX_PIN`. -/
def tmcUartRxPin : Nat := 17

/-- `TMC_UART_BAUDRATE`. -/
def tmcUartBaudrate : Nat := 400000

/-- `STEPPER_nEN_PIN`, the drivers' common enable line, active low. -/
def stepperNEnPin : Nat := 0

/-- `DIGITAL_INPUT_COUNT`. -/
def digitalInputCount : Nat := 4

/-- `DIGITAL_OUTPUT_COUNT`. -/
def digitalOutputCount : Nat := 2

/-- `SERVO_COUNT`. -/
def servoCount : Nat := 0

/-- `digital_input_pins`. -/
def digitalInputPins : List Nat := [9, 8, 13, 12]

/-- `digital_output_pins`. -/
def digitalOutputPins : List Nat := [14, 15]

/-- `digital_input_pins[i]` for an `int` index `i`, or `none` where the read falls outside the
array, which is undefined behaviour in C. -/
def digitalInputPin (i : Int) : Option Nat :=
  if 0 ≤ i then digitalInputPins[i.toNat]? else none

/-- The JSON text `dump_configuration` formats, as ASCII bytes. -/
def configurationText : String :=
  "\x7b\"firmware_version\":\"1.0\",\"device_name\":\"" ++ deviceName ++
    "\",\"device_address\":" ++ toString deviceAddress.toNat ++
    ",\"stepper_count\":" ++ toString stepperCount ++
    ",\"digital_input_count\":" ++ toString digitalInputCount ++
    ",\"digital_output_count\":" ++ toString digitalOutputCount ++
    ",\"servo_count\":" ++ toString servoCount ++ "\x7d"

/-- `dump_configuration(buf, buf_size)`: the bytes `snprintf` writes, without the terminating
NUL, at most `buf_size - 1` of them. -/
def dumpConfiguration (bufSize : Nat) : List UInt8 :=
  (configurationText.toList.map fun c => c.toNat.toUInt8).take (bufSize - 1)

/-! ## Command codes -/

/-- `enum CommandCodes`. -/
inductive CommandCode where
  | init | ping
  | stepperMoveSteps | stepperMoveAtSpeed | stepperSetSpeedLimits | stepperSetAcceleration
  | stepperIsStopped | stepperGetPosition | stepperSetPosition | stepperHome
  | stepperDrvSetEnabled | stepperDrvSetMicrosteps | stepperDrvSetCurrent
  | stepperDrvReadRegister | stepperDrvWriteRegister
  | digitalRead | digitalWrite
  | servoSetEnabled | servoMoveTo | servoSetSpeedLimits | servoSetAcceleration
  | badCommand
  deriving DecidableEq, Repr

namespace CommandCode

/-- The value of each enumerator. -/
def value : CommandCode → UInt8
  | init => 0x01
  | ping => 0x02
  | stepperMoveSteps => 0x10
  | stepperMoveAtSpeed => 0x11
  | stepperSetSpeedLimits => 0x12
  | stepperSetAcceleration => 0x13
  | stepperIsStopped => 0x14
  | stepperGetPosition => 0x15
  | stepperSetPosition => 0x16
  | stepperHome => 0x17
  | stepperDrvSetEnabled => 0x20
  | stepperDrvSetMicrosteps => 0x21
  | stepperDrvSetCurrent => 0x22
  | stepperDrvReadRegister => 0x2e
  | stepperDrvWriteRegister => 0x2f
  | digitalRead => 0x30
  | digitalWrite => 0x31
  | servoSetEnabled => 0x40
  | servoMoveTo => 0x41
  | servoSetSpeedLimits => 0x42
  | servoSetAcceleration => 0x43
  | badCommand => 0xFF

/-- The enumerator a command byte names, if any: the `case` label `switch (msg->command)`
jumps to. -/
def ofValue (c : UInt8) : Option CommandCode :=
  match c.toNat with
  | 0x01 => some init
  | 0x02 => some ping
  | 0x10 => some stepperMoveSteps
  | 0x11 => some stepperMoveAtSpeed
  | 0x12 => some stepperSetSpeedLimits
  | 0x13 => some stepperSetAcceleration
  | 0x14 => some stepperIsStopped
  | 0x15 => some stepperGetPosition
  | 0x16 => some stepperSetPosition
  | 0x17 => some stepperHome
  | 0x20 => some stepperDrvSetEnabled
  | 0x21 => some stepperDrvSetMicrosteps
  | 0x22 => some stepperDrvSetCurrent
  | 0x2e => some stepperDrvReadRegister
  | 0x2f => some stepperDrvWriteRegister
  | 0x30 => some digitalRead
  | 0x31 => some digitalWrite
  | 0x40 => some servoSetEnabled
  | 0x41 => some servoMoveTo
  | 0x42 => some servoSetSpeedLimits
  | 0x43 => some servoSetAcceleration
  | 0xFF => some badCommand
  | _ => none

/-- The seventeen codes the dispatcher has a `case` for. -/
def dispatched : List CommandCode :=
  [init, ping, stepperMoveSteps, stepperMoveAtSpeed, stepperSetSpeedLimits,
    stepperSetAcceleration, stepperIsStopped, stepperGetPosition, stepperSetPosition, stepperHome,
    stepperDrvSetEnabled, stepperDrvSetMicrosteps, stepperDrvSetCurrent, stepperDrvReadRegister,
    stepperDrvWriteRegister, digitalRead, digitalWrite]

theorem ofValue_value (k : CommandCode) : ofValue k.value = some k := by
  cases k <;> rfl

theorem value_of_ofValue {c : UInt8} {k : CommandCode} (h : ofValue c = some k) :
    k.value = c := by
  apply UInt8.toNat.inj
  unfold ofValue at h
  split at h <;> (try cases h) <;> simp_all [value]

end CommandCode

/-! ## The message overlay -/

namespace Message

/-- `msg->dev_address`. -/
def devAddress (m : List UInt8) : UInt8 := m.getD 0 0

/-- `msg->command`. -/
def command (m : List UInt8) : UInt8 := m.getD 1 0

/-- `msg->channel`. -/
def channel (m : List UInt8) : UInt8 := m.getD 2 0

/-- `msg->payload_length`. -/
def payloadLength (m : List UInt8) : UInt8 := m.getD 3 0

/-- `*((uint32_t*)(msg->payload + k))`, also read as `int32_t`. -/
def payloadWord (m : List UInt8) (k : Nat) : BitVec 32 := readLe32 ((m.drop (4 + k)).take 4)

/-- `msg->payload[k]`. -/
def payloadByte (m : List UInt8) (k : Nat) : UInt8 := m.getD (4 + k) 0

end Message

/-! ## The collaborators -/

/-- A call the dispatcher makes on a stepper, a driver chip or a GPIO line, with the arguments
it passes.  `home` carries the line `digital_input_pins[home_pin]`; `setMicrosteps` carries the
microstep count that names the `MICROSTEP_*` value. -/
inductive Call where
  | moveSteps (axis : Nat) (distance : BitVec 32)
  | moveAtSpeed (axis : Nat) (speed : BitVec 32)
  | setSpeedLimits (axis : Nat) (minSpeed maxSpeed : BitVec 32)
  | setAcceleration (axis : Nat) (acceleration : BitVec 32)
  | isStopped (axis : Nat)
  | getPosition (axis : Nat)
  | setPosition (axis : Nat) (position : BitVec 32)
  | home (axis : Nat) (speed : BitVec 32) (pin : Nat) (polarity : Bool)
  | enableDriver (axis : Nat) (enabled : Bool)
  | setMicrosteps (axis : Nat) (microsteps : Nat)
  | setCurrent (axis : Nat) (runCurrent holdCurrent holdDelay : BitVec 32)
  | readRegister (axis : Nat) (address : BitVec 32)
  | writeRegister (axis : Nat) (address value : BitVec 32)
  | gpioGet (pin : Nat)
  | gpioPut (pin : Nat) (value : Bool)
  deriving DecidableEq, Repr

/-- What the collaborators answer: `moveSteps` and `moveAtSpeed` whether the stepper accepted
the move, `readRegister` the register's value or `none` when the read fails (`res < 0`). -/
structure Replies where
  moveSteps : Nat → BitVec 32 → Bool
  moveAtSpeed : Nat → BitVec 32 → Bool
  isStopped : Nat → Bool
  getPosition : Nat → BitVec 32
  readRegister : Nat → BitVec 32 → Option (BitVec 32)
  gpioGet : Nat → Bool

/-- The collaborators at rest: every stepper stopped at position `0` and taking every move,
every register read failing, every input low. -/
def Replies.idle : Replies :=
  ⟨fun _ _ => true, fun _ _ => true, fun _ => true, fun _ => 0#32, fun _ _ => none, fun _ => false⟩

end SorterInterface
