import SorterInterface.Crc32
import SorterInterface.Crc32Table
import SorterInterface.Crc32Burst
import SorterInterface.Crc32Poly
import SorterInterface.Cobs
import SorterInterface.Board
import SorterInterface.Dispatch
import SorterInterface.Requests
import SorterInterface.Loop
import SorterInterface.Reception
import SorterInterface.Frames
import SorterInterface.Responses
import SorterInterface.Session
import SorterInterface.Transport
import SorterInterface.Safety
import SorterInterface.Effects
import SorterInterface.Recovery
import SorterInterface.Calls
import SorterInterface.Setup
import SorterInterface.Outputs
import SorterInterface.Settings
import SorterInterface.Answers
