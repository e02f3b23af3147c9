import ReliableUdp.Framework.RingBuffer
import ReliableUdp.Protocol.Runtime

namespace ReliableUdp

def windowSize : Nat := 30

instance : NeZero windowSize := ⟨by decide⟩

structure WindowPacket where
  header : RDTHeader
  payload : List UInt8
  payloadLen : UInt16
  isValid : Bool

/-- `GBNSenderState`: the sender's ring of packets waiting for an acknowledgement. -/
structure GBNSenderState where
  base : UInt32
  nextseqnum : UInt32
  buffer : Fin windowSize → WindowPacket
  windowTimerMs : UInt64

/-- `seq % WINDOW_SIZE` -/
def slot (seq : UInt32) : Fin windowSize := RingBuffer.index windowSize seq.toNat

/-- `GBNSenderState gbn_state = {0}` with both sequence numbers set to `seq`. -/
def GBNSenderState.start (seq : UInt32) : GBNSenderState where
  base := seq
  nextseqnum := seq
  buffer := fun _ => ⟨⟨0, 0, 0, 0, 0, 0⟩, List.replicate (maxPacketSize - headerSize) 0, 0, false⟩
  windowTimerMs := 0

variable {Addr : Type}

/-- The `for` loop of `gbn_retransmit_window`, `n` rounds from `seq` on. -/
def retransmitLoop (e : Env Addr) (addr : Addr) (state : GBNSenderState) :
    Nat → UInt32 → List (Send Addr)
  | 0, _ => []
  | n + 1, seq =>
    let packet := state.buffer (slot seq)
    let rest := retransmitLoop e addr state n (seq + 1)
    if packet.isValid then
      sendPacket e addr packet.header packet.payload packet.payloadLen :: rest
    else rest

def gbnRetransmitWindow (e : Env Addr) (addr : Addr) (state : GBNSenderState) :
    GBNSenderState × List (Send Addr) :=
  if state.base = state.nextseqnum then (state, [])
  else ({ state with windowTimerMs := e.restartMs },
    retransmitLoop e addr state (state.nextseqnum.toNat - state.base.toNat) state.base)

/-- The `for` loop of `gbn_process_ack`: the buffer and `acked_new` after `n` rounds from `seq`. -/
def ackLoop : Nat → UInt32 → (Fin windowSize → WindowPacket) → Bool →
    (Fin windowSize → WindowPacket) × Bool
  | 0, _, buffer, ackedNew => (buffer, ackedNew)
  | n + 1, seq, buffer, ackedNew =>
    let packet := buffer (slot seq)
    if packet.isValid then
      ackLoop n (seq + 1) (Function.update buffer (slot seq) { packet with isValid := false }) true
    else ackLoop n (seq + 1) buffer ackedNew

def gbnProcessAck (state : GBNSenderState) (ackNum : UInt32) : GBNSenderState × Bool :=
  if ackNum ≤ state.base ∨ ackNum > state.nextseqnum then (state, false)
  else
    let result := ackLoop (ackNum.toNat - state.base.toNat) state.base state.buffer false
    ({ state with buffer := result.1, base := ackNum }, result.2)

/-- `read_chunk` overwrites the front of the slot's payload array. -/
def overwrite (payload chunk : List UInt8) : List UInt8 := chunk ++ payload.drop chunk.length

/-- The packet a successful read puts into the slot of `nextseqnum`, with its timer start. -/
def fillSlot (e : Env Addr) (connection : ConnectionState) (state : GBNSenderState)
    (chunk : Chunk) : GBNSenderState :=
  let index := slot state.nextseqnum
  let bytesRead := UInt16.ofNat chunk.val.length
  { state with
    windowTimerMs := if state.base = state.nextseqnum then e.fillMs else state.windowTimerMs
    buffer := Function.update state.buffer index
      { header := ⟨state.nextseqnum, connection.ackNum, connection.connId, 0, bytesRead, flagData⟩
        payload := overwrite (state.buffer index).payload chunk.val
        payloadLen := bytesRead
        isValid := true } }

/-- `state->nextseqnum++` -/
def advance (state : GBNSenderState) : GBNSenderState :=
  { state with nextseqnum := state.nextseqnum + 1 }

structure FillResult (Addr : Type) where
  state : GBNSenderState
  file : InputFile
  /-- the value `gbn_fill_and_send_window` returns -/
  result : Int
  sends : List (Send Addr)

/-- The `while` loop of `gbn_fill_and_send_window` with `n` rounds left. -/
def fillLoop (e : Env Addr) (addr : Addr) (connection : ConnectionState) :
    Nat → GBNSenderState → InputFile → FillResult Addr
  | 0, state, file => ⟨state, file, 0, []⟩
  | n + 1, state, file =>
    match readChunk file with
    | (.eof, file) => ⟨state, file, 1, []⟩
    | (.error, file) => ⟨state, file, -exIoErr, []⟩
    | (.bytes chunk, file) =>
      let index := slot state.nextseqnum
      let state := fillSlot e connection state chunk
      let packet := state.buffer index
      let rest := fillLoop e addr connection n (advance state) file
      { rest with
        sends := sendPacket e addr packet.header packet.payload packet.payloadLen :: rest.sends }

/-- Nothing in the loop moves `base`, so it runs while `nextseqnum` is below a fixed limit. -/
def gbnFillAndSendWindow (e : Env Addr) (addr : Addr) (connection : ConnectionState)
    (state : GBNSenderState) (file : InputFile) : FillResult Addr :=
  fillLoop e addr connection
    ((state.base + UInt32.ofNat windowSize).toNat - state.nextseqnum.toNat) state file

end ReliableUdp
