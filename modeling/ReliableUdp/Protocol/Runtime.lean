import ReliableUdp.Protocol.Packet

namespace ReliableUdp

def moduler : Nat := 10000
def retransmitIntervalMs : Nat := 250
def timeWaitDurationMs : Nat := 5000

structure ConnectionState where
  seqNum : UInt32
  ackNum : UInt32
  connId : UInt16
  deriving DecidableEq, Repr

/-- The fields of the command line that the state machines read. -/
structure AppConfig where
  timeout : Int32
  inputFile : Option String
  outputFile : Option String

/-- What one `fread` can hand out: at least one byte and at most what fits in a packet. -/
abbrev Chunk :=
  { bytes : List UInt8 // 0 < bytes.length ∧ bytes.length ≤ maxPacketSize - headerSize }

inductive ReadOutcome where
  | bytes (chunk : Chunk)
  | eof
  | error

/-- The outcomes of the coming `read_chunk` calls; a used up list keeps reporting end of file. -/
abbrev InputFile := List ReadOutcome

def readChunk : InputFile → ReadOutcome × InputFile
  | [] => (.eof, [])
  | outcome :: rest => (outcome, rest)

/-- Everything the operating system answers during one activation of a process, which runs from
one `select` to the next. Each clock reading is named after the place that makes it. -/
structure Env (Addr : Type) where
  stopRequested : Bool
  /-- `progress_timeout_reached` -/
  checkMs : UInt64
  /-- `mark_progress` -/
  markMs : UInt64
  /-- the timer start in `gbn_fill_and_send_window` -/
  fillMs : UInt64
  /-- `now_ms` of the transfer loop -/
  nowMs : UInt64
  /-- the timer restarts in `gbn_retransmit_window` and after an acknowledgement -/
  restartMs : UInt64
  selectResult : Int
  /-- source and content of the datagram taken from the socket, `none` for an error -/
  recvfrom : Option (Addr × List UInt8)
  /-- whether `sendto` accepts the packet with this sequence number -/
  sendto : UInt32 → Bool
  rand : Nat → Nat
  /-- `some m`: the write stops after `m` bytes -/
  fwrite : Option Nat
  fclose : Bool
  close : Bool

/-- One call of `sendto`; with `sent = false` it failed and nothing left the host. -/
structure Send (Addr : Type) where
  dst : Addr
  data : List UInt8
  sent : Bool

variable {Addr : Type}

/-- Nothing arrives, nothing fails and every clock reading is `ms`. -/
def Env.calm (Addr : Type) (ms : UInt64) : Env Addr where
  stopRequested := false
  checkMs := ms
  markMs := ms
  fillMs := ms
  nowMs := ms
  restartMs := ms
  selectResult := 0
  recvfrom := none
  sendto := fun _ => true
  rand := fun _ => 0
  fwrite := none
  fclose := true
  close := true

/-- As `Env.calm`, with a datagram waiting at the socket. -/
def Env.arrival (src : Addr) (datagram : List UInt8) (ms : UInt64) : Env Addr :=
  { Env.calm Addr ms with selectResult := 1, recvfrom := some (src, datagram) }

def waitForPacket (selectResult : Int) : Int :=
  if selectResult > 0 then 1 else if selectResult = 0 then 0 else -exOsErr

def markProgress (lastProgressMs nowMs : UInt64) : UInt64 :=
  if nowMs ≠ 0 then nowMs else lastProgressMs

def progressTimeoutReached (lastProgressMs : UInt64) (timeoutSec : Int32) (nowMs : UInt64) : Bool :=
  if lastProgressMs = 0 ∨ timeoutSec ≤ 0 then false
  else if nowMs = 0 then false
  else decide (nowMs - lastProgressMs ≥ UInt64.ofNat timeoutSec.toInt.toNat * 1000)

/-- `get_file_stream` returns the default stream for no name and for `"-"`. -/
def usesDefaultStream (filename : Option String) : Bool :=
  filename = none || filename = some "-"

def fillHeader (seq ack : UInt32) (connId : UInt16) (flags : UInt8) (payloadLen : UInt16) :
    RDTHeader :=
  ⟨seq, ack, connId, 0, payloadLen, flags⟩

def sendPacket (e : Env Addr) (addr : Addr) (header : RDTHeader) (payload : List UInt8)
    (payloadLen : UInt16) : Send Addr :=
  ⟨addr, buildPacket header payload payloadLen, e.sendto header.seqNum⟩

/-- The source address is stored before the datagram is looked at. -/
def recvPacket (e : Env Addr) (addr : Addr) : Addr × Except Int (RDTHeader × List UInt8) :=
  match e.recvfrom with
  | none => (addr, .error (-exOsErr))
  | some (src, datagram) => (src, parsePacket (datagram.take maxPacketSize))

@[simp] theorem waitForPacket_eq_zero (r : Int) : waitForPacket r = 0 ↔ r = 0 := by
  simp only [waitForPacket, exOsErr]
  split_ifs <;> simp <;> omega

@[simp] theorem waitForPacket_neg (r : Int) : waitForPacket r < 0 ↔ r < 0 := by
  simp only [waitForPacket, exOsErr]
  split_ifs <;> simp <;> omega

theorem pos_of_waitForPacket {r : Int} (h0 : ¬ waitForPacket r = 0) (hneg : ¬ waitForPacket r < 0) :
    r > 0 := by
  rw [waitForPacket_eq_zero] at h0
  rw [waitForPacket_neg] at hneg
  omega

/-- A clock can always show that it was read. -/
theorem exists_markProgress_ne (lastProgressMs : UInt64) :
    ∃ ms, markProgress lastProgressMs ms ≠ lastProgressMs := by
  by_cases h : lastProgressMs = 1
  · refine ⟨2, ?_⟩
    rw [h]
    decide
  · refine ⟨1, ?_⟩
    rw [markProgress, if_pos (by decide)]
    exact fun hcon => h hcon.symm

/-- No timeout is over when it starts. -/
theorem progressTimeoutReached_self (lastProgressMs : UInt64) (timeoutSec : Int32) :
    progressTimeoutReached lastProgressMs timeoutSec lastProgressMs = false := by
  unfold progressTimeoutReached
  split_ifs with h1 h2
  · rfl
  · rfl
  · have hpos : 0 < timeoutSec.toInt := by
      rw [not_or, Int32.not_le] at h1
      simpa using Int32.lt_iff_toInt_lt.mp h1.2
    have hlt : timeoutSec.toInt < 2 ^ 31 := timeoutSec.toInt_lt
    have hms : (UInt64.ofNat timeoutSec.toInt.toNat * 1000).toNat =
        timeoutSec.toInt.toNat * 1000 := by
      rw [UInt64.toNat_mul, UInt64.toNat_ofNat', show (1000 : UInt64).toNat = 1000 from rfl]
      omega
    rw [decide_eq_false_iff_not, ge_iff_le, UInt64.le_iff_toNat_le, hms, UInt64.sub_self]
    simp only [UInt64.toNat_zero]
    omega

/-- Receiving a packet that some endpoint built. -/
theorem recvPacket_encode (e : Env Addr) (addr src : Addr) (seq ack : UInt32) (connId : UInt16)
    (flags : UInt8) (payload : List UInt8) (hp : payload.length ≤ maxPacketSize - headerSize)
    (he : e.recvfrom = some (src, encode seq ack connId flags payload)) :
    ∃ checksum, recvPacket e addr =
      (src, .ok (⟨seq, ack, connId, checksum, UInt16.ofNat payload.length, flags⟩, payload)) := by
  obtain ⟨checksum, h⟩ := parsePacket_encode seq ack connId flags payload hp
  refine ⟨checksum, ?_⟩
  rw [recvPacket, he]
  simp only [List.take_of_length_le (encode_length seq ack connId flags payload hp), h]

end ReliableUdp
