import ReliableUdp.Protocol.Runtime

namespace ReliableUdp

inductive ServerState where
  | listen | handshake | established | lastAck | done
  deriving DecidableEq, Repr

/-- Where the process stands: at the top of the loop of `run_server`, blocked in the `select` of
the current handler, or returned. -/
inductive ServerPc where
  | fsm
  | select (timeoutMs : Nat)
  | returned (code : Int)
  deriving DecidableEq, Repr

def ServerPc.Waiting (pc : ServerPc) : Prop := pc = .fsm ∨ ∃ ms, pc = .select ms

def ServerPc.Halted (pc : ServerPc) : Prop := pc = .fsm ∨ ∃ code, pc = .returned code

structure Server (Addr : Type) where
  state : ServerState
  pc : ServerPc
  connection : ConnectionState
  clientAddr : Addr
  lastProgressMs : UInt64
  exitCode : Int
  /-- the bytes `fwrite` has taken so far -/
  output : List UInt8

variable {Addr : Type}

namespace Server

/-- `run_server` when its loop starts: the socket is bound, `startMs` is the first clock reading
and `clientAddr` whatever the uninitialised `client_addr` contains. -/
def init (clientAddr : Addr) (startMs : UInt64) : Server Addr where
  state := .listen
  pc := .fsm
  connection := ⟨0, 0, 0⟩
  clientAddr := clientAddr
  lastProgressMs := startMs
  exitCode := exOk
  output := []

/-- `*exit_code = code; return SERVER_DONE;` -/
def fail (s : Server Addr) (code : Int) : Server Addr :=
  { s with state := .done, pc := .fsm, exitCode := code }

/-- The handler returns `state` to the loop of `run_server`. -/
def goto (s : Server Addr) (state : ServerState) : Server Addr :=
  { s with state := state, pc := .fsm }

def expired (config : AppConfig) (s : Server Addr) (e : Env Addr) : Bool :=
  progressTimeoutReached s.lastProgressMs config.timeout e.checkMs

/-- A control packet with the numbers of the connection. -/
def control (s : Server Addr) (e : Env Addr) (flags : UInt8) : Send Addr :=
  sendPacket e s.clientAddr
    (fillHeader s.connection.seqNum s.connection.ackNum s.connection.connId flags 0) [] 0

/-- All four handlers start with the watchdog and block in `select`. -/
def enter (config : AppConfig) (s : Server Addr) (e : Env Addr) : Server Addr × List (Send Addr) :=
  if s.expired config e then (s.fail exProtocol, [])
  else ({ s with pc := .select retransmitIntervalMs }, [])

def handleListen (config : AppConfig) (s : Server Addr) (e : Env Addr) :
    Server Addr × List (Send Addr) := s.enter config e

def handleHandshake (config : AppConfig) (s : Server Addr) (e : Env Addr) :
    Server Addr × List (Send Addr) := s.enter config e

def handleEstablished (config : AppConfig) (s : Server Addr) (e : Env Addr) :
    Server Addr × List (Send Addr) := s.enter config e

def handleLastAck (config : AppConfig) (s : Server Addr) (e : Env Addr) :
    Server Addr × List (Send Addr) := s.enter config e

/-- `recv_packet` with the reply to a bad datagram: the source address has been stored by then. -/
def receive (s : Server Addr) (e : Env Addr)
    (handle : Server Addr → RDTHeader → List UInt8 → Server Addr × List (Send Addr)) :
    Server Addr × List (Send Addr) :=
  let received := recvPacket e s.clientAddr
  let s := { s with clientAddr := received.1 }
  match received.2 with
  | .error _ => (s.goto s.state, [])
  | .ok (h, payload) => handle s h payload

/-- A handler other than `handle_last_ack` from its `select` on. -/
def ready (config : AppConfig) (s : Server Addr) (e : Env Addr)
    (handle : Server Addr → RDTHeader → List UInt8 → Server Addr × List (Send Addr)) :
    Server Addr × List (Send Addr) :=
  if waitForPacket e.selectResult = 0 then
    if s.expired config e then (s.fail exProtocol, []) else (s.goto s.state, [])
  else if waitForPacket e.selectResult < 0 then (s.fail exOsErr, [])
  else s.receive e handle

/-- A reply, with the watchdog reset behind it when it could be sent. -/
def reply (s : Server Addr) (e : Env Addr) (flags : UInt8) (next : Server Addr) :
    Server Addr × List (Send Addr) :=
  let packet := s.control e flags
  if packet.sent then (next, [packet]) else (s.fail exOsErr, [packet])

def marked (s : Server Addr) (e : Env Addr) : Server Addr :=
  { s with lastProgressMs := markProgress s.lastProgressMs e.markMs }

/-- `handle_listen` on a packet. -/
def listenPacket (s : Server Addr) (e : Env Addr) (h : RDTHeader) :
    Server Addr × List (Send Addr) :=
  if h.flags = flagSyn then
    let s := { s with
      connection := ⟨UInt32.ofNat (e.rand 1 % moduler), h.seqNum + 1,
        UInt16.ofNat (e.rand 0 % 60000 + 1)⟩ }
    s.reply e (flagSyn ||| flagAck) ((s.marked e).goto .handshake)
  else (s.goto .listen, [])

/-- `handle_handshake` on a packet. -/
def handshakePacket (s : Server Addr) (e : Env Addr) (h : RDTHeader) :
    Server Addr × List (Send Addr) :=
  if h.flags = flagSyn ∧ h.seqNum + 1 = s.connection.ackNum then
    s.reply e (flagSyn ||| flagAck) (s.goto .handshake)
  else if h.flags = flagAck ∧ h.connId = s.connection.connId ∧
      h.ackNum = s.connection.seqNum + 1 ∧ h.seqNum = s.connection.ackNum then
    (({ s with connection := { s.connection with ackNum := h.seqNum } }.marked e).goto
      .established, [])
  else if h.flags = flagData ∧ h.connId = s.connection.connId ∧
      h.seqNum = s.connection.ackNum ∧ h.ackNum = s.connection.seqNum + 1 then
    ((s.marked e).goto .established, [])
  else (s.goto .handshake, [])

/-- How many bytes `fwrite` takes. -/
def written (e : Env Addr) (payload : List UInt8) : Nat :=
  match e.fwrite with
  | none => payload.length
  | some m => min m payload.length

/-- `handle_established` on a data packet of its connection. -/
def dataPacket (s : Server Addr) (e : Env Addr) (h : RDTHeader) (payload : List UInt8) :
    Server Addr × List (Send Addr) :=
  if h.seqNum = s.connection.ackNum then
    let s := { s with output := s.output ++ payload.take (written e payload) }
    if written e payload ≠ payload.length then (s.fail exIoErr, [])
    else
      let s := { s with
        connection := { s.connection with ackNum := s.connection.ackNum + 1 } }.marked e
      s.reply e flagAck (s.goto .established)
  else
    let s := if h.seqNum > s.connection.ackNum then s.marked e else s
    s.reply e flagAck (s.goto .established)

/-- A DATA packet of the session. -/
abbrev IsData (s : Server Addr) (h : RDTHeader) : Prop :=
  h.flags = flagData ∧ h.connId = s.connection.connId

/-- `handle_established` on a packet. -/
def establishedPacket (s : Server Addr) (e : Env Addr) (h : RDTHeader) (payload : List UInt8) :
    Server Addr × List (Send Addr) :=
  if h.flags = flagFin ∧ h.connId = s.connection.connId ∧ h.seqNum = s.connection.ackNum then
    let s := { s with connection := { s.connection with ackNum := h.seqNum + 1 } }
    s.reply e (flagFin ||| flagAck) ((s.marked e).goto .lastAck)
  else if s.IsData h then s.dataPacket e h payload
  else (s.goto .established, [])

/-- What `handle_last_ack` asks of the final ACK. -/
abbrev TakesFinalAck (s : Server Addr) (h : RDTHeader) : Prop :=
  h.flags = flagAck ∧ h.connId = s.connection.connId ∧
    h.ackNum = s.connection.seqNum + 1 ∧ h.seqNum = s.connection.ackNum

/-- `handle_last_ack` on a packet. -/
def lastAckPacket (s : Server Addr) (e : Env Addr) (h : RDTHeader) :
    Server Addr × List (Send Addr) :=
  if h.flags = flagFin ∧ h.connId = s.connection.connId ∧
      h.seqNum + 1 = s.connection.ackNum then
    s.reply e (flagFin ||| flagAck) (s.goto .lastAck)
  else if s.TakesFinalAck h then ((s.marked e).goto .done, [])
  else (s.goto .lastAck, [])

def listenReady (config : AppConfig) (s : Server Addr) (e : Env Addr) :
    Server Addr × List (Send Addr) := s.ready config e (fun s h _ => s.listenPacket e h)

def handshakeReady (config : AppConfig) (s : Server Addr) (e : Env Addr) :
    Server Addr × List (Send Addr) := s.ready config e (fun s h _ => s.handshakePacket e h)

def establishedReady (config : AppConfig) (s : Server Addr) (e : Env Addr) :
    Server Addr × List (Send Addr) := s.ready config e (fun s h p => s.establishedPacket e h p)

/-- `handle_last_ack` from its `select` on: here a timeout sends FIN+ACK again, and an expired
watchdog or an interrupted wait ends the server with success. -/
def lastAckReady (config : AppConfig) (s : Server Addr) (e : Env Addr) :
    Server Addr × List (Send Addr) :=
  if waitForPacket e.selectResult = 0 then
    if s.expired config e then (s.fail exOk, [])
    else
      let finAck := s.control e (flagFin ||| flagAck)
      if finAck.sent then (s.goto .lastAck, [finAck]) else (s.fail exOk, [finAck])
  else if waitForPacket e.selectResult < 0 then
    if e.stopRequested then (s.fail exOk, []) else (s.fail exOsErr, [])
  else s.receive e (fun s h _ => s.lastAckPacket e h)

/-- The cleanup of `run_server`, which returns the exit code. -/
def cleanup (config : AppConfig) (s : Server Addr) (e : Env Addr) : Server Addr :=
  let code := if !usesDefaultStream config.outputFile && !e.fclose then exIoErr else s.exitCode
  let code := if !e.close then exOsErr else code
  { s with exitCode := code, pc := .returned code }

/-- A turn of the loop of `run_server`, up to the `select` of the handler it calls. -/
def runServer (config : AppConfig) (s : Server Addr) (e : Env Addr) :
    Server Addr × List (Send Addr) :=
  match s.state with
  | .done => (s.cleanup config e, [])
  | state =>
    if e.stopRequested then (s.fail exSoftware, [])
    else match state with
      | .listen => s.handleListen config e
      | .handshake => s.handleHandshake config e
      | .established => s.handleEstablished config e
      | .lastAck => s.handleLastAck config e
      | .done => (s, [])

/-- The handler of the current state goes on behind its `select`. -/
def resume (config : AppConfig) (s : Server Addr) (e : Env Addr) :
    Server Addr × List (Send Addr) :=
  match s.state with
  | .listen => s.listenReady config e
  | .handshake => s.handshakeReady config e
  | .established => s.establishedReady config e
  | .lastAck => s.lastAckReady config e
  | .done => (s, [])

/-- One activation of the server process. -/
def step (config : AppConfig) (s : Server Addr) (e : Env Addr) :
    Server Addr × List (Send Addr) :=
  match s.pc with
  | .fsm => s.runServer config e
  | .select _ => s.resume config e
  | .returned _ => (s, [])

section Equations

variable {config : AppConfig} {s : Server Addr} {e : Env Addr}

theorem step_fsm (h : s.pc = .fsm) : s.step config e = s.runServer config e := by
  simp only [step, h]

theorem step_select {ms : Nat} (h : s.pc = .select ms) :
    s.step config e = s.resume config e := by
  simp only [step, h]

theorem step_returned {code : Int} (h : s.pc = .returned code) : s.step config e = (s, []) := by
  simp only [step, h]

theorem runServer_done (h : s.state = .done) : s.runServer config e = (s.cleanup config e, []) := by
  simp only [runServer, h]

/-- All four handlers begin alike. -/
theorem runServer_running (h : s.state ≠ .done) : s.runServer config e =
    if e.stopRequested then (s.fail exSoftware, []) else s.enter config e := by
  cases hs : s.state with
  | done => exact absurd hs h
  | listen => simp only [runServer, hs, handleListen]
  | handshake => simp only [runServer, hs, handleHandshake]
  | established => simp only [runServer, hs, handleEstablished]
  | lastAck => simp only [runServer, hs, handleLastAck]

theorem resume_listen (h : s.state = .listen) :
    s.resume config e = s.listenReady config e := by
  simp only [resume, h]

theorem resume_handshake (h : s.state = .handshake) :
    s.resume config e = s.handshakeReady config e := by
  simp only [resume, h]

theorem resume_established (h : s.state = .established) :
    s.resume config e = s.establishedReady config e := by
  simp only [resume, h]

theorem resume_lastAck (h : s.state = .lastAck) :
    s.resume config e = s.lastAckReady config e := by
  simp only [resume, h]

end Equations

end Server

end ReliableUdp
