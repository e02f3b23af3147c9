import ReliableUdp.Sender.Window

namespace ReliableUdp

inductive ClientState where
  | closed | synSent | established | finWait | timeWait | done
  deriving DecidableEq, Repr

/-- Where the process stands: at the top of the loop of `run_client`, at the top of the transfer
loop of `handle_established`, blocked in the `select` of the current handler, or returned. -/
inductive ClientPc where
  | fsm
  | transfer
  | select (timeoutMs : Nat)
  | returned (code : Int)
  deriving DecidableEq, Repr

def ClientPc.Waiting (pc : ClientPc) : Prop := pc = .fsm ∨ ∃ ms, pc = .select ms

def ClientPc.Halted (pc : ClientPc) : Prop := pc = .fsm ∨ ∃ code, pc = .returned code

/-- The locals of `handle_established`; they stay in the record, unused, once it has returned. -/
structure Transfer where
  gbn : GBNSenderState
  eofReached : Bool
  lastAck : UInt32
  dupAckCount : Nat

structure Client (Addr : Type) where
  state : ClientState
  pc : ClientPc
  connection : ConnectionState
  serverAddr : Addr
  lastProgressMs : UInt64
  exitCode : Int
  file : InputFile
  xfer : Option Transfer

variable {Addr : Type}

namespace Client

/-- `run_client` when its loop starts: the socket is open, `startMs` is the first clock reading. -/
def init (serverAddr : Addr) (startMs : UInt64) (file : InputFile) : Client Addr where
  state := .closed
  pc := .fsm
  connection := ⟨0, 0, 0⟩
  serverAddr := serverAddr
  lastProgressMs := startMs
  exitCode := exOk
  file := file
  xfer := none

/-- `*exit_code = code; return CLIENT_DONE;` -/
def fail (c : Client Addr) (code : Int) : Client Addr :=
  { c with state := .done, pc := .fsm, exitCode := code }

/-- The handler returns `state` to the loop of `run_client`. -/
def goto (c : Client Addr) (state : ClientState) : Client Addr :=
  { c with state := state, pc := .fsm }

def expired (config : AppConfig) (c : Client Addr) (e : Env Addr) : Bool :=
  progressTimeoutReached c.lastProgressMs config.timeout e.checkMs

/-- A control packet with the numbers of the connection. -/
def control (c : Client Addr) (e : Env Addr) (flags : UInt8) : Send Addr :=
  sendPacket e c.serverAddr
    (fillHeader c.connection.seqNum c.connection.ackNum c.connection.connId flags 0) [] 0

def handleClosed (c : Client Addr) (e : Env Addr) : Client Addr × List (Send Addr) :=
  let c := { c with connection := ⟨UInt32.ofNat (e.rand 0 % moduler), 0, 0⟩ }
  let syn := c.control e flagSyn
  if syn.sent then (c.goto .synSent, [syn]) else (c.fail exOsErr, [syn])

/-- `recv_packet` with the reply to a bad datagram: the source address has been stored by then. -/
def receive (c : Client Addr) (e : Env Addr)
    (handle : Client Addr → RDTHeader → Client Addr × List (Send Addr)) :
    Client Addr × List (Send Addr) :=
  let received := recvPacket e c.serverAddr
  let c := { c with serverAddr := received.1 }
  match received.2 with
  | .error _ => (c.goto c.state, [])
  | .ok (h, _) => handle c h

/-- `handle_syn_sent` up to its `select`. -/
def handleSynSent (config : AppConfig) (c : Client Addr) (e : Env Addr) :
    Client Addr × List (Send Addr) :=
  if c.expired config e then (c.fail exProtocol, [])
  else ({ c with pc := .select retransmitIntervalMs }, [])

/-- What `handle_syn_sent` asks of a SYN+ACK. -/
abbrev TakesSynAck (c : Client Addr) (h : RDTHeader) : Prop :=
  h.flags = flagSyn ||| flagAck ∧ h.connId ≠ 0 ∧ h.ackNum = c.connection.seqNum + 1

/-- `handle_syn_sent` once a datagram with header `h` has been parsed. -/
def synSentPacket (c : Client Addr) (e : Env Addr) (h : RDTHeader) :
    Client Addr × List (Send Addr) :=
  if c.TakesSynAck h then
    let c := { c with
      connection := ⟨c.connection.seqNum + 1, h.seqNum + 1, h.connId⟩
      lastProgressMs := markProgress c.lastProgressMs e.markMs }
    let ack := c.control e flagAck
    if ack.sent then (c.goto .established, [ack]) else (c.fail exOsErr, [ack])
  else (c.goto .synSent, [])

/-- `handle_syn_sent` from its `select` on. -/
def synSentReady (config : AppConfig) (c : Client Addr) (e : Env Addr) :
    Client Addr × List (Send Addr) :=
  if waitForPacket e.selectResult = 0 then
    if c.expired config e then (c.fail exProtocol, [])
    else
      let syn := c.control e flagSyn
      if syn.sent then (c.goto .synSent, [syn]) else (c.fail exOsErr, [syn])
  else if waitForPacket e.selectResult < 0 then (c.fail exOsErr, [])
  else c.receive e (fun c h => c.synSentPacket e h)

/-- `handle_established` up to its transfer loop. -/
def handleEstablished (config : AppConfig) (c : Client Addr) (e : Env Addr) :
    Client Addr × List (Send Addr) :=
  if c.expired config e then (c.fail exProtocol, [])
  else ({ c with
    pc := .transfer
    xfer := some ⟨.start c.connection.seqNum, false, 0, 0⟩ }, [])

/-- `handle_established` behind its transfer loop. -/
def transferDone (c : Client Addr) (x : Transfer) : Client Addr :=
  { c with
    connection := { c.connection with seqNum := x.gbn.nextseqnum }
    xfer := some x }.goto .finWait

/-- A round of the transfer loop from the window timer on. -/
def transferTimer (c : Client Addr) (x : Transfer) (e : Env Addr) :
    Client Addr × List (Send Addr) :=
  if x.gbn.base = x.gbn.nextseqnum then ({ c with pc := .select 10, xfer := some x }, [])
  else
    let timer := if x.gbn.windowTimerMs = 0 then e.nowMs else x.gbn.windowTimerMs
    let gbn := { x.gbn with windowTimerMs := timer }
    let elapsedMs := e.nowMs - timer
    if elapsedMs ≥ UInt64.ofNat retransmitIntervalMs then
      let resent := gbnRetransmitWindow e c.serverAddr gbn
      ({ c with pc := .transfer, xfer := some { x with gbn := resent.1 } }, resent.2)
    else
      let waitMs := retransmitIntervalMs - elapsedMs.toNat
      ({ c with
        pc := .select (if waitMs < 1 then 1 else waitMs)
        xfer := some { x with gbn := gbn } }, [])

/-- A round of the transfer loop behind the fill: leave at end of file, or watch the timer. -/
def transferWait (c : Client Addr) (x : Transfer) (e : Env Addr) :
    Client Addr × List (Send Addr) :=
  if x.eofReached ∧ x.gbn.base = x.gbn.nextseqnum then (c.transferDone x, [])
  else c.transferTimer x e

/-- A round of the transfer loop up to its `select` or `continue`. -/
def transferRound (config : AppConfig) (c : Client Addr) (x : Transfer) (e : Env Addr) :
    Client Addr × List (Send Addr) :=
  if ¬ (x.eofReached = false ∨ x.gbn.base < x.gbn.nextseqnum) then (c.transferDone x, [])
  else if c.expired config e then (c.fail exProtocol, [])
  else if x.eofReached = false then
    let filled := gbnFillAndSendWindow e c.serverAddr c.connection x.gbn c.file
    let c := { c with file := filled.file }
    let x := { x with gbn := filled.state }
    if filled.result < 0 then ({ c with xfer := some x }.fail exIoErr, filled.sends)
    else
      let next := c.transferWait { x with eofReached := decide (filled.result > 0) } e
      (next.1, filled.sends ++ next.2)
  else c.transferWait x e

/-- The acknowledgement branch of the transfer loop. -/
def transferAck (c : Client Addr) (x : Transfer) (e : Env Addr) (ack : UInt32) :
    Client Addr × List (Send Addr) :=
  let processed := gbnProcessAck x.gbn ack
  if processed.2 then
    let gbn := { processed.1 with
      windowTimerMs := if processed.1.base = processed.1.nextseqnum then 0 else e.restartMs }
    ({ c with
      lastProgressMs := markProgress c.lastProgressMs e.markMs
      xfer := some { x with gbn := gbn, lastAck := ack, dupAckCount := 0 } }, [])
  else if ack = x.lastAck then
    if x.dupAckCount + 1 = 3 then
      let resent := gbnRetransmitWindow e c.serverAddr processed.1
      let gbn := { resent.1 with windowTimerMs := e.restartMs }
      ({ c with xfer := some { x with gbn := gbn, dupAckCount := 0 } }, resent.2)
    else
      ({ c with xfer := some { x with gbn := processed.1, dupAckCount := x.dupAckCount + 1 } }, [])
  else
    ({ c with xfer := some { x with gbn := processed.1, lastAck := ack, dupAckCount := 1 } }, [])

/-- An ACK of the connection, as the transfer loop looks for it. -/
abbrev IsAck (c : Client Addr) (h : RDTHeader) : Prop :=
  h.flags = flagAck ∧ h.connId = c.connection.connId

/-- A round of the transfer loop from its `select` on. -/
def transferReady (c : Client Addr) (x : Transfer) (e : Env Addr) :
    Client Addr × List (Send Addr) :=
  if waitForPacket e.selectResult = 0 then ({ c with pc := .transfer }, [])
  else if waitForPacket e.selectResult < 0 then (c.fail exOsErr, [])
  else
    let received := recvPacket e c.serverAddr
    let c := { c with serverAddr := received.1, pc := .transfer }
    match received.2 with
    | .error _ => (c, [])
    | .ok (h, _) =>
      if c.IsAck h then c.transferAck x e h.ackNum
      else (c, [])

/-- `handle_fin_wait` up to its `select`. -/
def handleFinWait (config : AppConfig) (c : Client Addr) (e : Env Addr) :
    Client Addr × List (Send Addr) :=
  if c.expired config e then (c.fail exProtocol, [])
  else
    let fin := c.control e flagFin
    if fin.sent then ({ c with pc := .select retransmitIntervalMs }, [fin])
    else (c.fail exOsErr, [fin])

/-- What `handle_fin_wait` asks of a FIN+ACK. -/
abbrev TakesFinAck (c : Client Addr) (h : RDTHeader) : Prop :=
  h.flags = flagFin ||| flagAck ∧ h.connId = c.connection.connId ∧
    h.ackNum = c.connection.seqNum + 1

def finWaitPacket (c : Client Addr) (e : Env Addr) (h : RDTHeader) :
    Client Addr × List (Send Addr) :=
  if c.TakesFinAck h then
    let c := { c with
      connection := { c.connection with
        ackNum := h.seqNum + 1
        seqNum := c.connection.seqNum + 1 }
      lastProgressMs := markProgress c.lastProgressMs e.markMs }
    let ack := c.control e flagAck
    if ack.sent then (c.goto .timeWait, [ack]) else (c.fail exOsErr, [ack])
  else (c.goto .finWait, [])

/-- `handle_fin_wait` from its `select` on. -/
def finWaitReady (config : AppConfig) (c : Client Addr) (e : Env Addr) :
    Client Addr × List (Send Addr) :=
  if waitForPacket e.selectResult = 0 then
    if c.expired config e then (c.fail exProtocol, []) else (c.goto .finWait, [])
  else if waitForPacket e.selectResult < 0 then (c.fail exOsErr, [])
  else c.receive e (fun c h => c.finWaitPacket e h)

/-- What `handle_time_wait` asks of a FIN+ACK. -/
abbrev TakesFinAckAgain (c : Client Addr) (h : RDTHeader) : Prop :=
  h.flags = flagFin ||| flagAck ∧ h.connId = c.connection.connId ∧
    h.ackNum = c.connection.seqNum

def timeWaitPacket (c : Client Addr) (e : Env Addr) (h : RDTHeader) :
    Client Addr × List (Send Addr) :=
  if c.TakesFinAckAgain h then
    let ack := c.control e flagAck
    if ack.sent then
      ({ c with lastProgressMs := markProgress c.lastProgressMs e.markMs }.goto .timeWait, [ack])
    else (c.fail exOsErr, [ack])
  else (c.goto .timeWait, [])

/-- `handle_time_wait` from its `select` on. -/
def timeWaitReady (c : Client Addr) (e : Env Addr) : Client Addr × List (Send Addr) :=
  if waitForPacket e.selectResult = 0 then (c.goto .done, [])
  else if waitForPacket e.selectResult < 0 then
    if e.stopRequested then (c.fail exOk, []) else (c.fail exOsErr, [])
  else c.receive e (fun c h => c.timeWaitPacket e h)

/-- The cleanup of `run_client`, which returns the exit code. -/
def cleanup (config : AppConfig) (c : Client Addr) (e : Env Addr) : Client Addr :=
  let code := if !usesDefaultStream config.inputFile && !e.fclose then exIoErr else c.exitCode
  let code := if !e.close then exOsErr else code
  { c with exitCode := code, pc := .returned code }

/-- A turn of the loop of `run_client`, up to the `select` of the handler it calls. -/
def runClient (config : AppConfig) (c : Client Addr) (e : Env Addr) :
    Client Addr × List (Send Addr) :=
  match c.state with
  | .done => (c.cleanup config e, [])
  | state =>
    if e.stopRequested then (c.fail exSoftware, [])
    else match state with
      | .closed => c.handleClosed e
      | .synSent => c.handleSynSent config e
      | .established => c.handleEstablished config e
      | .finWait => c.handleFinWait config e
      | .timeWait => ({ c with pc := .select timeWaitDurationMs }, [])
      | .done => (c, [])

/-- The handler of the current state goes on behind its `select`. -/
def resume (config : AppConfig) (c : Client Addr) (e : Env Addr) :
    Client Addr × List (Send Addr) :=
  match c.state, c.xfer with
  | .synSent, _ => c.synSentReady config e
  | .established, some x => c.transferReady x e
  | .finWait, _ => c.finWaitReady config e
  | .timeWait, _ => c.timeWaitReady e
  | _, _ => (c, [])

/-- One activation of the client process. -/
def step (config : AppConfig) (c : Client Addr) (e : Env Addr) :
    Client Addr × List (Send Addr) :=
  match c.pc, c.xfer with
  | .fsm, _ => c.runClient config e
  | .transfer, some x => c.transferRound config x e
  | .select _, _ => c.resume config e
  | _, _ => (c, [])

section Equations

variable {config : AppConfig} {c : Client Addr} {e : Env Addr}

theorem step_fsm (h : c.pc = .fsm) : c.step config e = c.runClient config e := by
  simp only [step, h]

theorem step_select {ms : Nat} (h : c.pc = .select ms) :
    c.step config e = c.resume config e := by
  simp only [step, h]

theorem step_transfer {x : Transfer} (h : c.pc = .transfer) (hx : c.xfer = some x) :
    c.step config e = c.transferRound config x e := by
  simp only [step, h, hx]

theorem step_returned {code : Int} (h : c.pc = .returned code) : c.step config e = (c, []) := by
  simp only [step, h]

theorem runClient_done (h : c.state = .done) : c.runClient config e = (c.cleanup config e, []) := by
  simp only [runClient, h]

theorem runClient_closed (h : c.state = .closed) : c.runClient config e =
    if e.stopRequested then (c.fail exSoftware, []) else c.handleClosed e := by
  simp only [runClient, h]

theorem runClient_synSent (h : c.state = .synSent) : c.runClient config e =
    if e.stopRequested then (c.fail exSoftware, []) else c.handleSynSent config e := by
  simp only [runClient, h]

theorem runClient_established (h : c.state = .established) : c.runClient config e =
    if e.stopRequested then (c.fail exSoftware, []) else c.handleEstablished config e := by
  simp only [runClient, h]

theorem runClient_finWait (h : c.state = .finWait) : c.runClient config e =
    if e.stopRequested then (c.fail exSoftware, []) else c.handleFinWait config e := by
  simp only [runClient, h]

theorem runClient_timeWait (h : c.state = .timeWait) : c.runClient config e =
    if e.stopRequested then (c.fail exSoftware, [])
    else ({ c with pc := .select timeWaitDurationMs }, []) := by
  simp only [runClient, h]

theorem resume_synSent (h : c.state = .synSent) :
    c.resume config e = c.synSentReady config e := by
  simp only [resume, h]

theorem resume_established {x : Transfer} (h : c.state = .established) (hx : c.xfer = some x) :
    c.resume config e = c.transferReady x e := by
  simp only [resume, h, hx]

theorem resume_finWait (h : c.state = .finWait) :
    c.resume config e = c.finWaitReady config e := by
  simp only [resume, h]

theorem resume_timeWait (h : c.state = .timeWait) : c.resume config e = c.timeWaitReady e := by
  simp only [resume, h]

end Equations

/-- The ways on from the window timer: nothing waits for an acknowledgement, the window is sent
again, or its timer runs on. -/
inductive TimerMove (c : Client Addr) (x : Transfer) (e : Env Addr)
    (next : Client Addr × List (Send Addr)) : Prop where
  | empty (next : next = ({ c with pc := .select 10, xfer := some x }, []))
  | resends (timer : UInt64) (next : next =
      ({ c with
        pc := .transfer
        xfer := some { x with
          gbn := (gbnRetransmitWindow e c.serverAddr { x.gbn with windowTimerMs := timer }).1 } },
        (gbnRetransmitWindow e c.serverAddr { x.gbn with windowTimerMs := timer }).2))
  | waits (timer : UInt64) (ms : Nat) (next : next =
      ({ c with
        pc := .select ms
        xfer := some { x with gbn := { x.gbn with windowTimerMs := timer } } }, []))

theorem transferTimer_move (c : Client Addr) (x : Transfer) (e : Env Addr) :
    c.TimerMove x e (c.transferTimer x e) := by
  rw [transferTimer]
  by_cases hempty : x.gbn.base = x.gbn.nextseqnum
  · rw [if_pos hempty]
    exact .empty rfl
  · rw [if_neg hempty]
    generalize (if x.gbn.windowTimerMs = 0 then e.nowMs else x.gbn.windowTimerMs) = timer
    by_cases hlate : e.nowMs - timer ≥ UInt64.ofNat retransmitIntervalMs
    · simp only [if_pos hlate]
      exact .resends timer rfl
    · simp only [if_neg hlate]
      exact .waits timer _ rfl

end Client

end ReliableUdp
