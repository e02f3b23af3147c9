import ReliableUdp.Endpoint.PeerAddress

namespace ReliableUdp

/-- A call that a handler or the cleanup makes on its socket or on its file. -/
inductive Call where
  | select | recvfrom | sendto | fread | fwrite | fclose | close
  deriving DecidableEq

variable {Addr : Type}

/-- A call of `sendto` for each packet. -/
def sendtoCalls (sends : List (Send Addr)) : List Call := sends.map (fun _ => .sendto)

/-- The calls behind a `select`: those for a timeout, none when it has failed, or `recvfrom` and
those for the packet. -/
def readyCalls (e : Env Addr) (addr : Addr) (timeout : List Call)
    (packet : RDTHeader → List UInt8 → List Call) : List Call :=
  if waitForPacket e.selectResult = 0 then timeout
  else if waitForPacket e.selectResult < 0 then []
  else .recvfrom :: match (recvPacket e addr).2 with
    | .error _ => []
    | .ok (h, payload) => packet h payload

/-- The calls of the `while` loop of `gbn_fill_and_send_window` with `n` rounds left. -/
def fillLoopCalls : Nat → InputFile → List Call
  | 0, _ => []
  | n + 1, file =>
    match readChunk file with
    | (.eof, _) => [.fread]
    | (.error, _) => [.fread]
    | (.bytes _, file) => .fread :: .sendto :: fillLoopCalls n file

def gbnFillAndSendWindowCalls (state : GBNSenderState) (file : InputFile) : List Call :=
  fillLoopCalls ((state.base + UInt32.ofNat windowSize).toNat - state.nextseqnum.toNat) file

/-- The cleanup closes a file that is not the default stream, and then the socket. -/
def cleanupCalls (filename : Option String) : List Call :=
  (if usesDefaultStream filename then [] else [.fclose]) ++ [.close]

namespace Client

def handleSynSentCalls (config : AppConfig) (c : Client Addr) (e : Env Addr) : List Call :=
  if c.expired config e then [] else [.select]

def synSentReadyCalls (config : AppConfig) (c : Client Addr) (e : Env Addr) : List Call :=
  readyCalls e c.serverAddr (if c.expired config e then [] else [.sendto])
    (fun h _ => if c.TakesSynAck h then [.sendto] else [])

def transferTimerCalls (c : Client Addr) (x : Transfer) (e : Env Addr) : List Call :=
  if x.gbn.base = x.gbn.nextseqnum then [.select]
  else
    let timer := if x.gbn.windowTimerMs = 0 then e.nowMs else x.gbn.windowTimerMs
    if e.nowMs - timer ≥ UInt64.ofNat retransmitIntervalMs then
      sendtoCalls (gbnRetransmitWindow e c.serverAddr { x.gbn with windowTimerMs := timer }).2
    else [.select]

def transferWaitCalls (c : Client Addr) (x : Transfer) (e : Env Addr) : List Call :=
  if x.eofReached ∧ x.gbn.base = x.gbn.nextseqnum then [] else c.transferTimerCalls x e

def transferRoundCalls (config : AppConfig) (c : Client Addr) (x : Transfer) (e : Env Addr) :
    List Call :=
  if ¬ (x.eofReached = false ∨ x.gbn.base < x.gbn.nextseqnum) then []
  else if c.expired config e then []
  else if x.eofReached = false then
    let filled := gbnFillAndSendWindow e c.serverAddr c.connection x.gbn c.file
    gbnFillAndSendWindowCalls x.gbn c.file ++
      if filled.result < 0 then []
      else { c with file := filled.file }.transferWaitCalls
        { x with gbn := filled.state, eofReached := decide (filled.result > 0) } e
  else c.transferWaitCalls x e

/-- An acknowledgement makes the loop send only when it is the third equal one in a row. -/
def transferAckCalls (c : Client Addr) (x : Transfer) (e : Env Addr) (ack : UInt32) : List Call :=
  if (gbnProcessAck x.gbn ack).2 then []
  else if ack = x.lastAck ∧ x.dupAckCount + 1 = 3 then
    sendtoCalls (gbnRetransmitWindow e c.serverAddr (gbnProcessAck x.gbn ack).1).2
  else []

def transferReadyCalls (c : Client Addr) (x : Transfer) (e : Env Addr) : List Call :=
  readyCalls e c.serverAddr [] (fun h _ =>
    if c.IsAck h then
      { c with serverAddr := (recvPacket e c.serverAddr).1, pc := .transfer }.transferAckCalls x e
        h.ackNum
    else [])

def handleFinWaitCalls (config : AppConfig) (c : Client Addr) (e : Env Addr) : List Call :=
  if c.expired config e then []
  else if (c.control e flagFin).sent then [.sendto, .select] else [.sendto]

def finWaitReadyCalls (c : Client Addr) (e : Env Addr) : List Call :=
  readyCalls e c.serverAddr [] (fun h _ => if c.TakesFinAck h then [.sendto] else [])

def timeWaitReadyCalls (c : Client Addr) (e : Env Addr) : List Call :=
  readyCalls e c.serverAddr [] (fun h _ => if c.TakesFinAckAgain h then [.sendto] else [])

def runClientCalls (config : AppConfig) (c : Client Addr) (e : Env Addr) : List Call :=
  match c.state with
  | .done => cleanupCalls config.inputFile
  | state =>
    if e.stopRequested then []
    else match state with
      | .closed => [.sendto]
      | .synSent => c.handleSynSentCalls config e
      | .established => []
      | .finWait => c.handleFinWaitCalls config e
      | .timeWait => [.select]
      | .done => []

def resumeCalls (config : AppConfig) (c : Client Addr) (e : Env Addr) : List Call :=
  match c.state, c.xfer with
  | .synSent, _ => c.synSentReadyCalls config e
  | .established, some x => c.transferReadyCalls x e
  | .finWait, _ => c.finWaitReadyCalls e
  | .timeWait, _ => c.timeWaitReadyCalls e
  | _, _ => []

/-- The calls of one activation of the client process. -/
def calls (config : AppConfig) (c : Client Addr) (e : Env Addr) : List Call :=
  match c.pc, c.xfer with
  | .fsm, _ => c.runClientCalls config e
  | .transfer, some x => c.transferRoundCalls config x e
  | .select _, _ => c.resumeCalls config e
  | _, _ => []

end Client

namespace Server

/-- All four handlers start with the watchdog and block in `select`. -/
def enterCalls (config : AppConfig) (s : Server Addr) (e : Env Addr) : List Call :=
  if s.expired config e then [] else [.select]

def listenReadyCalls (s : Server Addr) (e : Env Addr) : List Call :=
  readyCalls e s.clientAddr [] (fun h _ => if h.flags = flagSyn then [.sendto] else [])

def handshakeReadyCalls (s : Server Addr) (e : Env Addr) : List Call :=
  readyCalls e s.clientAddr [] (fun h _ =>
    if h.flags = flagSyn ∧ h.seqNum + 1 = s.connection.ackNum then [.sendto] else [])

def dataPacketCalls (s : Server Addr) (e : Env Addr) (h : RDTHeader) (payload : List UInt8) :
    List Call :=
  if h.seqNum = s.connection.ackNum then
    if written e payload ≠ payload.length then [.fwrite] else [.fwrite, .sendto]
  else [.sendto]

def establishedReadyCalls (s : Server Addr) (e : Env Addr) : List Call :=
  readyCalls e s.clientAddr [] (fun h payload =>
    if h.flags = flagFin ∧ h.connId = s.connection.connId ∧ h.seqNum = s.connection.ackNum then
      [.sendto]
    else if s.IsData h then s.dataPacketCalls e h payload
    else [])

def lastAckReadyCalls (config : AppConfig) (s : Server Addr) (e : Env Addr) : List Call :=
  readyCalls e s.clientAddr (if s.expired config e then [] else [.sendto]) (fun h _ =>
    if h.flags = flagFin ∧ h.connId = s.connection.connId ∧
      h.seqNum + 1 = s.connection.ackNum then [.sendto] else [])

def runServerCalls (config : AppConfig) (s : Server Addr) (e : Env Addr) : List Call :=
  if s.state = .done then cleanupCalls config.outputFile
  else if e.stopRequested then []
  else s.enterCalls config e

def resumeCalls (config : AppConfig) (s : Server Addr) (e : Env Addr) : List Call :=
  match s.state with
  | .listen => s.listenReadyCalls e
  | .handshake => s.handshakeReadyCalls e
  | .established => s.establishedReadyCalls e
  | .lastAck => s.lastAckReadyCalls config e
  | .done => []

/-- The calls of one activation of the server process. -/
def calls (config : AppConfig) (s : Server Addr) (e : Env Addr) : List Call :=
  match s.pc with
  | .fsm => s.runServerCalls config e
  | .select _ => s.resumeCalls config e
  | .returned _ => []

end Server

def ClientPc.code : ClientPc → Option Int
  | .returned code => some code
  | _ => none

def ServerPc.code : ServerPc → Option Int
  | .returned code => some code
  | _ => none

/-- The calls keep the socket and the file open. -/
def KeepsOpen (calls : List Call) : Prop := .fclose ∉ calls ∧ .close ∉ calls

instance (calls : List Call) : Decidable (KeepsOpen calls) := inferInstanceAs (Decidable (_ ∧ _))

/-- The calls of a client that goes on as `next`: a `sendto` for every packet and an `fread` for
every outcome it has read. -/
structure Client.Accounts (c : Client Addr) (calls : List Call)
    (next : Client Addr × List (Send Addr)) : Prop where
  sends : calls.count .sendto = next.2.length
  reads : next.1.file = c.file.drop (calls.count .fread)
  keepsOpen : KeepsOpen calls
  goesOn : next.1.pc.code = none

/-- The calls of a server that goes on as `next`: a `sendto` for every packet, and an `fwrite` where
its output has changed. -/
structure Server.Accounts (s : Server Addr) (calls : List Call)
    (next : Server Addr × List (Send Addr)) : Prop where
  sends : calls.count .sendto = next.2.length
  writes : .fwrite ∉ calls → next.1.output = s.output
  keepsOpen : KeepsOpen calls
  goesOn : next.1.pc.code = none

theorem count_sendtoCalls (sends : List (Send Addr)) :
    (sendtoCalls sends).count .sendto = sends.length := by
  rw [sendtoCalls, List.count_eq_length.mpr (by simp), List.length_map]

theorem count_fread_sendtoCalls (sends : List (Send Addr)) :
    (sendtoCalls sends).count .fread = 0 :=
  List.count_eq_zero.mpr (by simp [sendtoCalls])

theorem KeepsOpen.sendto (sends : List (Send Addr)) : KeepsOpen (sendtoCalls sends) := by
  simp [KeepsOpen, sendtoCalls]

theorem KeepsOpen.cons {call : Call} {calls : List Call} (h : KeepsOpen calls)
    (hf : call ≠ .fclose) (hc : call ≠ .close) : KeepsOpen (call :: calls) := by
  simp only [KeepsOpen, List.mem_cons, not_or]
  exact ⟨⟨hf.symm, h.1⟩, hc.symm, h.2⟩

theorem KeepsOpen.append {calls calls' : List Call} (h : KeepsOpen calls) (h' : KeepsOpen calls') :
    KeepsOpen (calls ++ calls') := by
  simp only [KeepsOpen, List.mem_append, not_or]
  exact ⟨⟨h.1, h'.1⟩, h.2, h'.2⟩

/-- A round of filling reads once and, when it has got a chunk, sends it. -/
theorem fillLoop_calls (e : Env Addr) (addr : Addr) (connection : ConnectionState) (n : Nat)
    (state : GBNSenderState) (file : InputFile) :
    (fillLoopCalls n file).count .sendto = (fillLoop e addr connection n state file).sends.length ∧
    (fillLoop e addr connection n state file).file =
      file.drop ((fillLoopCalls n file).count .fread) ∧
    KeepsOpen (fillLoopCalls n file) := by
  induction n generalizing state file with
  | zero => exact ⟨rfl, rfl, by simp [KeepsOpen, fillLoopCalls]⟩
  | succ n ih =>
    cases file with
    | nil => exact ⟨rfl, rfl, by simp [KeepsOpen, fillLoopCalls, readChunk]⟩
    | cons outcome file =>
      cases outcome with
      | eof => exact ⟨rfl, rfl, by simp [KeepsOpen, fillLoopCalls, readChunk]⟩
      | error => exact ⟨rfl, rfl, by simp [KeepsOpen, fillLoopCalls, readChunk]⟩
      | bytes chunk =>
        obtain ⟨hsends, hfile, hopen⟩ := ih (advance (fillSlot e connection state chunk)) file
        refine ⟨?_, ?_, ?_⟩
        · simp [fillLoopCalls, fillLoop, readChunk, hsends]
        · simpa [fillLoopCalls, fillLoop, readChunk] using hfile
        · exact (hopen.cons (by decide) (by decide)).cons (by decide) (by decide)

namespace Client

variable {config : AppConfig} {c d : Client Addr} {e : Env Addr} {x : Transfer}
  {calls timeout : List Call} {next : Client Addr × List (Send Addr)} {o : Send Addr}

theorem Accounts.silent (hfile : d.file = c.file) (hpc : d.pc.code = none) :
    c.Accounts [] (d, []) := ⟨rfl, hfile, by decide, hpc⟩

theorem Accounts.waits (hfile : d.file = c.file) (hpc : d.pc.code = none) :
    c.Accounts [.select] (d, []) := ⟨rfl, hfile, by decide, hpc⟩

theorem Accounts.one (hfile : d.file = c.file) (hpc : d.pc.code = none) :
    c.Accounts [.sendto] (d, [o]) := ⟨rfl, hfile, by decide, hpc⟩

theorem Accounts.resends {gbn : GBNSenderState} {addr : Addr} (hfile : d.file = c.file)
    (hpc : d.pc.code = none) : c.Accounts (sendtoCalls (gbnRetransmitWindow e addr gbn).2)
      (d, (gbnRetransmitWindow e addr gbn).2) := by
  refine ⟨count_sendtoCalls _, ?_, .sendto _, hpc⟩
  rw [count_fread_sendtoCalls]
  exact hfile

theorem Accounts.received (h : c.Accounts calls next) : c.Accounts (.recvfrom :: calls) next := by
  refine ⟨?_, ?_, h.keepsOpen.cons (by decide) (by decide), h.goesOn⟩
  · rw [List.count_cons_of_ne (by decide)]
    exact h.sends
  · rw [List.count_cons_of_ne (by decide)]
    exact h.reads

theorem Accounts.behind {calls' : List Call} {sends : List (Send Addr)}
    (hs : calls.count .sendto = sends.length) (hfile : d.file = c.file.drop (calls.count .fread))
    (ho : KeepsOpen calls) (h : d.Accounts calls' next) :
    c.Accounts (calls ++ calls') (next.1, sends ++ next.2) := by
  refine ⟨?_, ?_, ho.append h.keepsOpen, h.goesOn⟩
  · rw [List.count_append, List.length_append]
    exact congrArg₂ (· + ·) hs h.sends
  · rw [List.count_append, ← List.drop_drop, ← hfile]
    exact h.reads

/-- A handler from its `select` on. -/
theorem Accounts.ready {packet : RDTHeader → List UInt8 → List Call}
    {first failed last : Client Addr × List (Send Addr)} (hfirst : c.Accounts timeout first)
    (hfailed : c.Accounts [] failed)
    (hlast : c.Accounts (match (recvPacket e c.serverAddr).2 with
      | .error _ => []
      | .ok (h, payload) => packet h payload) last) :
    c.Accounts (readyCalls e c.serverAddr timeout packet)
      (if waitForPacket e.selectResult = 0 then first
        else if waitForPacket e.selectResult < 0 then failed else last) := by
  rw [readyCalls]
  split_ifs
  · exact hfirst
  · exact hfailed
  · exact hlast.received

theorem Accounts.receive {packet : RDTHeader → List UInt8 → List Call}
    {handle : Client Addr → RDTHeader → Client Addr × List (Send Addr)}
    (hh : ∀ a h payload, c.Accounts (packet h payload) (handle { c with serverAddr := a } h)) :
    c.Accounts (match (recvPacket e c.serverAddr).2 with
      | .error _ => []
      | .ok (h, payload) => packet h payload) (c.receive e handle) := by
  rw [Client.receive]
  cases (recvPacket e c.serverAddr).2 with
  | error code => exact .silent rfl rfl
  | ok received => exact hh _ _ _

theorem handleClosed_accounts : c.Accounts [.sendto] (c.handleClosed e) := by
  rw [handleClosed]
  split_ifs
  · exact .one rfl rfl
  · exact .one rfl rfl

theorem handleSynSent_accounts :
    c.Accounts (c.handleSynSentCalls config e) (c.handleSynSent config e) := by
  rw [handleSynSentCalls, handleSynSent]
  split_ifs
  · exact .silent rfl rfl
  · exact .waits rfl rfl

theorem synSentReady_accounts :
    c.Accounts (c.synSentReadyCalls config e) (c.synSentReady config e) := by
  rw [synSentReadyCalls, synSentReady]
  refine .ready ?_ (.silent rfl rfl) (.receive ?_)
  · dsimp only
    split_ifs
    · exact .silent rfl rfl
    · exact .one rfl rfl
    · exact .one rfl rfl
  · intro a h _
    rw [synSentPacket]
    dsimp only
    split_ifs
    · exact .one rfl rfl
    · exact .one rfl rfl
    · exact .silent rfl rfl

theorem handleEstablished_accounts : c.Accounts [] (c.handleEstablished config e) := by
  rw [handleEstablished]
  split_ifs
  · exact .silent rfl rfl
  · exact .silent rfl rfl

theorem transferTimer_accounts : c.Accounts (c.transferTimerCalls x e) (c.transferTimer x e) := by
  rw [transferTimerCalls, transferTimer]
  by_cases hempty : x.gbn.base = x.gbn.nextseqnum
  · rw [if_pos hempty, if_pos hempty]
    exact .waits rfl rfl
  · rw [if_neg hempty, if_neg hempty]
    dsimp only
    generalize (if x.gbn.windowTimerMs = 0 then e.nowMs else x.gbn.windowTimerMs) = timer
    by_cases hlate : e.nowMs - timer ≥ UInt64.ofNat retransmitIntervalMs
    · rw [if_pos hlate, if_pos hlate]
      exact .resends rfl rfl
    · rw [if_neg hlate, if_neg hlate]
      exact .waits rfl rfl

theorem transferWait_accounts : c.Accounts (c.transferWaitCalls x e) (c.transferWait x e) := by
  rw [transferWaitCalls, transferWait]
  split_ifs
  · exact .silent rfl rfl
  · exact transferTimer_accounts

theorem transferRound_accounts :
    c.Accounts (c.transferRoundCalls config x e) (c.transferRound config x e) := by
  rw [transferRoundCalls, transferRound]
  by_cases hloop : ¬ (x.eofReached = false ∨ x.gbn.base < x.gbn.nextseqnum)
  · rw [if_pos hloop, if_pos hloop]
    exact .silent rfl rfl
  rw [if_neg hloop, if_neg hloop]
  by_cases hexp : c.expired config e = true
  · rw [if_pos hexp, if_pos hexp]
    exact .silent rfl rfl
  rw [if_neg hexp, if_neg hexp]
  by_cases heof : x.eofReached = false
  · rw [if_pos heof, if_pos heof]
    obtain ⟨hsends, hfile, hopen⟩ := fillLoop_calls e c.serverAddr c.connection
      ((x.gbn.base + UInt32.ofNat windowSize).toNat - x.gbn.nextseqnum.toNat) x.gbn c.file
    dsimp only
    by_cases hneg : (gbnFillAndSendWindow e c.serverAddr c.connection x.gbn c.file).result < 0
    · rw [if_pos hneg, if_pos hneg, List.append_nil]
      exact ⟨hsends, hfile, hopen, rfl⟩
    · rw [if_neg hneg, if_neg hneg]
      exact .behind hsends hfile hopen transferWait_accounts
  · rw [if_neg heof, if_neg heof]
    exact transferWait_accounts

theorem transferAck_accounts (hpc : c.pc.code = none) (ack : UInt32) :
    c.Accounts (c.transferAckCalls x e ack) (c.transferAck x e ack) := by
  rw [transferAckCalls, transferAck]
  dsimp only
  by_cases hnew : (gbnProcessAck x.gbn ack).2 = true
  · rw [if_pos hnew, if_pos hnew]
    exact .silent rfl hpc
  rw [if_neg hnew, if_neg hnew]
  by_cases hlast : ack = x.lastAck
  · rw [if_pos hlast]
    by_cases hthird : x.dupAckCount + 1 = 3
    · rw [if_pos hthird, if_pos ⟨hlast, hthird⟩]
      exact .resends rfl hpc
    · rw [if_neg hthird, if_neg (fun h => hthird h.2)]
      exact .silent rfl hpc
  · rw [if_neg hlast, if_neg (fun h => hlast h.1)]
    exact .silent rfl hpc

theorem transferReady_accounts : c.Accounts (c.transferReadyCalls x e) (c.transferReady x e) := by
  rw [transferReadyCalls, transferReady]
  refine .ready (.silent rfl rfl) (.silent rfl rfl) ?_
  dsimp only
  cases (recvPacket e c.serverAddr).2 with
  | error code => exact .silent rfl rfl
  | ok received =>
    dsimp only
    by_cases hack : c.IsAck received.1
    · rw [if_pos hack, if_pos hack]
      have hacked := transferAck_accounts (c := { c with
        serverAddr := (recvPacket e c.serverAddr).1
        pc := .transfer }) (x := x) (e := e) rfl received.1.ackNum
      exact ⟨hacked.sends, hacked.reads, hacked.keepsOpen, hacked.goesOn⟩
    · rw [if_neg hack, if_neg hack]
      exact .silent rfl rfl

theorem handleFinWait_accounts :
    c.Accounts (c.handleFinWaitCalls config e) (c.handleFinWait config e) := by
  rw [handleFinWaitCalls, handleFinWait]
  dsimp only
  split_ifs
  · exact .silent rfl rfl
  · exact ⟨rfl, rfl, by decide, rfl⟩
  · exact .one rfl rfl

theorem finWaitReady_accounts : c.Accounts (c.finWaitReadyCalls e) (c.finWaitReady config e) := by
  rw [finWaitReadyCalls, finWaitReady]
  refine .ready ?_ (.silent rfl rfl) (.receive ?_)
  · split_ifs
    · exact .silent rfl rfl
    · exact .silent rfl rfl
  · intro a h _
    rw [finWaitPacket]
    dsimp only
    split_ifs
    · exact .one rfl rfl
    · exact .one rfl rfl
    · exact .silent rfl rfl

theorem timeWaitReady_accounts : c.Accounts (c.timeWaitReadyCalls e) (c.timeWaitReady e) := by
  rw [timeWaitReadyCalls, timeWaitReady]
  refine .ready (.silent rfl rfl) ?_ (.receive ?_)
  · split_ifs
    · exact .silent rfl rfl
    · exact .silent rfl rfl
  · intro a h _
    rw [timeWaitPacket]
    dsimp only
    split_ifs
    · exact .one rfl rfl
    · exact .one rfl rfl
    · exact .silent rfl rfl

/-- The calls of an activation, and how it leaves the client: it has returned before, it closes
everything and returns, or it goes on. -/
inductive Called (config : AppConfig) (c : Client Addr) (e : Env Addr) : Prop where
  | returned (code : Int) (pc : c.pc = .returned code) (calls : c.calls config e = [])
      (stays : (c.step config e).1 = c)
  | cleanup (pc : c.pc.code = none) (calls : c.calls config e = cleanupCalls config.inputFile)
      (code : Int) (returns : (c.step config e).1.pc.code = some code)
  | runs (pc : c.pc.code = none) (accounts : c.Accounts (c.calls config e) (c.step config e))

theorem runClient_accounts (hs : c.state ≠ .done) :
    c.Accounts (c.runClientCalls config e) (c.runClient config e) := by
  cases hst : c.state with
  | done => exact absurd hst hs
  | closed =>
    rw [runClient_closed hst]
    simp only [runClientCalls, hst]
    split_ifs
    · exact .silent rfl rfl
    · exact handleClosed_accounts
  | synSent =>
    rw [runClient_synSent hst]
    simp only [runClientCalls, hst]
    split_ifs
    · exact .silent rfl rfl
    · exact handleSynSent_accounts
  | established =>
    rw [runClient_established hst]
    simp only [runClientCalls, hst, ite_self]
    split_ifs
    · exact .silent rfl rfl
    · exact handleEstablished_accounts
  | finWait =>
    rw [runClient_finWait hst]
    simp only [runClientCalls, hst]
    split_ifs
    · exact .silent rfl rfl
    · exact handleFinWait_accounts
  | timeWait =>
    rw [runClient_timeWait hst]
    simp only [runClientCalls, hst]
    split_ifs
    · exact .silent rfl rfl
    · exact .waits rfl rfl

theorem resume_accounts (hpc : c.pc.code = none) :
    c.Accounts (c.resumeCalls config e) (c.resume config e) := by
  cases hst : c.state with
  | closed => simpa only [resumeCalls, resume, hst] using .silent rfl hpc
  | synSent => simpa only [resumeCalls, resume, hst] using synSentReady_accounts
  | established =>
    cases hx : c.xfer with
    | none => simpa only [resumeCalls, resume, hst, hx] using .silent rfl hpc
    | some x => simpa only [resumeCalls, resume, hst, hx] using transferReady_accounts
  | finWait => simpa only [resumeCalls, resume, hst] using finWaitReady_accounts
  | timeWait => simpa only [resumeCalls, resume, hst] using timeWaitReady_accounts
  | done => simpa only [resumeCalls, resume, hst] using .silent rfl hpc

theorem called (config : AppConfig) (c : Client Addr) (e : Env Addr) : c.Called config e := by
  cases hpc : c.pc with
  | returned code =>
    refine .returned code hpc ?_ (by rw [step_returned hpc])
    simp only [Client.calls, hpc]
  | fsm =>
    have hcalls : c.calls config e = c.runClientCalls config e := by simp only [Client.calls, hpc]
    by_cases hd : c.state = .done
    · refine .cleanup (by rw [hpc]; rfl) ?_ _ (by rw [step_fsm hpc, runClient_done hd]; rfl)
      rw [hcalls, runClientCalls, hd]
    · refine .runs (by rw [hpc]; rfl) ?_
      rw [hcalls, step_fsm hpc]
      exact runClient_accounts hd
  | transfer =>
    refine .runs (by rw [hpc]; rfl) ?_
    cases hx : c.xfer with
    | none =>
      simp only [Client.calls, Client.step, hpc, hx]
      exact .silent rfl (by rw [hpc]; rfl)
    | some x =>
      simp only [Client.calls, Client.step, hpc, hx]
      exact transferRound_accounts
  | select ms =>
    refine .runs (by rw [hpc]; rfl) ?_
    simp only [Client.calls, Client.step, hpc]
    exact resume_accounts (by rw [hpc]; rfl)

end Client

namespace Server

variable {config : AppConfig} {s d : Server Addr} {e : Env Addr} {calls timeout : List Call}
  {next : Server Addr × List (Send Addr)} {o : Send Addr}

theorem Accounts.silent (hout : d.output = s.output) (hpc : d.pc.code = none) :
    s.Accounts [] (d, []) := ⟨rfl, fun _ => hout, by decide, hpc⟩

theorem Accounts.one (hout : d.output = s.output) (hpc : d.pc.code = none) :
    s.Accounts [.sendto] (d, [o]) := ⟨rfl, fun _ => hout, by decide, hpc⟩

theorem Accounts.received (h : s.Accounts calls next) : s.Accounts (.recvfrom :: calls) next := by
  refine ⟨?_, fun hno => h.writes (fun hmem => hno (List.mem_cons_of_mem _ hmem)),
    h.keepsOpen.cons (by decide) (by decide), h.goesOn⟩
  rw [List.count_cons_of_ne (by decide)]
  exact h.sends

theorem Accounts.reply {flags : UInt8} {next : Server Addr} (hd : d.output = s.output)
    (hout : next.output = s.output) (hpc : next.pc.code = none) :
    s.Accounts [.sendto] (d.reply e flags next) := by
  rw [Server.reply]
  split_ifs
  · exact .one hout hpc
  · exact .one hd rfl

/-- A handler from its `select` on. -/
theorem Accounts.ready {packet : RDTHeader → List UInt8 → List Call}
    {first failed : Server Addr × List (Send Addr)}
    {handle : Server Addr → RDTHeader → List UInt8 → Server Addr × List (Send Addr)}
    (hfirst : s.Accounts timeout first) (hfailed : s.Accounts [] failed)
    (hh : ∀ a h payload,
      s.Accounts (packet h payload) (handle { s with clientAddr := a } h payload)) :
    s.Accounts (readyCalls e s.clientAddr timeout packet)
      (if waitForPacket e.selectResult = 0 then first
        else if waitForPacket e.selectResult < 0 then failed else s.receive e handle) := by
  rw [readyCalls]
  split_ifs
  · exact hfirst
  · exact hfailed
  · rw [Server.receive]
    cases (recvPacket e s.clientAddr).2 with
    | error code => exact .received (.silent rfl rfl)
    | ok received => exact .received (hh _ _ _)

theorem enter_accounts : s.Accounts (s.enterCalls config e) (s.enter config e) := by
  rw [enterCalls, enter]
  split_ifs
  · exact .silent rfl rfl
  · exact ⟨rfl, fun _ => rfl, by decide, rfl⟩

theorem listenReady_accounts : s.Accounts (s.listenReadyCalls e) (s.listenReady config e) := by
  rw [listenReadyCalls, listenReady, Server.ready]
  refine .ready ?_ (.silent rfl rfl) ?_
  · split_ifs
    · exact .silent rfl rfl
    · exact .silent rfl rfl
  · intro a h _
    rw [listenPacket]
    dsimp only
    split_ifs
    · exact .reply rfl rfl rfl
    · exact .silent rfl rfl

theorem handshakeReady_accounts :
    s.Accounts (s.handshakeReadyCalls e) (s.handshakeReady config e) := by
  rw [handshakeReadyCalls, handshakeReady, Server.ready]
  refine .ready ?_ (.silent rfl rfl) ?_
  · split_ifs
    · exact .silent rfl rfl
    · exact .silent rfl rfl
  · intro a h _
    rw [handshakePacket]
    dsimp only
    split_ifs
    · exact .reply rfl rfl rfl
    · exact .silent rfl rfl
    · exact .silent rfl rfl
    · exact .silent rfl rfl

/-- What is written is written by `fwrite`. -/
theorem dataPacket_accounts (a : Addr) (h : RDTHeader) (payload : List UInt8) :
    s.Accounts (s.dataPacketCalls e h payload)
      ({ s with clientAddr := a }.dataPacket e h payload) := by
  rw [dataPacketCalls, dataPacket]
  by_cases hseq : h.seqNum = s.connection.ackNum
  · rw [if_pos hseq, if_pos hseq]
    dsimp only
    by_cases hfull : written e payload ≠ payload.length
    · rw [if_pos hfull, if_pos hfull]
      exact ⟨rfl, fun hno => absurd List.mem_cons_self hno, by decide, rfl⟩
    · rw [if_neg hfull, if_neg hfull, Server.reply]
      split_ifs
      · exact ⟨rfl, fun hno => absurd List.mem_cons_self hno, by decide, rfl⟩
      · exact ⟨rfl, fun hno => absurd List.mem_cons_self hno, by decide, rfl⟩
  · rw [if_neg hseq, if_neg hseq]
    dsimp only
    split_ifs
    · exact .reply rfl rfl rfl
    · exact .reply rfl rfl rfl

theorem establishedReady_accounts :
    s.Accounts (s.establishedReadyCalls e) (s.establishedReady config e) := by
  rw [establishedReadyCalls, establishedReady, Server.ready]
  refine .ready ?_ (.silent rfl rfl) ?_
  · split_ifs
    · exact .silent rfl rfl
    · exact .silent rfl rfl
  · intro a h payload
    rw [establishedPacket]
    dsimp only
    split_ifs
    · exact .reply rfl rfl rfl
    · exact dataPacket_accounts a h payload
    · exact .silent rfl rfl

theorem lastAckReady_accounts :
    s.Accounts (s.lastAckReadyCalls config e) (s.lastAckReady config e) := by
  rw [lastAckReadyCalls, lastAckReady]
  refine .ready ?_ ?_ ?_
  · dsimp only
    split_ifs
    · exact .silent rfl rfl
    · exact .one rfl rfl
    · exact .one rfl rfl
  · split_ifs
    · exact .silent rfl rfl
    · exact .silent rfl rfl
  · intro a h _
    rw [lastAckPacket]
    dsimp only
    split_ifs
    · exact .reply rfl rfl rfl
    · exact .silent rfl rfl
    · exact .silent rfl rfl

theorem resume_accounts (hpc : s.pc.code = none) :
    s.Accounts (s.resumeCalls config e) (s.resume config e) := by
  cases hst : s.state with
  | listen => simpa only [resumeCalls, resume, hst] using listenReady_accounts
  | handshake => simpa only [resumeCalls, resume, hst] using handshakeReady_accounts
  | established => simpa only [resumeCalls, resume, hst] using establishedReady_accounts
  | lastAck => simpa only [resumeCalls, resume, hst] using lastAckReady_accounts
  | done => simpa only [resumeCalls, resume, hst] using .silent rfl hpc

/-- The calls of an activation, and how it leaves the server: it has returned before, it closes
everything and returns, or it goes on. -/
inductive Called (config : AppConfig) (s : Server Addr) (e : Env Addr) : Prop where
  | returned (code : Int) (pc : s.pc = .returned code) (calls : s.calls config e = [])
      (stays : (s.step config e).1 = s)
  | cleanup (pc : s.pc.code = none) (calls : s.calls config e = cleanupCalls config.outputFile)
      (code : Int) (returns : (s.step config e).1.pc.code = some code)
  | runs (pc : s.pc.code = none) (accounts : s.Accounts (s.calls config e) (s.step config e))

theorem called (config : AppConfig) (s : Server Addr) (e : Env Addr) : s.Called config e := by
  cases hpc : s.pc with
  | returned code =>
    refine .returned code hpc ?_ (by rw [step_returned hpc])
    simp only [Server.calls, hpc]
  | fsm =>
    have hcalls : s.calls config e = s.runServerCalls config e := by simp only [Server.calls, hpc]
    by_cases hd : s.state = .done
    · refine .cleanup (by rw [hpc]; rfl) ?_ _ (by rw [step_fsm hpc, runServer_done hd]; rfl)
      rw [hcalls, runServerCalls, if_pos hd]
    · refine .runs (by rw [hpc]; rfl) ?_
      rw [hcalls, step_fsm hpc, runServerCalls, runServer_running hd, if_neg hd]
      split_ifs
      · exact .silent rfl rfl
      · exact enter_accounts
  | select ms =>
    refine .runs (by rw [hpc]; rfl) ?_
    simp only [Server.calls, Server.step, hpc]
    exact resume_accounts (by rw [hpc]; rfl)

end Server

end ReliableUdp
