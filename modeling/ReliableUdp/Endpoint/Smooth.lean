import ReliableUdp.Endpoint.ExitCode

namespace ReliableUdp

variable {Addr : Type}

/-- Nothing fails, no signal comes and the watchdog does not expire. -/
structure Env.Smooth (config : AppConfig) (lastProgressMs : UInt64) (e : Env Addr) : Prop
    extends Env.Flawless e where
  running : e.stopRequested = false
  patient : progressTimeoutReached lastProgressMs config.timeout e.checkMs = false
  received : 0 < e.selectResult → e.recvfrom.isSome = true
  fwrite : e.fwrite = none

variable {config : AppConfig} {e : Env Addr}

theorem Env.Smooth.ready {ms : UInt64} (h : e.Smooth config ms) :
    ¬ waitForPacket e.selectResult < 0 := by
  rw [waitForPacket_neg]
  intro hneg
  exact absurd (h.interrupted hneg) (by simp [h.running])

theorem waitForPacket_ne_zero {r : Int} (h : 0 < r) : ¬ waitForPacket r = 0 := by
  rw [waitForPacket_eq_zero]
  omega

namespace Server

variable {s : Server Addr}

/-- The server as it waits in `select`. -/
def selecting (s : Server Addr) (ms : Nat) : Server Addr := { s with pc := .select ms }

theorem selecting_self {ms : Nat} (h : s.pc = .select ms) : s.selecting ms = s := by
  rw [selecting, ← h]

theorem reply_smooth {ms : UInt64} (he : e.Smooth config ms) (flags : UInt8)
    (next : Server Addr) : s.reply e flags next = (next, [s.control e flags]) := by
  have hsent : (s.control e flags).sent = true := he.sendto _
  rw [reply, if_pos hsent]

theorem step_turn (he : e.Smooth config s.lastProgressMs) (hs : s.state ≠ .done)
    (hpc : s.pc = .fsm) :
    s.step config e = (s.selecting retransmitIntervalMs, []) := by
  have hexp : s.expired config e = false := he.patient
  rw [step_fsm hpc, runServer_running hs, enter, he.running, hexp]
  rfl

theorem receive_smooth
    {handle : Server Addr → RDTHeader → List UInt8 → Server Addr × List (Send Addr)} {src : Addr}
    {h : RDTHeader} {payload : List UInt8}
    (hr : recvPacket e s.clientAddr = (src, .ok (h, payload))) :
    s.receive e handle = handle { s with clientAddr := src } h payload := by
  rw [receive, hr]

theorem ready_smooth {ms : UInt64} (he : e.Smooth config ms) (hsel : 0 < e.selectResult)
    {handle : Server Addr → RDTHeader → List UInt8 → Server Addr × List (Send Addr)} {src : Addr}
    {h : RDTHeader} {payload : List UInt8}
    (hr : recvPacket e s.clientAddr = (src, .ok (h, payload))) :
    s.ready config e handle = handle { s with clientAddr := src } h payload := by
  rw [ready, if_neg (waitForPacket_ne_zero hsel), if_neg he.ready, receive_smooth hr]

/-- The server with the numbers of a new connection. -/
def afterSyn (s : Server Addr) (e : Env Addr) (src : Addr) (h : RDTHeader) : Server Addr :=
  { s with
    clientAddr := src
    connection := ⟨UInt32.ofNat (e.rand 1 % moduler), h.seqNum + 1,
      UInt16.ofNat (e.rand 0 % 60000 + 1)⟩ }

section Hears

variable {ms : Nat} {src : Addr} {h : RDTHeader} {payload : List UInt8}

theorem step_admits {t : UInt64} (he : e.Smooth config t) (hs : s.state = .listen)
    (hpc : s.pc = .select ms) (hsel : 0 < e.selectResult)
    (hr : recvPacket e s.clientAddr = (src, .ok (h, payload))) (hsyn : h.flags = flagSyn) :
    s.step config e = (((s.afterSyn e src h).marked e).goto .handshake,
      [(s.afterSyn e src h).control e (flagSyn ||| flagAck)]) := by
  rw [step_select hpc, resume_listen hs, listenReady, ready_smooth he hsel hr, listenPacket,
    if_pos hsyn]
  exact reply_smooth he _ _

/-- A repeated SYN is answered again. -/
theorem step_answers {t : UInt64} (he : e.Smooth config t) (hs : s.state = .handshake)
    (hpc : s.pc = .select ms) (hsel : 0 < e.selectResult)
    (hr : recvPacket e s.clientAddr = (src, .ok (h, payload)))
    (hsyn : h.flags = flagSyn ∧ h.seqNum + 1 = s.connection.ackNum) :
    s.step config e = ({ s with clientAddr := src }.goto .handshake,
      [{ s with clientAddr := src }.control e (flagSyn ||| flagAck)]) := by
  rw [step_select hpc, resume_handshake hs, handshakeReady, ready_smooth he hsel hr,
    handshakePacket, if_pos hsyn]
  exact reply_smooth he _ _

/-- What opens the transfer in `handle_handshake`: the ACK, or the first data packet. -/
theorem step_opened {t : UInt64} (he : e.Smooth config t) (hs : s.state = .handshake)
    (hpc : s.pc = .select ms) (hsel : 0 < e.selectResult)
    (hr : recvPacket e s.clientAddr = (src, .ok (h, payload)))
    (htake : (h.flags = flagAck ∨ h.flags = flagData) ∧ h.connId = s.connection.connId ∧
      h.ackNum = s.connection.seqNum + 1 ∧ h.seqNum = s.connection.ackNum) :
    (s.step config e).1.state = .established := by
  obtain ⟨hflags, hconn, hack, hseq⟩ := htake
  have hsyn : ¬ (h.flags = flagSyn ∧ h.seqNum + 1 = s.connection.ackNum) := by
    intro htaken
    obtain ⟨hf, _⟩ := htaken
    rw [hf] at hflags
    exact absurd hflags (by decide)
  rw [step_select hpc, resume_handshake hs, handshakeReady, ready_smooth he hsel hr,
    handshakePacket, if_neg hsyn]
  rcases hflags with hf | hf
  · rw [if_pos ⟨hf, hconn, hack, hseq⟩]
    rfl
  · rw [if_neg (by rw [hf]; exact fun hx => absurd hx.1 (by decide)),
      if_pos ⟨hf, hconn, hseq, hack⟩]
    rfl

/-- In HANDSHAKE the server makes nothing of a packet that is neither ACK nor data. -/
theorem step_ignores (he : e.Smooth config s.lastProgressMs) (hs : s.state = .handshake)
    (hpc : s.pc.Waiting)
    (hears : ∀ src h payload, recvPacket e s.clientAddr = (src, .ok (h, payload)) →
      h.flags ≠ flagAck ∧ h.flags ≠ flagData) : (s.step config e).1.state = .handshake := by
  rcases hpc with hpc | ⟨n, hpc⟩
  · rw [step_turn he (by rw [hs]; decide) hpc]
    exact hs
  · have hexp : s.expired config e = false := he.patient
    rw [step_select hpc, resume_handshake hs, handshakeReady, ready]
    simp only [hexp, if_neg he.ready, Bool.false_eq_true, if_false]
    split_ifs
    · exact hs
    · rw [receive]
      cases hr : (recvPacket e s.clientAddr).2 with
      | error code => exact hs
      | ok received =>
        obtain ⟨hack, hdata⟩ := hears _ received.1 received.2 (by rw [← hr])
        dsimp only
        rw [handshakePacket, reply_smooth he]
        split_ifs with h1 h2 h3
        · rfl
        · exact absurd h2.1 hack
        · exact absurd h3.1 hdata
        · rfl

/-- The server with the number it acknowledges after a data packet. -/
def afterData (s : Server Addr) (src : Addr) (h : RDTHeader) : Server Addr :=
  { s with
    clientAddr := src
    connection := { s.connection with
      ackNum := if h.seqNum = s.connection.ackNum then s.connection.ackNum + 1
        else s.connection.ackNum } }

theorem afterData_expected (hnext : h.seqNum = s.connection.ackNum) :
    (s.afterData src h).connection =
      { s.connection with ackNum := s.connection.ackNum + 1 } := by
  rw [afterData, if_pos hnext]

theorem afterData_other (hnext : h.seqNum ≠ s.connection.ackNum) :
    (s.afterData src h).connection = s.connection := by
  rw [afterData, if_neg hnext]

/-- Every data packet of the connection is acknowledged. -/
theorem step_acksData {t : UInt64} (he : e.Smooth config t) (hs : s.state = .established)
    (hpc : s.pc = .select ms) (hsel : 0 < e.selectResult)
    (hr : recvPacket e s.clientAddr = (src, .ok (h, payload)))
    (hdata : h.flags = flagData ∧ h.connId = s.connection.connId) :
    (s.step config e).1.state = .established ∧
    (s.step config e).2 = [(s.afterData src h).control e flagAck] := by
  have hfin : ¬ (h.flags = flagFin ∧ h.connId = s.connection.connId ∧
      h.seqNum = s.connection.ackNum) := by
    intro htaken
    obtain ⟨hf, _⟩ := htaken
    rw [hdata.1] at hf
    exact absurd hf (by decide)
  have hwritten : written e payload = payload.length := by rw [written, he.fwrite]
  rw [step_select hpc, resume_established hs, establishedReady, ready_smooth he hsel hr,
    establishedPacket, if_neg hfin, if_pos hdata, dataPacket]
  by_cases hnext : h.seqNum = s.connection.ackNum
  · rw [if_pos hnext]
    simp only [hwritten, ne_eq, not_true_eq_false, if_false, reply_smooth he, afterData,
      if_pos hnext]
    exact ⟨rfl, rfl⟩
  · rw [if_neg hnext]
    simp only [reply_smooth he, afterData, if_neg hnext]
    refine ⟨rfl, ?_⟩
    split_ifs
    · rfl
    · rfl

/-- The server with the number after the FIN. -/
def afterFin (s : Server Addr) (src : Addr) (h : RDTHeader) : Server Addr :=
  { s with
    clientAddr := src
    connection := { s.connection with ackNum := h.seqNum + 1 } }

theorem step_takesFin {t : UInt64} (he : e.Smooth config t) (hs : s.state = .established)
    (hpc : s.pc = .select ms) (hsel : 0 < e.selectResult)
    (hr : recvPacket e s.clientAddr = (src, .ok (h, payload)))
    (hfin : h.flags = flagFin ∧ h.connId = s.connection.connId ∧
      h.seqNum = s.connection.ackNum) :
    s.step config e = (((s.afterFin src h).marked e).goto .lastAck,
      [(s.afterFin src h).control e (flagFin ||| flagAck)]) := by
  rw [step_select hpc, resume_established hs, establishedReady, ready_smooth he hsel hr,
    establishedPacket, if_pos hfin]
  exact reply_smooth he _ _

theorem step_takesFinalAck {t : UInt64} (he : e.Smooth config t) (hs : s.state = .lastAck)
    (hpc : s.pc = .select ms) (hsel : 0 < e.selectResult)
    (hr : recvPacket e s.clientAddr = (src, .ok (h, payload))) (htake : s.TakesFinalAck h) :
    s.step config e = (({ s with clientAddr := src }.marked e).goto .done, []) := by
  have hfin : ¬ (h.flags = flagFin ∧ h.connId = s.connection.connId ∧
      h.seqNum + 1 = s.connection.ackNum) := by
    intro htaken
    obtain ⟨hf, _⟩ := htaken
    rw [htake.1] at hf
    exact absurd hf (by decide)
  rw [TakesFinalAck] at htake
  rw [step_select hpc, resume_lastAck hs, lastAckReady, if_neg (waitForPacket_ne_zero hsel),
    if_neg he.ready, receive_smooth hr, lastAckPacket, if_neg hfin, if_pos htake]

end Hears

/-- The server repeats its FIN+ACK when nothing arrives. -/
theorem step_repeat (he : e.Smooth config s.lastProgressMs) (hs : s.state = .lastAck) {ms : Nat}
    (hpc : s.pc = .select ms) (hsel : e.selectResult = 0) :
    s.step config e = (s.goto .lastAck, [s.control e (flagFin ||| flagAck)]) := by
  have hexp : s.expired config e = false := he.patient
  have hsent : (s.control e (flagFin ||| flagAck)).sent = true := he.sendto _
  rw [step_select hpc, resume_lastAck hs, lastAckReady,
    if_pos ((waitForPacket_eq_zero _).mpr hsel), hexp]
  simp only [Bool.false_eq_true, if_false, if_pos hsent]

end Server

namespace Client

variable {c : Client Addr}

/-- The client as it waits in `select`. -/
def selecting (c : Client Addr) (ms : Nat) : Client Addr := { c with pc := .select ms }

theorem selecting_self {ms : Nat} (h : c.pc = .select ms) : c.selecting ms = c := by
  rw [selecting, ← h]

theorem step_opens (he : e.Smooth config c.lastProgressMs) (hs : c.state = .closed)
    (hpc : c.pc = .fsm) : c.step config e =
      ({ c with connection := ⟨UInt32.ofNat (e.rand 0 % moduler), 0, 0⟩ }.goto .synSent,
        [{ c with
          connection := ⟨UInt32.ofNat (e.rand 0 % moduler), 0, 0⟩ }.control e flagSyn]) := by
  have hsent : ({ c with connection := ⟨UInt32.ofNat (e.rand 0 % moduler), 0, 0⟩ }.control e
      flagSyn).sent = true := he.sendto _
  rw [step_fsm hpc, runClient_closed hs, he.running, handleClosed]
  simp only [Bool.false_eq_true, if_false, if_pos hsent]

theorem step_synWait (he : e.Smooth config c.lastProgressMs) (hs : c.state = .synSent)
    (hpc : c.pc = .fsm) :
    c.step config e = (c.selecting retransmitIntervalMs, []) := by
  have hexp : c.expired config e = false := he.patient
  rw [step_fsm hpc, runClient_synSent hs, he.running, handleSynSent, hexp]
  rfl

theorem step_synRepeat (he : e.Smooth config c.lastProgressMs) (hs : c.state = .synSent)
    {ms : Nat} (hpc : c.pc = .select ms) (hsel : e.selectResult = 0) :
    c.step config e = (c.goto .synSent, [c.control e flagSyn]) := by
  have hexp : c.expired config e = false := he.patient
  have hsent : (c.control e flagSyn).sent = true := he.sendto _
  rw [step_select hpc, resume_synSent hs, synSentReady,
    if_pos ((waitForPacket_eq_zero _).mpr hsel), hexp]
  simp only [Bool.false_eq_true, if_false, if_pos hsent]

theorem receive_smooth {handle : Client Addr → RDTHeader → Client Addr × List (Send Addr)}
    {src : Addr} {h : RDTHeader} {payload : List UInt8}
    (hr : recvPacket e c.serverAddr = (src, .ok (h, payload))) :
    c.receive e handle = handle { c with serverAddr := src } h := by
  rw [receive, hr]

/-- The client with the numbers of the SYN+ACK. -/
def afterSynAck (c : Client Addr) (e : Env Addr) (src : Addr) (h : RDTHeader) : Client Addr :=
  { c with
    serverAddr := src
    connection := ⟨c.connection.seqNum + 1, h.seqNum + 1, h.connId⟩
    lastProgressMs := markProgress c.lastProgressMs e.markMs }

theorem step_accepts {t : UInt64} (he : e.Smooth config t) (hs : c.state = .synSent) {ms : Nat}
    (hpc : c.pc = .select ms) (hsel : 0 < e.selectResult) {src : Addr} {h : RDTHeader}
    {payload : List UInt8} (hr : recvPacket e c.serverAddr = (src, .ok (h, payload)))
    (htake : c.TakesSynAck h) : c.step config e = ((c.afterSynAck e src h).goto .established,
      [(c.afterSynAck e src h).control e flagAck]) := by
  have hsent : ((c.afterSynAck e src h).control e flagAck).sent = true := he.sendto _
  rw [TakesSynAck] at htake
  rw [step_select hpc, resume_synSent hs, synSentReady, if_neg (waitForPacket_ne_zero hsel),
    if_neg he.ready, receive_smooth hr, synSentPacket, if_pos htake]
  exact if_pos hsent

theorem step_enters (he : e.Smooth config c.lastProgressMs) (hs : c.state = .established)
    (hpc : c.pc = .fsm) : c.step config e = ({ c with
      pc := .transfer
      xfer := some ⟨.start c.connection.seqNum, false, 0, 0⟩ }, []) := by
  have hexp : c.expired config e = false := he.patient
  rw [step_fsm hpc, runClient_established hs, he.running, handleEstablished, hexp]
  rfl

/-- A round of the transfer loop that is not the last one. -/
theorem step_round {x : Transfer} (he : e.Smooth config c.lastProgressMs) (hpc : c.pc = .transfer)
    (hx : c.xfer = some x) (hloop : x.eofReached = false ∨ x.gbn.base < x.gbn.nextseqnum) :
    c.step config e =
      if x.eofReached = false then
        let filled := gbnFillAndSendWindow e c.serverAddr c.connection x.gbn c.file
        let c := { c with file := filled.file }
        let x := { x with gbn := filled.state }
        if filled.result < 0 then ({ c with xfer := some x }.fail exIoErr, filled.sends)
        else
          let next := c.transferWait { x with eofReached := decide (filled.result > 0) } e
          (next.1, filled.sends ++ next.2)
      else c.transferWait x e := by
  have hexp : c.expired config e = false := he.patient
  rw [step_transfer hpc hx, transferRound, if_neg (not_not.mpr hloop), hexp]
  rfl

theorem step_times {x : Transfer} (hs : c.state = .established) (hx : c.xfer = some x) {ms : Nat}
    (hpc : c.pc = .select ms) (hsel : e.selectResult = 0) :
    c.step config e = ({ c with pc := .transfer }, []) := by
  rw [step_select hpc, resume_established hs hx, transferReady,
    if_pos ((waitForPacket_eq_zero _).mpr hsel)]

/-- An acknowledgement is handed to the window. -/
theorem step_hearsAck {t : UInt64} {x : Transfer} (he : e.Smooth config t)
    (hs : c.state = .established) (hx : c.xfer = some x) {ms : Nat} (hpc : c.pc = .select ms)
    (hsel : 0 < e.selectResult) {src : Addr} {h : RDTHeader} {payload : List UInt8}
    (hr : recvPacket e c.serverAddr = (src, .ok (h, payload)))
    (hack : h.flags = flagAck ∧ h.connId = c.connection.connId) : c.step config e =
      { c with serverAddr := src, pc := .transfer }.transferAck x e h.ackNum := by
  rw [step_select hpc, resume_established hs hx, transferReady,
    if_neg (waitForPacket_ne_zero hsel), if_neg he.ready]
  simp only [hr, if_pos hack]

theorem step_sendsFin (he : e.Smooth config c.lastProgressMs) (hs : c.state = .finWait)
    (hpc : c.pc = .fsm) : c.step config e =
      (c.selecting retransmitIntervalMs, [c.control e flagFin]) := by
  have hexp : c.expired config e = false := he.patient
  have hsent : (c.control e flagFin).sent = true := he.sendto _
  rw [step_fsm hpc, runClient_finWait hs, he.running, handleFinWait, hexp]
  simp only [Bool.false_eq_true, if_false, if_pos hsent]
  rfl

theorem step_finAgain (he : e.Smooth config c.lastProgressMs) (hs : c.state = .finWait)
    {ms : Nat} (hpc : c.pc = .select ms) (hsel : e.selectResult = 0) :
    c.step config e = (c.goto .finWait, []) := by
  have hexp : c.expired config e = false := he.patient
  rw [step_select hpc, resume_finWait hs, finWaitReady,
    if_pos ((waitForPacket_eq_zero _).mpr hsel), hexp]
  rfl

/-- The client with the numbers after the FIN+ACK. -/
def afterFinAck (c : Client Addr) (e : Env Addr) (src : Addr) (h : RDTHeader) : Client Addr :=
  { c with
    serverAddr := src
    connection := { c.connection with
      ackNum := h.seqNum + 1
      seqNum := c.connection.seqNum + 1 }
    lastProgressMs := markProgress c.lastProgressMs e.markMs }

theorem step_finishes {t : UInt64} (he : e.Smooth config t) (hs : c.state = .finWait) {ms : Nat}
    (hpc : c.pc = .select ms) (hsel : 0 < e.selectResult) {src : Addr} {h : RDTHeader}
    {payload : List UInt8} (hr : recvPacket e c.serverAddr = (src, .ok (h, payload)))
    (htake : h.flags = flagFin ||| flagAck ∧ h.connId = c.connection.connId ∧
      h.ackNum = c.connection.seqNum + 1) :
    c.step config e = ((c.afterFinAck e src h).goto .timeWait,
      [(c.afterFinAck e src h).control e flagAck]) := by
  have hsent : ((c.afterFinAck e src h).control e flagAck).sent = true := he.sendto _
  rw [step_select hpc, resume_finWait hs, finWaitReady, if_neg (waitForPacket_ne_zero hsel),
    if_neg he.ready, receive_smooth hr, finWaitPacket, if_pos htake]
  exact if_pos hsent

theorem step_timeWait (he : e.Smooth config c.lastProgressMs) (hs : c.state = .timeWait)
    (hpc : c.pc = .fsm) :
    c.step config e = (c.selecting timeWaitDurationMs, []) := by
  rw [step_fsm hpc, runClient_timeWait hs, he.running]
  rfl

theorem step_leaves (hs : c.state = .timeWait) {ms : Nat} (hpc : c.pc = .select ms)
    (hsel : e.selectResult = 0) : c.step config e = (c.goto .done, []) := by
  rw [step_select hpc, resume_timeWait hs, timeWaitReady,
    if_pos ((waitForPacket_eq_zero _).mpr hsel)]

/-- A repeated FIN+ACK is acknowledged again. -/
theorem step_acksAgain {t : UInt64} (he : e.Smooth config t) (hs : c.state = .timeWait)
    {ms : Nat} (hpc : c.pc = .select ms) (hsel : 0 < e.selectResult) {src : Addr}
    {h : RDTHeader} {payload : List UInt8}
    (hr : recvPacket e c.serverAddr = (src, .ok (h, payload)))
    (htake : h.flags = flagFin ||| flagAck ∧ h.connId = c.connection.connId ∧
      h.ackNum = c.connection.seqNum) :
    c.step config e = ({ c with
        serverAddr := src
        lastProgressMs := markProgress c.lastProgressMs e.markMs }.goto .timeWait,
      [{ c with serverAddr := src }.control e flagAck]) := by
  have hsent : ({ c with serverAddr := src }.control e flagAck).sent = true := he.sendto _
  rw [step_select hpc, resume_timeWait hs, timeWaitReady, if_neg (waitForPacket_ne_zero hsel),
    if_neg he.ready, receive_smooth hr, timeWaitPacket, if_pos htake]
  exact if_pos hsent

end Client

end ReliableUdp
