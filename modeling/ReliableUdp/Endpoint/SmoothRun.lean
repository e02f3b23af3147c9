import ReliableUdp.Endpoint.Smooth
import ReliableUdp.Endpoint.StopRequest
import ReliableUdp.Endpoint.ServerWatchdog

namespace ReliableUdp

variable {Addr : Type} {config : AppConfig} {e : Env Addr}

/-- Where nothing fails a wait without a datagram has timed out. -/
theorem Env.Smooth.idle {t : UInt64} (he : e.Smooth config t) (hnone : e.recvfrom = none) :
    e.selectResult = 0 := by
  have hready := he.ready
  rw [waitForPacket_neg] at hready
  have hpos : ¬ 0 < e.selectResult := by
    intro hsel
    have hsome := he.received hsel
    rw [hnone] at hsome
    exact Bool.noConfusion hsome
  omega

/-- HANDSHAKE is behind the server. -/
def ServerState.PastHandshake (state : ServerState) : Prop := state ≠ .listen ∧ state ≠ .handshake

theorem ServerState.past_established : established.PastHandshake := ⟨by decide, by decide⟩

theorem ServerState.past_lastAck : lastAck.PastHandshake := ⟨by decide, by decide⟩

theorem ServerState.past_done : done.PastHandshake := ⟨by decide, by decide⟩

namespace Server

variable {s : Server Addr}

theorem reply_past {s' next : Server Addr} {flags : UInt8} (h : next.state.PastHandshake) :
    (s'.reply e flags next).1.state.PastHandshake := by
  rcases reply_state s' next e flags with hdone | hnext
  · rw [hdone]
    exact ServerState.past_done
  · rw [hnext]
    exact h

theorem establishedPacket_past (s : Server Addr) (h : RDTHeader) (payload : List UInt8) :
    (s.establishedPacket e h payload).1.state.PastHandshake := by
  rw [establishedPacket, dataPacket]
  dsimp only
  split_ifs
  · exact reply_past ServerState.past_lastAck
  · exact ServerState.past_done
  · exact reply_past ServerState.past_established
  · exact reply_past ServerState.past_established
  · exact reply_past ServerState.past_established
  · exact ServerState.past_established

/-- The server never goes back into its handshake. -/
theorem past_step (h : s.state.PastHandshake) (config : AppConfig) (e : Env Addr) :
    (s.step config e).1.state.PastHandshake := by
  by_cases hs : s.state = .established
  · cases hpc : s.pc with
    | returned code =>
      rw [step_returned hpc]
      exact h
    | fsm =>
      rw [step_fsm hpc, runServer_running (by rw [hs]; decide), enter]
      split_ifs
      · exact ServerState.past_done
      · exact ServerState.past_done
      · exact h
    | select ms =>
      rw [step_select hpc, resume_established hs, establishedReady, ready]
      split_ifs
      · exact ServerState.past_done
      · exact h
      · exact ServerState.past_done
      · rw [receive]
        cases (recvPacket e s.clientAddr).2 with
        | error code => exact h
        | ok received => exact establishedPacket_past _ _ _
  · have hpast : s.Past := ⟨h.1, fun hopen => hopen.elim h.2 hs⟩
    have hnext : (s.step config e).1.Past := hpast.step config e
    exact ⟨hnext.1, fun hst => hnext.2 (Or.inl hst)⟩

/-- Only ESTABLISHED has ACKs to send. -/
theorem step_sends_ack (hs : s.state ≠ .established) :
    ∀ o ∈ (s.step config e).2, ∃ seq ack connId flags, flags ≠ flagAck ∧
      o.data = encode seq ack connId flags [] := by
  have hmove : ServerMove s e (s.step config e) := step_move
  cases hmove with
  | quiet _ _ _ _ _ hsends => exact fun o ho => (hsends o ho).2
  | acks hst _ _ _ _ _ => exact absurd hst hs
  | breaks hst _ _ _ _ _ hsends => exact absurd hst hs

/-- The FIN comes once more, and the FIN+ACK too. -/
theorem step_answersFin {t : UInt64} (he : e.Smooth config t) (hs : s.state = .lastAck) {ms : Nat}
    (hpc : s.pc = .select ms) (hsel : 0 < e.selectResult) {src : Addr} {h : RDTHeader}
    {payload : List UInt8} (hr : recvPacket e s.clientAddr = (src, .ok (h, payload)))
    (hfin : h.flags = flagFin ∧ h.connId = s.connection.connId ∧
      h.seqNum + 1 = s.connection.ackNum) :
    s.step config e = ({ s with clientAddr := src }.goto .lastAck,
      [{ s with clientAddr := src }.control e (flagFin ||| flagAck)]) := by
  rw [step_select hpc, resume_lastAck hs, lastAckReady, if_neg (waitForPacket_ne_zero hsel),
    if_neg he.ready, receive_smooth hr, lastAckPacket, if_pos hfin]
  exact reply_smooth he _ _

/-- The packet that ends the server is the final ACK. -/
theorem lastAckPacket_goesOn {t : UInt64} (he : e.Smooth config t) {h : RDTHeader}
    (htake : ¬ s.TakesFinalAck h) : (s.lastAckPacket e h).1.state = .lastAck := by
  rw [TakesFinalAck] at htake
  rw [lastAckPacket, if_neg htake, reply_smooth he]
  split_ifs <;> rfl

theorem establishedPacket_goesOn {t : UInt64} (he : e.Smooth config t) (h : RDTHeader)
    (payload : List UInt8) : (s.establishedPacket e h payload).1.state ≠ .done := by
  have hwritten : written e payload = payload.length := by rw [written, he.fwrite]
  rw [establishedPacket, dataPacket]
  simp only [hwritten, ne_eq, not_true_eq_false, if_false, reply_smooth he]
  split_ifs <;> simp [goto]

theorem ready_goesOn (he : e.Smooth config s.lastProgressMs) (hs : s.state ≠ .done)
    {handle : Server Addr → RDTHeader → List UInt8 → Server Addr × List (Send Addr)}
    (hh : ∀ a h payload, (handle { s with clientAddr := a } h payload).1.state ≠ .done) :
    (s.ready config e handle).1.state ≠ .done := by
  have hexp : s.expired config e = false := he.patient
  rw [ready, if_neg he.ready, hexp]
  split_ifs with h0 hno
  · exact absurd hno (by decide)
  · exact hs
  · rw [receive]
    cases (recvPacket e s.clientAddr).2 with
    | error code => exact hs
    | ok received => exact hh _ _ _

/-- While nothing fails only the final ACK ends the server. -/
theorem smooth_goesOn (he : e.Smooth config s.lastProgressMs) (hs : s.state ≠ .done)
    (hpc : s.pc.Waiting) (hlast : s.state = .lastAck → ∀ src h payload,
      recvPacket e s.clientAddr = (src, .ok (h, payload)) → ¬ s.TakesFinalAck h) :
    (s.step config e).1.state ≠ .done := by
  rcases hpc with hpc | ⟨ms, hpc⟩
  · rw [step_turn he hs hpc]
    exact hs
  · rw [step_select hpc]
    cases hst : s.state with
    | done => exact absurd hst hs
    | listen =>
      rw [resume_listen hst]
      apply ready_goesOn he hs
      intro a h payload
      rw [listenPacket, reply_smooth he]
      split_ifs <;> simp [goto]
    | handshake =>
      rw [resume_handshake hst]
      apply ready_goesOn he hs
      intro a h payload
      rw [handshakePacket, reply_smooth he]
      split_ifs <;> simp [goto]
    | established =>
      rw [resume_established hst]
      exact ready_goesOn he hs (fun a h payload => establishedPacket_goesOn he h payload)
    | lastAck =>
      by_cases hsel : e.selectResult = 0
      · have hstep := step_repeat he hst hpc hsel
        rw [step_select hpc] at hstep
        rw [hstep]
        simp [goto]
      · rw [resume_lastAck hst, lastAckReady, if_neg (by simpa using hsel), if_neg he.ready,
          receive]
        cases hr : (recvPacket e s.clientAddr).2 with
        | error code => exact hs
        | ok received =>
          have hno := hlast hst _ received.1 received.2 (by rw [← hr])
          have hstay := lastAckPacket_goesOn he
            (s := { s with clientAddr := (recvPacket e s.clientAddr).1 }) hno
          exact fun hdone => absurd (hstay.symm.trans hdone) (by decide)

end Server

namespace Client

variable {c : Client Addr}

theorem receive_goesOn (hs : c.state ≠ .done)
    {handle : Client Addr → RDTHeader → Client Addr × List (Send Addr)}
    (hh : ∀ a h, (handle { c with serverAddr := a } h).1.state ≠ .done) :
    (c.receive e handle).1.state ≠ .done := by
  rw [receive]
  cases (recvPacket e c.serverAddr).2 with
  | error code => exact hs
  | ok received => exact hh _ _

theorem transferAck_state {x : Transfer} (ack : UInt32) :
    (c.transferAck x e ack).1.state = c.state := by
  rw [transferAck]
  dsimp only
  split_ifs <;> rfl

/-- While nothing fails only the rounds of the transfer loop, which read the input, and TIME_WAIT
can end the client. -/
theorem smooth_goesOn (he : e.Smooth config c.lastProgressMs) (hs : c.state ≠ .done)
    (hw : c.state ≠ .timeWait) (hpc : c.pc.Waiting) : (c.step config e).1.state ≠ .done := by
  have hexp : c.expired config e = false := he.patient
  rcases hpc with hpc | ⟨ms, hpc⟩
  · cases hst : c.state with
    | done => exact absurd hst hs
    | timeWait => exact absurd hst hw
    | closed =>
      rw [step_opens he hst hpc]
      simp [goto]
    | synSent =>
      rw [step_synWait he hst hpc]
      exact hs
    | established =>
      rw [step_enters he hst hpc]
      exact hs
    | finWait =>
      rw [step_sendsFin he hst hpc]
      exact hs
  · rw [step_select hpc]
    cases hst : c.state with
    | done => exact absurd hst hs
    | timeWait => exact absurd hst hw
    | closed =>
      simp only [resume, hst]
      simp
    | synSent =>
      have hsent (d : Client Addr) (flags : UInt8) : (d.control e flags).sent = true := he.sendto _
      rw [resume_synSent hst, synSentReady, if_neg he.ready, hexp]
      simp only [Bool.false_eq_true, if_false, hsent, if_true]
      split_ifs
      · simp [goto]
      · apply receive_goesOn hs
        intro a h
        rw [synSentPacket]
        simp only [hsent, if_true]
        split_ifs <;> simp [goto]
    | established =>
      cases hx : c.xfer with
      | none =>
        simp only [resume, hst, hx]
        simp
      | some x =>
        rw [resume_established hst hx, transferReady, if_neg he.ready]
        split_ifs
        · exact hs
        · dsimp only
          cases (recvPacket e c.serverAddr).2 with
          | error code => exact hs
          | ok received =>
            dsimp only
            split_ifs
            · rw [transferAck_state]
              exact hs
            · exact hs
    | finWait =>
      have hsent (d : Client Addr) (flags : UInt8) : (d.control e flags).sent = true := he.sendto _
      rw [resume_finWait hst, finWaitReady, if_neg he.ready, hexp]
      split_ifs with h0 hno
      · exact absurd hno (by decide)
      · simp [goto]
      · apply receive_goesOn hs
        intro a h
        rw [finWaitPacket]
        simp only [hsent, if_true]
        split_ifs <;> simp [goto]

end Client

end ReliableUdp
