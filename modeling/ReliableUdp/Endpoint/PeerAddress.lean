import ReliableUdp.Endpoint.Client
import ReliableUdp.Endpoint.Server
import ReliableUdp.Framework.Machine

namespace ReliableUdp

variable {Addr : Type}

theorem retransmitLoop_dst (e : Env Addr) (addr : Addr) (state : GBNSenderState) (n : Nat)
    (seq : UInt32) {o : Send Addr} (h : o ∈ retransmitLoop e addr state n seq) : o.dst = addr := by
  induction n generalizing seq with
  | zero => exact absurd h List.not_mem_nil
  | succ n ih =>
    simp only [retransmitLoop] at h
    split_ifs at h
    · rcases List.mem_cons.mp h with rfl | h
      · rfl
      · exact ih _ h
    · exact ih _ h

theorem gbnRetransmitWindow_dst (e : Env Addr) (addr : Addr) (state : GBNSenderState)
    {o : Send Addr} (h : o ∈ (gbnRetransmitWindow e addr state).2) : o.dst = addr := by
  unfold gbnRetransmitWindow at h
  split_ifs at h
  · exact absurd h List.not_mem_nil
  · exact retransmitLoop_dst e addr state _ _ h

theorem fillLoop_dst (e : Env Addr) (addr : Addr) (connection : ConnectionState) (n : Nat)
    (state : GBNSenderState) (file : InputFile) {o : Send Addr}
    (h : o ∈ (fillLoop e addr connection n state file).sends) : o.dst = addr := by
  induction n generalizing state file with
  | zero => exact absurd h List.not_mem_nil
  | succ n ih =>
    rw [fillLoop] at h
    split at h
    · exact absurd h List.not_mem_nil
    · exact absurd h List.not_mem_nil
    · rcases List.mem_cons.mp h with rfl | h
      · rfl
      · exact ih _ _ h

/-- The address `recv_packet` leaves behind. -/
def heardFrom (e : Env Addr) (addr : Addr) : Addr :=
  match e.recvfrom with
  | none => addr
  | some (src, _) => src

theorem recvPacket_fst (e : Env Addr) (addr : Addr) : (recvPacket e addr).1 = heardFrom e addr := by
  rw [recvPacket, heardFrom]
  cases e.recvfrom with
  | none => rfl
  | some d => rfl

theorem getD_heard (e : Env Addr) (addr : Addr) (receives : Bool) :
    (if receives then e.recvfrom.map Prod.fst else none).getD addr =
      if receives then heardFrom e addr else addr := by
  rw [heardFrom]
  cases receives with
  | false => rfl
  | true =>
    cases e.recvfrom with
    | none => rfl
    | some d => rfl

section GoesTo

variable {σ : Type} {stored : σ → Addr} {addr : Addr}

/-- The packets of an activation go to `addr`, and this is the address it leaves stored. -/
def GoesTo (stored : σ → Addr) (addr : Addr) (next : σ × List (Send Addr)) : Prop :=
  stored next.1 = addr ∧ ∀ o ∈ next.2, o.dst = addr

theorem GoesTo.quiet {next : σ} (h : stored next = addr) : GoesTo stored addr (next, []) :=
  ⟨h, fun _ ho => absurd ho List.not_mem_nil⟩

theorem GoesTo.one {next : σ} {o : Send Addr} (h : stored next = addr) (hdst : o.dst = addr) :
    GoesTo stored addr (next, [o]) := by
  refine ⟨h, fun o' ho => ?_⟩
  rw [List.mem_singleton.mp ho]
  exact hdst

/-- The three ways on from a `select`. -/
theorem GoesTo.select {addr' : Addr} {r : Int} {x y z : σ × List (Send Addr)}
    (hx : GoesTo stored addr x) (hy : GoesTo stored addr y) (hz : GoesTo stored addr' z) :
    GoesTo stored (if r > 0 then addr' else addr)
      (if waitForPacket r = 0 then x else if waitForPacket r < 0 then y else z) := by
  by_cases h0 : waitForPacket r = 0
  · have hr : ¬ r > 0 := by rw [waitForPacket_eq_zero] at h0; omega
    rwa [if_pos h0, if_neg hr]
  · by_cases hneg : waitForPacket r < 0
    · have hr : ¬ r > 0 := by rw [waitForPacket_neg] at hneg; omega
      rwa [if_neg h0, if_pos hneg, if_neg hr]
    · rwa [if_neg h0, if_neg hneg, if_pos (pos_of_waitForPacket h0 hneg)]

end GoesTo

namespace Client

/-- This activation of the client calls `recv_packet`. -/
def receives (c : Client Addr) (e : Env Addr) : Bool :=
  match c.pc, c.state, c.xfer with
  | .select _, .synSent, _ => decide (e.selectResult > 0)
  | .select _, .established, some _ => decide (e.selectResult > 0)
  | .select _, .finWait, _ => decide (e.selectResult > 0)
  | .select _, .timeWait, _ => decide (e.selectResult > 0)
  | _, _, _ => false

/-- The source of the datagram this activation reads. -/
def hears (c : Client Addr) (e : Env Addr) : Option Addr :=
  if c.receives e then e.recvfrom.map Prod.fst else none

variable {config : AppConfig} {c : Client Addr} {e : Env Addr} {x : Transfer}

/-- The transfer loop reads when its `select` reports a packet. -/
theorem receives_transfer {ms : Nat} (hpc : c.pc = .select ms) (hs : c.state = .established)
    (hx : c.xfer = some x) (e : Env Addr) : c.receives e = decide (e.selectResult > 0) := by
  simp only [receives, hpc, hs, hx]

theorem runClient_goesTo : GoesTo serverAddr c.serverAddr (c.runClient config e) := by
  cases hs : c.state with
  | done => rw [runClient_done hs]; exact .quiet rfl
  | closed =>
    rw [runClient_closed hs, handleClosed]
    split_ifs
    · exact .quiet rfl
    · exact .one rfl rfl
    · exact .one rfl rfl
  | synSent =>
    rw [runClient_synSent hs, handleSynSent]
    split_ifs <;> exact .quiet rfl
  | established =>
    rw [runClient_established hs, handleEstablished]
    split_ifs <;> exact .quiet rfl
  | finWait =>
    rw [runClient_finWait hs, handleFinWait]
    dsimp only
    split_ifs
    · exact .quiet rfl
    · exact .quiet rfl
    · exact .one rfl rfl
    · exact .one rfl rfl
  | timeWait =>
    rw [runClient_timeWait hs]
    split_ifs <;> exact .quiet rfl

theorem transferWait_goesTo : GoesTo serverAddr c.serverAddr (c.transferWait x e) := by
  rw [transferWait]
  split_ifs
  · exact .quiet rfl
  · cases c.transferTimer_move x e with
    | empty hnext =>
      rw [hnext]
      exact .quiet rfl
    | resends timer hnext =>
      rw [hnext]
      exact ⟨rfl, fun _ h => gbnRetransmitWindow_dst e c.serverAddr _ h⟩
    | waits timer ms hnext =>
      rw [hnext]
      exact .quiet rfl

theorem transferRound_goesTo : GoesTo serverAddr c.serverAddr (c.transferRound config x e) := by
  rw [transferRound]
  have hfill {o : Send Addr}
      (h : o ∈ (gbnFillAndSendWindow e c.serverAddr c.connection x.gbn c.file).sends) :
      o.dst = c.serverAddr := fillLoop_dst e c.serverAddr c.connection _ _ _ h
  by_cases h1 : ¬ (x.eofReached = false ∨ x.gbn.base < x.gbn.nextseqnum)
  · rw [if_pos h1]
    exact .quiet rfl
  · rw [if_neg h1]
    by_cases h2 : c.expired config e = true
    · rw [if_pos h2]
      exact .quiet rfl
    · rw [if_neg h2]
      by_cases h3 : x.eofReached = false
      · rw [if_pos h3]
        by_cases h4 : (gbnFillAndSendWindow e c.serverAddr c.connection x.gbn c.file).result < 0
        · simp only [if_pos h4]
          exact ⟨rfl, fun _ h => hfill h⟩
        · simp only [if_neg h4]
          have hwait := transferWait_goesTo (c := { c with
            file := (gbnFillAndSendWindow e c.serverAddr c.connection x.gbn c.file).file })
            (x := { x with
              gbn := (gbnFillAndSendWindow e c.serverAddr c.connection x.gbn c.file).state
              eofReached := decide
                ((gbnFillAndSendWindow e c.serverAddr c.connection x.gbn c.file).result > 0) })
            (e := e)
          refine ⟨hwait.1, fun o h => ?_⟩
          rcases List.mem_append.mp h with h | h
          · exact hfill h
          · exact hwait.2 o h
      · rw [if_neg h3]
        exact transferWait_goesTo

theorem transferAck_goesTo (ack : UInt32) :
    GoesTo serverAddr c.serverAddr (c.transferAck x e ack) := by
  rw [transferAck]
  dsimp only
  by_cases h : (gbnProcessAck x.gbn ack).2 = true
  · rw [if_pos h]
    exact .quiet rfl
  · rw [if_neg h]
    split_ifs
    · exact ⟨rfl, fun _ h => gbnRetransmitWindow_dst e c.serverAddr _ h⟩
    · exact .quiet rfl
    · exact .quiet rfl

theorem receive_goesTo {handle : Client Addr → RDTHeader → Client Addr × List (Send Addr)}
    (hh : ∀ c h, GoesTo serverAddr c.serverAddr (handle c h)) :
    GoesTo serverAddr (heardFrom e c.serverAddr) (c.receive e handle) := by
  rw [receive, recvPacket_fst]
  cases (recvPacket e c.serverAddr).2 with
  | error code => exact .quiet rfl
  | ok received => exact hh { c with serverAddr := heardFrom e c.serverAddr } received.1

theorem synSentPacket_goesTo (h : RDTHeader) :
    GoesTo serverAddr c.serverAddr (c.synSentPacket e h) := by
  rw [synSentPacket]
  dsimp only
  split_ifs
  · exact .one rfl rfl
  · exact .one rfl rfl
  · exact .quiet rfl

theorem finWaitPacket_goesTo (h : RDTHeader) :
    GoesTo serverAddr c.serverAddr (c.finWaitPacket e h) := by
  rw [finWaitPacket]
  dsimp only
  split_ifs
  · exact .one rfl rfl
  · exact .one rfl rfl
  · exact .quiet rfl

theorem timeWaitPacket_goesTo (h : RDTHeader) :
    GoesTo serverAddr c.serverAddr (c.timeWaitPacket e h) := by
  rw [timeWaitPacket]
  dsimp only
  split_ifs
  · exact .one rfl rfl
  · exact .one rfl rfl
  · exact .quiet rfl

theorem transferReady_goesTo :
    GoesTo serverAddr (if e.selectResult > 0 then heardFrom e c.serverAddr else c.serverAddr)
      (c.transferReady x e) := by
  refine .select (.quiet rfl) (.quiet rfl) ?_
  dsimp only
  rw [recvPacket_fst]
  cases (recvPacket e c.serverAddr).2 with
  | error code => exact .quiet rfl
  | ok received =>
    dsimp only
    split_ifs
    · exact transferAck_goesTo (c := { c with
        serverAddr := heardFrom e c.serverAddr, pc := .transfer }) received.1.ackNum
    · exact .quiet rfl

theorem synSentReady_goesTo :
    GoesTo serverAddr (if e.selectResult > 0 then heardFrom e c.serverAddr else c.serverAddr)
      (c.synSentReady config e) := by
  refine .select ?_ (.quiet rfl) (receive_goesTo (fun _ h => synSentPacket_goesTo h))
  dsimp only
  split_ifs
  · exact .quiet rfl
  · exact .one rfl rfl
  · exact .one rfl rfl

theorem finWaitReady_goesTo :
    GoesTo serverAddr (if e.selectResult > 0 then heardFrom e c.serverAddr else c.serverAddr)
      (c.finWaitReady config e) := by
  refine .select ?_ (.quiet rfl) (receive_goesTo (fun _ h => finWaitPacket_goesTo h))
  split_ifs <;> exact .quiet rfl

theorem timeWaitReady_goesTo :
    GoesTo serverAddr (if e.selectResult > 0 then heardFrom e c.serverAddr else c.serverAddr)
      (c.timeWaitReady e) := by
  refine .select (.quiet rfl) ?_ (receive_goesTo (fun _ h => timeWaitPacket_goesTo h))
  split_ifs <;> exact .quiet rfl

/-- All packets of an activation go to the address that `recv_packet` stored last. -/
theorem step_goesTo :
    GoesTo serverAddr ((c.hears e).getD c.serverAddr) (c.step config e) := by
  rw [hears, getD_heard]
  cases hpc : c.pc with
  | fsm =>
    rw [step_fsm hpc, receives, hpc]
    exact runClient_goesTo
  | returned code =>
    rw [step_returned hpc, receives, hpc]
    exact .quiet rfl
  | transfer =>
    have hr : c.receives e = false := by rw [receives, hpc]
    rw [hr]
    cases hx : c.xfer with
    | none => simp only [step, hpc, hx]; exact .quiet rfl
    | some x => rw [step_transfer hpc hx]; exact transferRound_goesTo
  | select ms =>
    rw [step_select hpc]
    cases hs : c.state with
    | synSent =>
      have hr : c.receives e = decide (e.selectResult > 0) := by simp only [receives, hpc, hs]
      simp only [hr, decide_eq_true_eq, resume_synSent hs]
      exact synSentReady_goesTo
    | established =>
      cases hx : c.xfer with
      | none =>
        have hr : c.receives e = false := by simp only [receives, hpc, hs, hx]
        simp only [hr, resume, hs, hx]
        exact .quiet rfl
      | some x =>
        simp only [receives_transfer hpc hs hx e, decide_eq_true_eq, resume_established hs hx]
        exact transferReady_goesTo
    | finWait =>
      have hr : c.receives e = decide (e.selectResult > 0) := by simp only [receives, hpc, hs]
      simp only [hr, decide_eq_true_eq, resume_finWait hs]
      exact finWaitReady_goesTo
    | timeWait =>
      have hr : c.receives e = decide (e.selectResult > 0) := by simp only [receives, hpc, hs]
      simp only [hr, decide_eq_true_eq, resume_timeWait hs]
      exact timeWaitReady_goesTo
    | closed =>
      have hr : c.receives e = false := by simp only [receives, hpc, hs]
      simp only [hr, resume, hs]
      exact .quiet rfl
    | done =>
      have hr : c.receives e = false := by simp only [receives, hpc, hs]
      simp only [hr, resume, hs]
      exact .quiet rfl

end Client

namespace Server

/-- This activation of the server calls `recv_packet`. -/
def receives (s : Server Addr) (e : Env Addr) : Bool :=
  match s.pc, s.state with
  | .select _, .done => false
  | .select _, _ => decide (e.selectResult > 0)
  | _, _ => false

/-- The source of the datagram this activation reads. -/
def hears (s : Server Addr) (e : Env Addr) : Option Addr :=
  if s.receives e then e.recvfrom.map Prod.fst else none

variable {config : AppConfig} {s : Server Addr} {e : Env Addr}

theorem runServer_goesTo : GoesTo clientAddr s.clientAddr (s.runServer config e) := by
  by_cases hs : s.state = .done
  · rw [runServer_done hs]
    exact .quiet rfl
  · rw [runServer_running hs, enter]
    split_ifs <;> exact .quiet rfl

theorem receive_goesTo
    {handle : Server Addr → RDTHeader → List UInt8 → Server Addr × List (Send Addr)}
    (hh : ∀ s h p, GoesTo clientAddr s.clientAddr (handle s h p)) :
    GoesTo clientAddr (heardFrom e s.clientAddr) (s.receive e handle) := by
  rw [receive, recvPacket_fst]
  cases (recvPacket e s.clientAddr).2 with
  | error code => exact .quiet rfl
  | ok received => exact hh { s with clientAddr := heardFrom e s.clientAddr } received.1 received.2

theorem reply_goesTo {addr : Addr} {flags : UInt8} {next : Server Addr} (hs : s.clientAddr = addr)
    (h : next.clientAddr = addr) : GoesTo clientAddr addr (s.reply e flags next) := by
  rw [reply]
  split_ifs
  · exact .one h hs
  · exact .one hs hs

theorem ready_goesTo
    {handle : Server Addr → RDTHeader → List UInt8 → Server Addr × List (Send Addr)}
    (hh : ∀ s h p, GoesTo clientAddr s.clientAddr (handle s h p)) :
    GoesTo clientAddr (if e.selectResult > 0 then heardFrom e s.clientAddr else s.clientAddr)
      (s.ready config e handle) := by
  refine .select ?_ (.quiet rfl) (receive_goesTo hh)
  split_ifs <;> exact .quiet rfl

theorem listenPacket_goesTo (h : RDTHeader) :
    GoesTo clientAddr s.clientAddr (s.listenPacket e h) := by
  rw [listenPacket]
  split_ifs
  · exact reply_goesTo rfl rfl
  · exact .quiet rfl

theorem handshakePacket_goesTo (h : RDTHeader) :
    GoesTo clientAddr s.clientAddr (s.handshakePacket e h) := by
  rw [handshakePacket]
  split_ifs
  · exact reply_goesTo rfl rfl
  · exact .quiet rfl
  · exact .quiet rfl
  · exact .quiet rfl

theorem establishedPacket_goesTo (h : RDTHeader) (payload : List UInt8) :
    GoesTo clientAddr s.clientAddr (s.establishedPacket e h payload) := by
  rw [establishedPacket, dataPacket]
  dsimp only
  split_ifs
  · exact reply_goesTo rfl rfl
  · exact .quiet rfl
  · exact reply_goesTo rfl rfl
  · exact reply_goesTo rfl rfl
  · exact reply_goesTo rfl rfl
  · exact .quiet rfl

theorem lastAckPacket_goesTo (h : RDTHeader) :
    GoesTo clientAddr s.clientAddr (s.lastAckPacket e h) := by
  rw [lastAckPacket]
  split_ifs
  · exact reply_goesTo rfl rfl
  · exact .quiet rfl
  · exact .quiet rfl

theorem lastAckReady_goesTo :
    GoesTo clientAddr (if e.selectResult > 0 then heardFrom e s.clientAddr else s.clientAddr)
      (s.lastAckReady config e) := by
  refine .select ?_ ?_ (receive_goesTo (fun _ h _ => lastAckPacket_goesTo h))
  · dsimp only
    split_ifs
    · exact .quiet rfl
    · exact .one rfl rfl
    · exact .one rfl rfl
  · split_ifs <;> exact .quiet rfl

/-- All packets of an activation go to the address that `recv_packet` stored last. -/
theorem step_goesTo :
    GoesTo clientAddr ((s.hears e).getD s.clientAddr) (s.step config e) := by
  rw [hears, getD_heard]
  cases hpc : s.pc with
  | fsm =>
    rw [step_fsm hpc, receives, hpc]
    exact runServer_goesTo
  | returned code =>
    rw [step_returned hpc, receives, hpc]
    exact .quiet rfl
  | select ms =>
    rw [step_select hpc]
    have hr (h : s.state ≠ .done) : s.receives e = decide (e.selectResult > 0) := by
      simp only [receives, hpc]
    cases hs : s.state with
    | listen =>
      rw [hs] at hr
      simp only [hr (by decide), decide_eq_true_eq, resume_listen hs]
      exact ready_goesTo (fun _ h _ => listenPacket_goesTo h)
    | handshake =>
      rw [hs] at hr
      simp only [hr (by decide), decide_eq_true_eq, resume_handshake hs]
      exact ready_goesTo (fun _ h _ => handshakePacket_goesTo h)
    | established =>
      rw [hs] at hr
      simp only [hr (by decide), decide_eq_true_eq, resume_established hs]
      exact ready_goesTo (fun _ h p => establishedPacket_goesTo h p)
    | lastAck =>
      rw [hs] at hr
      simp only [hr (by decide), decide_eq_true_eq, resume_lastAck hs]
      exact lastAckReady_goesTo
    | done =>
      simp only [receives, hpc, hs, resume]
      exact .quiet rfl

end Server

/-- In SYN_SENT a SYN+ACK from `peer` arrives and is taken. -/
def Client.AcceptsFrom (c : Client Addr) (e : Env Addr) (peer : Addr) : Prop :=
  c.state = .synSent ∧ (∃ ms, c.pc = .select ms) ∧ e.selectResult > 0 ∧
    ∃ datagram h payload, e.recvfrom = some (peer, datagram) ∧
      parsePacket (datagram.take maxPacketSize) = .ok (h, payload) ∧ c.TakesSynAck h

/-- In LISTEN a SYN from `peer` arrives. -/
def Server.AcceptsFrom (s : Server Addr) (e : Env Addr) (peer : Addr) : Prop :=
  s.state = .listen ∧ (∃ ms, s.pc = .select ms) ∧ e.selectResult > 0 ∧
    ∃ datagram h payload, e.recvfrom = some (peer, datagram) ∧
      parsePacket (datagram.take maxPacketSize) = .ok (h, payload) ∧ h.flags = flagSyn

theorem Client.AcceptsFrom.serverAddr {c : Client Addr} {e : Env Addr} {peer : Addr}
    (h : c.AcceptsFrom e peer) (config : AppConfig) : (c.step config e).1.serverAddr = peer := by
  obtain ⟨hs, ⟨ms, hpc⟩, hsel, datagram, _, _, hrecv, _⟩ := h
  have hr : c.receives e = true := by simp only [Client.receives, hpc, hs, decide_eq_true hsel]
  rw [Client.step_goesTo.1, Client.hears, hr, hrecv]
  rfl

theorem Server.AcceptsFrom.clientAddr {s : Server Addr} {e : Env Addr} {peer : Addr}
    (h : s.AcceptsFrom e peer) (config : AppConfig) : (s.step config e).1.clientAddr = peer := by
  obtain ⟨hs, ⟨ms, hpc⟩, hsel, datagram, _, _, hrecv, _⟩ := h
  have hr : s.receives e = true := by simp only [Server.receives, hpc, hs, decide_eq_true hsel]
  rw [Server.step_goesTo.1, Server.hears, hr, hrecv]
  rfl

/-- The packets of the accepting activation itself go to the peer. -/
theorem Client.AcceptsFrom.sends {c : Client Addr} {e : Env Addr} {peer : Addr}
    (h : c.AcceptsFrom e peer) (config : AppConfig) : ∀ o ∈ (c.step config e).2, o.dst = peer := by
  intro o ho
  rw [Client.step_goesTo.2 o ho, ← Client.step_goesTo.1]
  exact h.serverAddr config

theorem Server.AcceptsFrom.sends {s : Server Addr} {e : Env Addr} {peer : Addr}
    (h : s.AcceptsFrom e peer) (config : AppConfig) : ∀ o ∈ (s.step config e).2, o.dst = peer := by
  intro o ho
  rw [Server.step_goesTo.2 o ho, ← Server.step_goesTo.1]
  exact h.clientAddr config

theorem getD_eq_iff {heard : Option Addr} {stored : Addr} :
    heard.getD stored = stored ↔ ∀ src, heard = some src → src = stored := by
  cases heard with
  | none => simp
  | some src => simp

/-- A datagram leaves the destination as it is only if it comes from there, whatever the handler
makes of it. -/
theorem Client.keeps_peer_iff {config : AppConfig} {c : Client Addr} {e : Env Addr} :
    (c.step config e).1.serverAddr = c.serverAddr ↔
      ∀ src, c.hears e = some src → src = c.serverAddr := by
  rw [Client.step_goesTo.1]
  exact getD_eq_iff

theorem Server.keeps_peer_iff {config : AppConfig} {s : Server Addr} {e : Env Addr} :
    (s.step config e).1.clientAddr = s.clientAddr ↔
      ∀ src, s.hears e = some src → src = s.clientAddr := by
  rw [Server.step_goesTo.1]
  exact getD_eq_iff

section Runs

open Machine

/-- From the accepted packet on all packets go to the peer exactly if, whenever one is sent, the
datagram read last came from the peer. -/
theorem sends_reach_peer_iff (config : AppConfig) (peer : Addr) (es : List (Env Addr)) :
    (∀ (c : Client Addr) (a : Env Addr), c.AcceptsFrom a peer →
      ((∀ o ∈ outputs (Client.step config) c (a :: es), o.dst = peer) ↔
        ∀ pre e post, es = pre ++ e :: post →
          ((after (Client.step config) (c.step config a).1 pre).step config e).2 ≠ [] →
          lastHeard Client.hears (Client.step config) peer (c.step config a).1 (pre ++ [e]) =
            peer)) ∧
    (∀ (s : Server Addr) (a : Env Addr), s.AcceptsFrom a peer →
      ((∀ o ∈ outputs (Server.step config) s (a :: es), o.dst = peer) ↔
        ∀ pre e post, es = pre ++ e :: post →
          ((after (Server.step config) (s.step config a).1 pre).step config e).2 ≠ [] →
          lastHeard Server.hears (Server.step config) peer (s.step config a).1 (pre ++ [e]) =
            peer)) := by
  constructor
  · intro c a ha
    have h := outputs_bear_iff (fun (c : Client Addr) e =>
        (Client.step_goesTo : GoesTo _ _ (c.step config e)).1)
      (fun c e o ho => (Client.step_goesTo.2 o ho).trans Client.step_goesTo.1.symm)
      (c.step config a).1 es peer
    rw [ha.serverAddr config] at h
    exact (List.forall_mem_append.trans (and_iff_right (ha.sends config))).trans h
  · intro s a ha
    have h := outputs_bear_iff (fun (s : Server Addr) e =>
        (Server.step_goesTo : GoesTo _ _ (s.step config e)).1)
      (fun s e o ho => (Server.step_goesTo.2 o ho).trans Server.step_goesTo.1.symm)
      (s.step config a).1 es peer
    rw [ha.clientAddr config] at h
    exact (List.forall_mem_append.trans (and_iff_right (ha.sends config))).trans h

/-- In particular they do as long as no datagram from elsewhere is read. -/
theorem sends_reach_peer_undisturbed (config : AppConfig) (peer : Addr) (es : List (Env Addr)) :
    (∀ (c : Client Addr) (a : Env Addr), c.AcceptsFrom a peer →
      (∀ pre e post, es = pre ++ e :: post → ∀ src,
        (after (Client.step config) (c.step config a).1 pre).hears e = some src → src = peer) →
      ∀ o ∈ outputs (Client.step config) c (a :: es), o.dst = peer) ∧
    (∀ (s : Server Addr) (a : Env Addr), s.AcceptsFrom a peer →
      (∀ pre e post, es = pre ++ e :: post → ∀ src,
        (after (Server.step config) (s.step config a).1 pre).hears e = some src → src = peer) →
      ∀ o ∈ outputs (Server.step config) s (a :: es), o.dst = peer) := by
  constructor
  · intro c a ha hheard
    refine List.forall_mem_append.mpr ⟨ha.sends config, ?_⟩
    exact outputs_bear_of_heard (fun (c : Client Addr) e =>
        (Client.step_goesTo : GoesTo _ _ (c.step config e)).1)
      (fun c e o ho => (Client.step_goesTo.2 o ho).trans Client.step_goesTo.1.symm)
      (ha.serverAddr config) hheard
  · intro s a ha hheard
    refine List.forall_mem_append.mpr ⟨ha.sends config, ?_⟩
    exact outputs_bear_of_heard (fun (s : Server Addr) e =>
        (Server.step_goesTo : GoesTo _ _ (s.step config e)).1)
      (fun s e o ho => (Server.step_goesTo.2 o ho).trans Server.step_goesTo.1.symm)
      (ha.clientAddr config) hheard

end Runs

def strayConfig : AppConfig := ⟨5, none, none⟩

/-- A client with empty input that waits for the SYN+ACK of the server at address 1. -/
def strayClient : Client Nat :=
  Machine.after (Client.step strayConfig) (Client.init 1 1000 []) [.calm Nat 1000, .calm Nat 1000]

def straySynAck : Env Nat := .arrival 1 (encode 7 1 42 (flagSyn ||| flagAck) []) 1000

/-- In FIN_WAIT an empty datagram from address 9 comes in. -/
def strayTraffic : List (Env Nat) :=
  [.calm Nat 1000, .calm Nat 1000, .calm Nat 1000, .arrival 9 [] 1000, .calm Nat 1000]

theorem strayClient_accepts : strayClient.AcceptsFrom straySynAck 1 := by
  obtain ⟨checksum, h⟩ := parsePacket_encode 7 1 42 (flagSyn ||| flagAck) [] (by decide)
  refine ⟨by decide, ⟨250, by decide⟩, by decide, _, ⟨7, 1, 42, checksum, 0, 3⟩, [], rfl, ?_, ?_⟩
  · rw [List.take_of_length_le (encode_length 7 1 42 _ [] (by decide))]
    exact h
  · exact ⟨rfl, (by decide : (42 : UInt16) ≠ 0),
      (by decide : (1 : UInt32) = strayClient.connection.seqNum + 1)⟩

def straySyn : Env Nat := .arrival 1 (encode 0 0 0 flagSyn []) 1000

/-- A server that has just started. -/
def strayServer : Server Nat :=
  Machine.after (Server.step strayConfig) (Server.init 0 1000) [.calm Nat 1000]

theorem strayServer_accepts : strayServer.AcceptsFrom straySyn 1 := by
  obtain ⟨checksum, h⟩ := parsePacket_encode 0 0 0 flagSyn [] (by decide)
  refine ⟨by decide, ⟨250, by decide⟩, by decide, _, ⟨0, 0, 0, checksum, 0, 1⟩, [], rfl, ?_, ?_⟩
  · rw [List.take_of_length_le (encode_length 0 0 0 _ [] (by decide))]
    exact h
  · rfl

/-- A stray datagram comes in, and one of the peer before the next packet is sent. -/
def mixedTraffic : List (Env Nat) :=
  [.calm Nat 1000, .arrival 9 [] 1000, .calm Nat 1000, straySyn, .calm Nat 1000]

open Machine in
/-- All packets reach the peer: the ACK of the client and two FINs, two SYN+ACKs of the server. -/
theorem sends_reach_peer_iff_mixed :
    ((outputs (Client.step strayConfig) strayClient (straySynAck :: mixedTraffic)).map Send.dst =
        [1, 1, 1] ∧
      ∀ pre e post, mixedTraffic = pre ++ e :: post →
        ((after (Client.step strayConfig) (strayClient.step strayConfig straySynAck).1 pre).step
          strayConfig e).2 ≠ [] →
        lastHeard Client.hears (Client.step strayConfig) 1
          (strayClient.step strayConfig straySynAck).1 (pre ++ [e]) = 1) ∧
    ((outputs (Server.step strayConfig) strayServer (straySyn :: mixedTraffic)).map Send.dst =
        [1, 1] ∧
      ∀ pre e post, mixedTraffic = pre ++ e :: post →
        ((after (Server.step strayConfig) (strayServer.step strayConfig straySyn).1 pre).step
          strayConfig e).2 ≠ [] →
        lastHeard Server.hears (Server.step strayConfig) 1
          (strayServer.step strayConfig straySyn).1 (pre ++ [e]) = 1) := by
  refine ⟨⟨by decide +kernel, ?_⟩, by decide +kernel, ?_⟩
  · exact ((sends_reach_peer_iff strayConfig 1 mixedTraffic).1 strayClient straySynAck
      strayClient_accepts).mp (by decide +kernel)
  · exact ((sends_reach_peer_iff strayConfig 1 mixedTraffic).2 strayServer straySyn
      strayServer_accepts).mp (by decide +kernel)

/-- The FIN goes to the peer, its retransmission to the stranger. -/
theorem sends_leave_peer :
    ¬ ∀ (c : Client Nat) (a : Env Nat) (peer : Nat) (es : List (Env Nat)),
      c.AcceptsFrom a peer →
      ∀ o ∈ Machine.outputs (Client.step strayConfig) (c.step strayConfig a).1 es,
        o.dst = peer := by
  intro hall
  have hdst : (Machine.outputs (Client.step strayConfig)
      (strayClient.step strayConfig straySynAck).1 strayTraffic).map Send.dst = [1, 9] := by
    decide +kernel
  have h9 : 9 ∈ (Machine.outputs (Client.step strayConfig)
      (strayClient.step strayConfig straySynAck).1 strayTraffic).map Send.dst := by
    rw [hdst]
    decide
  obtain ⟨o, ho, ho9⟩ := List.mem_map.mp h9
  have h1 := hall strayClient straySynAck 1 strayTraffic strayClient_accepts o ho
  rw [h1] at ho9
  exact absurd ho9 (by decide)

end ReliableUdp
