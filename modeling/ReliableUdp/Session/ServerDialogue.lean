import ReliableUdp.Session.ClientDialogue

namespace ReliableUdp

open Machine

variable {Addr : Type}

/-- How far the server's side of a conversation has come, with the numbers it uses from then on. -/
inductive ServerDialogue where
  | silent
  | greeting (connection : ConnectionState)
  | receiving (connection : ConnectionState)
  | closing (connection : ConnectionState)

/-- A packet with the numbers of the connection. -/
def ConnectionState.reply (connection : ConnectionState) (flags : UInt8) : Message :=
  ⟨connection.seqNum, connection.ackNum, connection.connId, flags, []⟩

/-- The next number is acknowledged. -/
def ConnectionState.expectNext (connection : ConnectionState) : ConnectionState :=
  { connection with ackNum := connection.ackNum + 1 }

/-- The numbers `handle_listen` can draw. -/
structure ConnectionState.Drawn (connection : ConnectionState) : Prop where
  seqNum : connection.seqNum.toNat < moduler
  connId : 1 ≤ connection.connId.toNat ∧ connection.connId.toNat ≤ 60000

/-- The packets of a server, none of which has a payload, and when it may send them: SYN+ACKs with
one set of numbers, ACKs whose number grows by one or not at all, and FIN+ACKs for the number behind
the last one. -/
inductive ServerDialogue.Utters : ServerDialogue → Message → ServerDialogue → Prop where
  | synAck (c : ConnectionState) (h : c.Drawn) :
      Utters .silent (c.reply (flagSyn ||| flagAck)) (.greeting c)
  | synAckAgain (c : ConnectionState) :
      Utters (.greeting c) (c.reply (flagSyn ||| flagAck)) (.greeting c)
  | ack (c : ConnectionState) (k : ServerDialogue) (h : k = .greeting c ∨ k = .receiving c) :
      Utters k (c.expectNext.reply flagAck) (.receiving c.expectNext)
  | ackAgain (c : ConnectionState) (k : ServerDialogue) (h : k = .greeting c ∨ k = .receiving c) :
      Utters k (c.reply flagAck) (.receiving c)
  | finAck (c : ConnectionState) (k : ServerDialogue) (h : k = .greeting c ∨ k = .receiving c) :
      Utters k (c.expectNext.reply (flagFin ||| flagAck)) (.closing c.expectNext)
  | finAckAgain (c : ConnectionState) :
      Utters (.closing c) (c.reply (flagFin ||| flagAck)) (.closing c)

/-- The server has come as far as the conversation says. -/
inductive Answers (s : Server Addr) : ServerDialogue → Prop where
  | listen (state : s.state = .listen) (pc : s.pc.Waiting) : Answers s .silent
  | handshake (state : s.state = .handshake) (pc : s.pc.Waiting) :
      Answers s (.greeting s.connection)
  | established (k : ServerDialogue) (state : s.state = .established) (pc : s.pc.Waiting)
      (said : k = .greeting s.connection ∨ k = .receiving s.connection) : Answers s k
  | lastAck (state : s.state = .lastAck) (pc : s.pc.Waiting) : Answers s (.closing s.connection)
  | done (k : ServerDialogue) (state : s.state = .done) (pc : s.pc.Halted) : Answers s k

/-- What an activation adds to the conversation. -/
def Replies (k : ServerDialogue) (next : Server Addr × List (Send Addr)) : Prop :=
  ∃ k', Conforms (Uttered ServerDialogue.Utters) k next.2 k' ∧ Answers next.1 k'

section Replies

variable {k k' : ServerDialogue} {s : Server Addr} {e : Env Addr} {config : AppConfig}

theorem Replies.quiet (h : Answers s k) : Replies k (s, []) := ⟨k, .nil k, h⟩

theorem Replies.fail (code : Int) : Replies k (s.fail code, []) :=
  .quiet (.done k rfl (.inl rfl))

/-- A control packet that ends the server when it cannot be sent. -/
theorem Replies.control {next d : Server Addr} {flags : UInt8} {code : Int}
    (hm : ServerDialogue.Utters k (s.connection.reply flags) k') (h : Answers next k') :
    Replies k (if (s.control e flags).sent = true then (next, [s.control e flags])
      else (d.fail code, [s.control e flags])) := by
  have hsaid : Conforms (Uttered ServerDialogue.Utters) k [s.control e flags] k' :=
    .single ⟨s.connection.reply flags, rfl, Nat.zero_le _, hm⟩
  split_ifs
  · exact ⟨k', hsaid, h⟩
  · exact ⟨k', hsaid, .done k' rfl (.inl rfl)⟩

theorem Replies.reply {next : Server Addr} {flags : UInt8}
    (hm : ServerDialogue.Utters k (s.connection.reply flags) k') (h : Answers next k') :
    Replies k (s.reply e flags next) := by
  rw [Server.reply]
  exact .control hm h

theorem Replies.receive
    {handle : Server Addr → RDTHeader → List UInt8 → Server Addr × List (Send Addr)}
    (hstay : ∀ a : Addr, Answers ({ s with clientAddr := a }.goto s.state) k)
    (hh : ∀ a h payload, Replies k (handle { s with clientAddr := a } h payload)) :
    Replies k (s.receive e handle) := by
  rw [Server.receive]
  cases (recvPacket e s.clientAddr).2 with
  | error code => exact .quiet (hstay _)
  | ok received => exact hh _ _ _

theorem Replies.ready
    {handle : Server Addr → RDTHeader → List UInt8 → Server Addr × List (Send Addr)}
    (hstay : ∀ a : Addr, Answers ({ s with clientAddr := a }.goto s.state) k)
    (hh : ∀ a h payload, Replies k (handle { s with clientAddr := a } h payload)) :
    Replies k (s.ready config e handle) := by
  rw [Server.ready]
  split_ifs
  · exact .fail exProtocol
  · exact .quiet (hstay s.clientAddr)
  · exact .fail exOsErr
  · exact .receive hstay hh

end Replies

namespace Answers

variable {k : ServerDialogue} {s : Server Addr} {e : Env Addr} {config : AppConfig}

theorem init (clientAddr : Addr) (startMs : UInt64) :
    Answers (Server.init clientAddr startMs) .silent :=
  .listen rfl (.inl rfl)

theorem listenPacket (h : RDTHeader) : Replies .silent (s.listenPacket e h) := by
  have hseq : (UInt32.ofNat (e.rand 1 % moduler)).toNat < moduler := by
    have hmod : e.rand 1 % moduler < moduler := Nat.mod_lt _ (by decide)
    rw [UInt32.toNat_ofNat_of_lt' (hmod.trans (by decide))]
    exact hmod
  have hid : (UInt16.ofNat (e.rand 0 % 60000 + 1)).toNat = e.rand 0 % 60000 + 1 := by
    rw [UInt16.toNat_ofNat']
    omega
  rw [Server.listenPacket]
  split_ifs
  · have hdrawn : (⟨UInt32.ofNat (e.rand 1 % moduler), h.seqNum + 1,
        UInt16.ofNat (e.rand 0 % 60000 + 1)⟩ : ConnectionState).Drawn :=
      ⟨hseq, by dsimp only; omega⟩
    exact .reply (.synAck _ hdrawn) (.handshake rfl (.inl rfl))
  · exact .quiet (.listen rfl (.inl rfl))

theorem handshakePacket (h : RDTHeader) :
    Replies (.greeting s.connection) (s.handshakePacket e h) := by
  rw [Server.handshakePacket]
  split_ifs with hsyn hack hdata
  · exact .reply (.synAckAgain _) (.handshake rfl (.inl rfl))
  · refine .quiet (.established _ rfl (.inl rfl) (Or.inl ?_))
    rw [hack.2.2.2]
    rfl
  · exact .quiet (.established _ rfl (.inl rfl) (Or.inl rfl))
  · exact .quiet (.handshake rfl (.inl rfl))

/-- A DATA packet is answered with the number that is expected next. -/
theorem dataPacket (h : RDTHeader) (payload : List UInt8)
    (said : k = .greeting s.connection ∨ k = .receiving s.connection) :
    Replies k (s.dataPacket e h payload) := by
  rw [Server.dataPacket]
  dsimp only
  split_ifs
  · exact .fail exIoErr
  · exact .reply (.ack s.connection k said) (.established _ rfl (.inl rfl) (Or.inr rfl))
  · exact .reply (.ackAgain s.connection k said) (.established _ rfl (.inl rfl) (Or.inr rfl))
  · exact .reply (.ackAgain s.connection k said) (.established _ rfl (.inl rfl) (Or.inr rfl))

theorem establishedPacket (h : RDTHeader) (payload : List UInt8)
    (said : k = .greeting s.connection ∨ k = .receiving s.connection) :
    Replies k (s.establishedPacket e h payload) := by
  rw [Server.establishedPacket]
  split_ifs with hfin hdata
  · dsimp only
    rw [hfin.2.2]
    exact .reply (.finAck s.connection k said) (.lastAck rfl (.inl rfl))
  · exact dataPacket h payload said
  · exact .quiet (.established k rfl (.inl rfl) said)

theorem lastAckPacket (h : RDTHeader) :
    Replies (.closing s.connection) (s.lastAckPacket e h) := by
  rw [Server.lastAckPacket]
  split_ifs
  · exact .reply (.finAckAgain _) (.lastAck rfl (.inl rfl))
  · exact .quiet (.done _ rfl (.inl rfl))
  · exact .quiet (.lastAck rfl (.inl rfl))

theorem lastAckReady (hs : s.state = .lastAck) :
    Replies (.closing s.connection) (s.lastAckReady config e) := by
  have hstay (a : Addr) : Answers ({ s with clientAddr := a }.goto .lastAck)
      (.closing s.connection) := .lastAck rfl (.inl rfl)
  rw [Server.lastAckReady]
  split_ifs
  · exact .fail exOk
  · exact .control (.finAckAgain _) (hstay s.clientAddr)
  · exact .fail exOk
  · exact .fail exOsErr
  · apply Replies.receive
    · intro a
      rw [hs]
      exact hstay a
    · intro a h _
      exact lastAckPacket (s := { s with clientAddr := a }) h

/-- The watchdog and the start of the wait. -/
theorem enter (h : Answers { s with pc := .select retransmitIntervalMs } k) :
    Replies k (s.enter config e) := by
  rw [Server.enter]
  split_ifs
  · exact .fail exProtocol
  · exact .quiet h

/-- A turn of the loop of `run_server`. -/
theorem running (h : Answers { s with pc := .select retransmitIntervalMs } k)
    (hs : s.state ≠ .done) (hp : s.pc = .fsm) : Replies k (s.step config e) := by
  rw [Server.step_fsm hp, Server.runServer_running hs]
  split_ifs
  · exact .fail exSoftware
  · exact enter h

/-- Every activation, whatever arrives in it. -/
theorem step (h : Answers s k) (config : AppConfig) (e : Env Addr) :
    Replies k (s.step config e) := by
  cases h with
  | listen hs hpc =>
    have hstay (a : Addr) : Answers ({ s with clientAddr := a }.goto s.state) .silent :=
      .listen hs (.inl rfl)
    rcases hpc with hp | ⟨ms, hp⟩
    · exact running (.listen hs (.inr ⟨_, rfl⟩)) (by rw [hs]; decide) hp
    · rw [Server.step_select hp, Server.resume_listen hs, Server.listenReady]
      exact .ready hstay (fun a h _ => listenPacket (s := { s with clientAddr := a }) h)
  | handshake hs hpc =>
    have hstay (a : Addr) : Answers ({ s with clientAddr := a }.goto s.state)
        (.greeting s.connection) := .handshake hs (.inl rfl)
    rcases hpc with hp | ⟨ms, hp⟩
    · exact running (.handshake hs (.inr ⟨_, rfl⟩)) (by rw [hs]; decide) hp
    · rw [Server.step_select hp, Server.resume_handshake hs, Server.handshakeReady]
      exact .ready hstay (fun a h _ => handshakePacket (s := { s with clientAddr := a }) h)
  | established k hs hpc said =>
    have hstay (a : Addr) : Answers ({ s with clientAddr := a }.goto s.state) k :=
      .established k hs (.inl rfl) said
    rcases hpc with hp | ⟨ms, hp⟩
    · exact running (.established k hs (.inr ⟨_, rfl⟩) said) (by rw [hs]; decide) hp
    · rw [Server.step_select hp, Server.resume_established hs, Server.establishedReady]
      apply Replies.ready hstay
      intro a h payload
      exact establishedPacket (s := { s with clientAddr := a }) h payload said
  | lastAck hs hpc =>
    rcases hpc with hp | ⟨ms, hp⟩
    · exact running (.lastAck hs (.inr ⟨_, rfl⟩)) (by rw [hs]; decide) hp
    · rw [Server.step_select hp, Server.resume_lastAck hs]
      exact lastAckReady hs
  | done k hs hpc =>
    rcases hpc with hp | ⟨code, hp⟩
    · rw [Server.step_fsm hp, Server.runServer_done hs]
      exact .quiet (.done k hs (.inr ⟨_, rfl⟩))
    · rw [Server.step_returned hp]
      exact .quiet (.done k hs (.inr ⟨code, hp⟩))

end Answers

/-- Whatever datagrams the server is given and whatever fails, what it sends is a conversation:
SYN+ACKs with one set of numbers, ACKs that grow by one at a time, FIN+ACKs for the next number. -/
theorem server_converses (config : AppConfig) (clientAddr : Addr) (startMs : UInt64)
    (es : List (Env Addr)) :
    ∃ k, Conforms (Uttered ServerDialogue.Utters) .silent
        (outputs (Server.step config) (Server.init clientAddr startMs) es) k ∧
      Answers (after (Server.step config) (Server.init clientAddr startMs) es) k :=
  outputs_conform (fun _ _ e h => h.step config e) (.init clientAddr startMs) es

end ReliableUdp
