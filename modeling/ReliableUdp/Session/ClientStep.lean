import ReliableUdp.Session.Link

namespace ReliableUdp

variable {Addr : Type}

/-- Every datagram the socket hands out in `e` is a message that `P` allows from its source. -/
def Hears (e : Env Addr) (P : Addr → Message → Prop) : Prop :=
  ∀ src data, e.recvfrom = some (src, data) → ∃ m, P src m ∧ data = m.bytes

/-- Every packet that leaves the host is a message that `P` allows to its destination. -/
def Says (sends : List (Send Addr)) (P : Addr → Message → Prop) : Prop :=
  ∀ o ∈ sends, o.sent = true → ∃ m, P o.dst m ∧ o.data = m.bytes

theorem Says.nil (P : Addr → Message → Prop) : Says [] P := by
  intro o ho
  exact absurd ho (List.not_mem_nil)

theorem Says.single {P : Addr → Message → Prop} {o : Send Addr} (m : Message)
    (h : o.sent = true → P o.dst m) (hd : o.data = m.bytes) : Says [o] P := by
  intro o' ho hs
  rw [List.mem_singleton.mp ho] at hs ⊢
  exact ⟨m, h hs, hd⟩

theorem Says.unsent {P : Addr → Message → Prop} {o : Send Addr} (h : ¬ o.sent = true) :
    Says [o] P := by
  intro o' ho hs
  rw [List.mem_singleton.mp ho] at hs
  exact absurd hs h

theorem Says.append {P : Addr → Message → Prop} {xs ys : List (Send Addr)} (hx : Says xs P)
    (hy : Says ys P) : Says (xs ++ ys) P := by
  intro o ho
  rcases List.mem_append.mp ho with ho | ho
  · exact hx o ho
  · exact hy o ho

theorem Says.mono {P Q : Addr → Message → Prop} {sends : List (Send Addr)} (h : Says sends P)
    (hpq : ∀ dst m, P dst m → Q dst m) : Says sends Q := by
  intro o ho hs
  obtain ⟨m, hm, hd⟩ := h o ho hs
  exact ⟨m, hpq _ m hm, hd⟩

/-- A process whose peer is the only one to write to it keeps its peer's address. -/
theorem recvPacket_addr {e : Env Addr} {addr : Addr}
    (hsrc : ∀ src data, e.recvfrom = some (src, data) → src = addr) :
    recvPacket e addr = (addr, (recvPacket e addr).2) := by
  cases hr : e.recvfrom with
  | none => simp only [recvPacket, hr]
  | some d => simp only [recvPacket, hr, hsrc d.1 d.2 hr]

theorem Client.receive_cases {c : Client Addr} {e : Env Addr}
    (hsrc : ∀ src data, e.recvfrom = some (src, data) → src = c.serverAddr)
    (handle : Client Addr → RDTHeader → Client Addr × List (Send Addr)) :
    c.receive e handle = (c.goto c.state, []) ∨
    ∃ h payload, recvPacket e c.serverAddr = (c.serverAddr, .ok (h, payload)) ∧
      c.receive e handle = handle c h := by
  have haddr := recvPacket_addr hsrc
  rw [Client.receive, haddr]
  cases hr : (recvPacket e c.serverAddr).2 with
  | error code => exact Or.inl rfl
  | ok received => exact Or.inr ⟨received.1, received.2, rfl, rfl⟩

inductive OpeningPhase (isn : UInt32) (c : Client Addr) : Prop where
  | closed (state : c.state = .closed) (pc : c.pc = .fsm) (exit : c.exitCode = exOk)
  | synSent (state : c.state = .synSent) (pc : c.pc.Waiting) (exit : c.exitCode = exOk)
      (connection : c.connection = ⟨isn, 0, 0⟩)
  | done (state : c.state = .done) (pc : c.pc.Halted)

/-- A client that has not taken a SYN+ACK. -/
structure Opening (isn : UInt32) (input : InputFile) (addr : Addr) (c : Client Addr) : Prop where
  peer : c.serverAddr = addr
  connId : c.connection.connId = 0
  file : c.file = input
  xfer : c.xfer = none
  phase : OpeningPhase isn c

section Opening

variable {isn : UInt32} {input : InputFile} {addr : Addr} {c : Client Addr}
  {config : AppConfig} {e : Env Addr}

theorem Opening.init (isn : UInt32) (input : InputFile) (addr : Addr) (startMs : UInt64) :
    Opening isn input addr (Client.init addr startMs input) :=
  ⟨rfl, rfl, rfl, rfl, .closed rfl rfl rfl⟩

theorem Opening.fail (h : Opening isn input addr c) (code : Int) :
    Opening isn input addr (c.fail code) :=
  ⟨h.peer, h.connId, h.file, h.xfer, .done rfl (.inl rfl)⟩

/-- What a client that is opening can do: go on opening, or take a SYN+ACK. -/
def OpeningOutcome (isn : UInt32) (input : InputFile) (addr : Addr) (c : Client Addr)
    (e : Env Addr) (next : Client Addr × List (Send Addr)) : Prop :=
  (Opening isn input addr next.1 ∧
    Says next.2 (fun dst m => dst = addr ∧ m = synMessage isn)) ∨
  ∃ h payload, c.exitCode = exOk ∧ c.connection = ⟨isn, 0, 0⟩ ∧
    recvPacket e c.serverAddr = (addr, .ok (h, payload)) ∧ c.TakesSynAck h ∧
    next = c.synSentPacket e h

theorem Opening.failed (h : Opening isn input addr c) (code : Int) :
    OpeningOutcome isn input addr c e (c.fail code, []) :=
  Or.inl ⟨h.fail code, Says.nil _⟩

/-- Sending a SYN, the first or a repeated one. -/
theorem Opening.sendSyn (h : Opening isn input addr c) (exit : c.exitCode = exOk) :
    OpeningOutcome isn input addr c e
      (if (Client.control { c with connection := ⟨isn, 0, 0⟩ } e flagSyn).sent then
        (Client.goto { c with connection := ⟨isn, 0, 0⟩ } .synSent,
          [Client.control { c with connection := ⟨isn, 0, 0⟩ } e flagSyn])
      else (Client.fail { c with connection := ⟨isn, 0, 0⟩ } exOsErr,
        [Client.control { c with connection := ⟨isn, 0, 0⟩ } e flagSyn])) := by
  have hnext : Opening isn input addr
      { c with connection := ⟨isn, 0, 0⟩, state := .synSent, pc := .fsm } :=
    ⟨h.peer, rfl, h.file, h.xfer, .synSent rfl (.inl rfl) exit rfl⟩
  have hsays : Says [Client.control { c with connection := ⟨isn, 0, 0⟩ } e flagSyn]
      (fun dst m => dst = addr ∧ m = synMessage isn) :=
    Says.single (synMessage isn) (fun _ => ⟨h.peer, rfl⟩) rfl
  split_ifs with hs
  · exact Or.inl ⟨hnext, hsays⟩
  · exact Or.inl ⟨hnext.fail exOsErr, hsays⟩

theorem Opening.runClient (h : Opening isn input addr c)
    (hrand : isn = UInt32.ofNat (e.rand 0 % moduler)) :
    OpeningOutcome isn input addr c e (c.runClient config e) := by
  cases h.phase with
  | closed hs _ exit =>
    rw [Client.runClient_closed hs]
    split_ifs with hstop
    · exact h.failed exSoftware
    · simp only [Client.handleClosed, ← hrand]
      exact h.sendSyn exit
  | synSent hs _ exit hc =>
    rw [Client.runClient_synSent hs, Client.handleSynSent]
    split_ifs with hstop hexp
    · exact h.failed exSoftware
    · exact h.failed exProtocol
    · exact Or.inl ⟨⟨h.peer, h.connId, h.file, h.xfer, .synSent hs (.inr ⟨_, rfl⟩) exit hc⟩,
        Says.nil _⟩
  | done hs _ =>
    rw [Client.runClient_done hs]
    exact Or.inl ⟨⟨h.peer, h.connId, h.file, h.xfer, .done hs (.inr ⟨_, rfl⟩)⟩, Says.nil _⟩

theorem Opening.resume (h : Opening isn input addr c)
    (hsrc : ∀ src data, e.recvfrom = some (src, data) → src = addr) :
    OpeningOutcome isn input addr c e (c.resume config e) := by
  cases h.phase with
  | closed hs _ _ => simp only [Client.resume, hs]; exact Or.inl ⟨h, Says.nil _⟩
  | done hs _ => simp only [Client.resume, hs]; exact Or.inl ⟨h, Says.nil _⟩
  | synSent hs _ exit hc =>
    have hsyn := h.sendSyn (e := e) exit
    have hnext : Opening isn input addr (c.goto .synSent) :=
      ⟨h.peer, h.connId, h.file, h.xfer, .synSent rfl (.inl rfl) exit hc⟩
    rw [← hc] at hsyn
    rw [Client.resume_synSent hs, Client.synSentReady]
    split_ifs with h0 hexp hneg
    · exact h.failed exProtocol
    · exact hsyn
    · exact h.failed exOsErr
    · rcases Client.receive_cases (by rwa [h.peer]) (fun c hd => c.synSentPacket e hd) with
        hr | ⟨hd, payload, hrecv, hr⟩
      · rw [hr, hs]
        exact Or.inl ⟨hnext, Says.nil _⟩
      · rw [hr]
        by_cases htake : c.TakesSynAck hd
        · exact Or.inr ⟨hd, payload, exit, hc, by rw [hrecv, h.peer], htake, rfl⟩
        · rw [Client.TakesSynAck] at htake
          rw [Client.synSentPacket, if_neg htake]
          exact Or.inl ⟨hnext, Says.nil _⟩

theorem Opening.step (h : Opening isn input addr c)
    (hrand : isn = UInt32.ofNat (e.rand 0 % moduler))
    (hsrc : ∀ src data, e.recvfrom = some (src, data) → src = addr) :
    OpeningOutcome isn input addr c e (c.step config e) := by
  cases hpc : c.pc with
  | fsm => rw [Client.step_fsm hpc]; exact h.runClient hrand
  | select ms => rw [Client.step_select hpc]; exact h.resume hsrc
  | returned code => rw [Client.step_returned hpc]; exact Or.inl ⟨h, Says.nil _⟩
  | transfer =>
    cases h.phase with
    | closed _ hp _ => rw [hpc] at hp; exact absurd hp (by simp)
    | synSent _ hp _ _ => rw [hpc] at hp; exact absurd hp (by simp [ClientPc.Waiting])
    | done _ hp => rw [hpc] at hp; exact absurd hp (by simp [ClientPc.Halted])

end Opening

/-- The input has been read up to its end of file. -/
def ReadToEnd (input file : InputFile) : Prop :=
  ∃ rest, input = (content input).map .bytes ++ rest ∧ readChunk rest = (.eof, file)

/-- The numbers of a client that has taken the SYN+ACK, `k` places behind its first one. -/
def Link.connection (L : Link) (k : Nat) : ConnectionState := ⟨L.num k, L.serverSeq + 1, L.connId⟩

/-- No sequence number of the session wraps around. -/
structure Link.Room (L : Link) (S : Session L.size) : Prop where
  sent : L.isn.toNat + 1 + S.sent < 2 ^ 32
  closing : S.closing = true → L.isn.toNat + 2 + L.size < 2 ^ 32

/-- The transfer loop stands for a session: its window holds the chunks sent so far, `base` counts
the acknowledged ones, and what remains of the input follows them. -/
structure Sending (L : Link) (S : Session L.size) (x : Transfer) (file : InputFile) : Prop where
  represents : x.gbn.Represents (L.isn.toNat + 1) (L.connection 1) (L.chunks.take S.sent)
  acked : x.gbn.base.toNat = L.isn.toNat + 1 + S.acked
  reading : x.eofReached = false → L.input = (L.chunks.take S.sent).map .bytes ++ file
  ended : x.eofReached = true → S.sent = L.size ∧ ReadToEnd L.input file ∧
    L.isn.toNat + 2 + L.size < 2 ^ 32

/-- Inside `handle_established`. -/
structure InTransfer (L : Link) (S : Session L.size) (c : Client Addr) : Prop where
  state : c.state = .established
  exit : c.exitCode = exOk
  connection : c.connection = L.connection 1
  opened : S.opened = true
  closing : S.closing = false
  room : L.isn.toNat + 1 + S.sent < 2 ^ 32

/-- Inside `handle_fin_wait`. -/
structure InFinWait (L : Link) (S : Session L.size) (c : Client Addr) : Prop where
  state : c.state = .finWait
  exit : c.exitCode = exOk
  connection : c.connection = L.connection (1 + L.size)
  closing : S.closing = true
  finished : S.finished = false
  ended : ReadToEnd L.input c.file
  room : L.isn.toNat + 2 + L.size < 2 ^ 32

/-- Inside `handle_time_wait`. -/
structure InTimeWait (L : Link) (S : Session L.size) (c : Client Addr) : Prop where
  state : c.state = .timeWait
  exit : c.exitCode = exOk
  connection : c.connection = L.connection (2 + L.size)
  finished : S.finished = true
  ended : ReadToEnd L.input c.file
  room : L.isn.toNat + 2 + L.size < 2 ^ 32

inductive ClientPhase (L : Link) (S : Session L.size) (addr : Addr) (c : Client Addr) : Prop where
  | opening (accepted : S.accepted = false) (opening : Opening L.isn L.input addr c)
  | entering (transfer : InTransfer L S c) (pc : c.pc = .fsm) (file : c.file = L.input)
      (sent : S.sent = 0) (xfer : c.xfer = none)
  | transferring (transfer : InTransfer L S c) (pc : c.pc = .transfer ∨ ∃ ms, c.pc = .select ms)
      (x : Transfer) (xfer : c.xfer = some x) (sending : Sending L S x c.file)
  | finWait (wait : InFinWait L S c) (pc : c.pc.Waiting)
  | timeWait (wait : InTimeWait L S c) (pc : c.pc.Waiting)
  | done (state : c.state = .done) (pc : c.pc.Halted) (accepted : S.accepted = true)
      (ackNum : c.connection.ackNum = L.serverSeq + 1) (connId : c.connection.connId = L.connId)
      (ended : S.closing = true → ReadToEnd L.input c.file) (room : L.Room S)

/-- The client's side of the refinement: how its state stands for a session. -/
structure ClientAt (L : Link) (S : Session L.size) (addr : Addr) (c : Client Addr) : Prop where
  peer : c.serverAddr = addr
  phase : ClientPhase L S addr c

/-- The moves a client makes for a session in one activation, and the packets it sends. -/
structure ClientOutcome (L : Link) (S : Session L.size) (addr : Addr)
    (next : Client Addr × List (Send Addr)) (T : Session L.size) : Prop where
  steps : Relation.ReflTransGen Session.Step S T
  delivered : T.delivered = S.delivered
  finSeen : T.finSeen = S.finSeen
  opened : T.opened = true → S.opened = true ∨ next.1.state = .established
  finished : T.finished = true → S.finished = true ∨ next.1.state = .timeWait
  client : ClientAt L T addr next.1
  sends : Says next.2 (fun dst m => dst = addr ∧ (m = synMessage L.isn ∨ Onward L T m ∨
    S.accepted = false ∧ T.opened = true ∧ m = L.handshakeAck))

section Session

variable {L : Link} {S : Session L.size} {addr : Addr} {c : Client Addr} {config : AppConfig}
  {e : Env Addr} {x : Transfer} {file : InputFile}

theorem ClientOutcome.same {next : Client Addr × List (Send Addr)} (h : ClientAt L S addr next.1)
    (hs : Says next.2 (fun dst m => dst = addr ∧ Onward L S m)) :
    ClientOutcome L S addr next S :=
  ⟨.refl, rfl, rfl, Or.inl, Or.inl, h, hs.mono (fun _ _ hm => ⟨hm.1, Or.inr (Or.inl hm.2)⟩)⟩

theorem Hears.recv {P : Addr → Message → Prop} (h : Hears e P)
    (hlen : ∀ src m, P src m → m.payload.length ≤ maxPacketSize - headerSize) {a src : Addr}
    {hd : RDTHeader} {payload : List UInt8} (hr : recvPacket e a = (src, .ok (hd, payload))) :
    ∃ m, P src m ∧ m.Read hd payload := by
  cases he : e.recvfrom with
  | none => rw [recvPacket, he] at hr; exact absurd (Prod.mk.inj hr).2 (by simp)
  | some d =>
    obtain ⟨m, hm, hd'⟩ := h d.1 d.2 he
    have he' : e.recvfrom = some (d.1, m.bytes) := by rw [he, ← hd']
    obtain ⟨hd₀, hr₀, hread⟩ := m.recv (hlen _ _ hm) a he'
    rw [hr] at hr₀
    obtain ⟨rfl, hok⟩ := Prod.mk.inj hr₀
    obtain ⟨rfl, rfl⟩ := Prod.mk.inj (Except.ok.inj hok)
    exact ⟨m, hm, hread⟩

/-- What a client's socket hands out in a session. -/
abbrev HearsServer (L : Link) (S : Session L.size) (addr : Addr) (e : Env Addr) : Prop :=
  Hears e (fun src m => src = addr ∧ FromServer L S m)

theorem Hears.server (h : HearsServer L S addr e) :
    ∀ src data, e.recvfrom = some (src, data) → src = addr := by
  intro src data he
  obtain ⟨m, hm, _⟩ := h src data he
  exact hm.1

theorem Hears.recvServer (h : HearsServer L S addr e) {a src : Addr} {hd : RDTHeader}
    {payload : List UInt8} (hr : recvPacket e a = (src, .ok (hd, payload))) :
    ∃ m, FromServer L S m ∧ m.Read hd payload := by
  obtain ⟨m, hm, hread⟩ := h.recv (fun _ m hm => by rw [hm.2.payload_nil]; exact Nat.zero_le _) hr
  exact ⟨m, hm.2, hread⟩

theorem FromServer.synAck_of {m : Message} (hm : FromServer L S m)
    (hf : m.flags = flagSyn ||| flagAck) :
    m.seqNum = L.serverSeq ∧ m.ackNum = L.num 1 ∧ m.connId = L.connId := by
  cases hm with
  | synAck => exact ⟨rfl, rfl, rfl⟩
  | dataAck _ _ => exact absurd hf (by dsimp only; decide)
  | finAck _ => exact absurd hf (by dsimp only; decide)

theorem FromServer.dataAck_of {m : Message} (hm : FromServer L S m) (hf : m.flags = flagAck) :
    ∃ k, k ≤ S.delivered ∧ m.ackNum = L.num (1 + k) := by
  cases hm with
  | synAck => exact absurd hf (by dsimp only; decide)
  | dataAck k hk => exact ⟨k, hk, rfl⟩
  | finAck _ => exact absurd hf (by dsimp only; decide)

theorem FromServer.finAck_of {m : Message} (hm : FromServer L S m)
    (hf : m.flags = flagFin ||| flagAck) : S.finSeen = true ∧ m.seqNum = L.serverSeq := by
  cases hm with
  | synAck => exact absurd hf (by dsimp only; decide)
  | dataAck _ _ => exact absurd hf (by dsimp only; decide)
  | finAck h => exact ⟨h, rfl⟩

theorem ClientAt.fail (haddr : c.serverAddr = addr) (accepted : S.accepted = true)
    {k : Nat} (hc : c.connection = L.connection k)
    (ended : S.closing = true → ReadToEnd L.input c.file) (room : L.Room S) (code : Int) :
    ClientAt L S addr (c.fail code) :=
  ⟨haddr, .done rfl (.inl rfl) accepted (by rw [Client.fail, hc]; rfl)
    (by rw [Client.fail, hc]; rfl) ended room⟩

theorem Sending.next (h : Sending L S x file) :
    x.gbn.nextseqnum.toNat = L.isn.toNat + 1 + S.sent := by
  have hn := h.represents.next
  rw [L.take_length S.sent_le] at hn
  exact hn

theorem Sending.room (h : Sending L S x file) : L.isn.toNat + 1 + S.sent < 2 ^ 32 := by
  rw [← h.next]
  exact x.gbn.nextseqnum.toNat_lt

/-- Timer and duplicate counter are no part of what a transfer stands for. -/
theorem Sending.timer (h : Sending L S x file) (timer : UInt64) (lastAck : UInt32) (dup : Nat) :
    Sending L S
      { x with
        gbn := { x.gbn with windowTimerMs := timer }
        lastAck := lastAck
        dupAckCount := dup }
      file :=
  ⟨h.represents.timer timer, h.acked, h.reading, h.ended⟩

theorem says_dataSends {a : Nat} {chunks : List Chunk}
    (hc : ∀ i chunk, chunks[i]? = some chunk →
      a + i < S.sent ∧ L.chunks[a + i]? = some chunk) :
    Says (dataSends e addr (L.connection 1) (L.isn.toNat + 1 + a) chunks)
      (fun dst m => dst = addr ∧ Onward L S m) := by
  intro o ho _
  obtain ⟨hdst, i, chunk, hi, hdata⟩ := mem_dataSends ho
  obtain ⟨hlt, hchunk⟩ := hc i chunk hi
  refine ⟨_, ⟨hdst, .data (a + i) chunk hlt hchunk⟩, ?_⟩
  have hnum : L.isn.toNat + 1 + a + i = L.isn.toNat + (1 + (a + i)) := by omega
  rw [hdata, hnum]
  rfl

theorem Sending.retransmit (h : Sending L S x file) (e : Env Addr) (addr : Addr) :
    Sending L S { x with gbn := (gbnRetransmitWindow e addr x.gbn).1 } file ∧
    Says (gbnRetransmitWindow e addr x.gbn).2 (fun dst m => dst = addr ∧ Onward L S m) := by
  constructor
  · obtain ⟨timer, ht⟩ := gbnRetransmitWindow_state e addr x.gbn
    rw [ht]
    exact h.timer timer x.lastAck x.dupAckCount
  · have hsub : L.isn.toNat + 1 + S.acked - (L.isn.toNat + 1) = S.acked := by omega
    rw [gbnRetransmitWindow_sends e addr h.represents, h.acked, hsub]
    apply says_dataSends
    intro i chunk hi
    rw [List.getElem?_drop, List.getElem?_take] at hi
    split_ifs at hi with hlt
    exact ⟨hlt, hi⟩

/-- What is read behind the first `n` chunks are the next chunks of the session. -/
theorem Link.next_chunks (L : Link) {n : Nat} (hn : n ≤ L.size) {chunks : List Chunk}
    {rest : InputFile} (hinput : L.input = (L.chunks.take n ++ chunks).map .bytes ++ rest) :
    L.chunks = (L.chunks.take n ++ chunks) ++ content rest ∧ n + chunks.length ≤ L.size ∧
    L.chunks.take (n + chunks.length) = L.chunks.take n ++ chunks := by
  have hlen := L.take_length hn
  have hchunks : L.chunks = (L.chunks.take n ++ chunks) ++ content rest := by
    conv_lhs => rw [Link.chunks, hinput]
    exact content_append _ _
  refine ⟨hchunks, ?_, ?_⟩
  · have hl := congrArg List.length hchunks
    rw [List.length_append, List.length_append, hlen] at hl
    exact (Nat.le_add_right _ _).trans_eq hl.symm
  · conv_lhs => rw [hchunks]
    exact List.take_left' (by rw [List.length_append, hlen])

theorem Sending.fill (h : Sending L S x file) (ho : S.opened = true)
    (heof : x.eofReached = false) (e : Env Addr) (addr : Addr) :
    ∃ (m : Nat) (hm : S.sent + m ≤ L.size), L.isn.toNat + 1 + (S.sent + m) < 2 ^ 32 ∧
      Says (gbnFillAndSendWindow e addr (L.connection 1) x.gbn file).sends
        (fun dst m' => dst = addr ∧ Onward L (S.send m ho hm) m') ∧
      ((gbnFillAndSendWindow e addr (L.connection 1) x.gbn file).result < 0 ∨
        Sending L (S.send m ho hm)
          { x with
            gbn := (gbnFillAndSendWindow e addr (L.connection 1) x.gbn file).state
            eofReached := decide
              ((gbnFillAndSendWindow e addr (L.connection 1) x.gbn file).result > 0) }
          (gbnFillAndSendWindow e addr (L.connection 1) x.gbn file).file) := by
  have hs := S.sent_le
  have hlen := L.take_length hs
  by_cases hmax : x.gbn.base.toNat + windowSize < 2 ^ 32
  · obtain ⟨chunks, rest, hread, hrep, hbase, hsends, hend⟩ :=
      gbnFillAndSendWindow_outcome e addr file h.represents hmax
    have hinput : L.input = (L.chunks.take S.sent ++ chunks).map .bytes ++ rest := by
      rw [List.map_append, List.append_assoc, ← hread]
      exact h.reading heof
    obtain ⟨hchunks, hsize, htake⟩ := L.next_chunks hs hinput
    have hacked := h.acked
    refine ⟨chunks.length, hsize, ?_, ?_, ?_⟩
    · have hnext := hrep.next
      rw [List.length_append, hlen] at hnext
      rw [← hnext]
      exact UInt32.toNat_lt _
    · rw [hsends, h.next]
      apply says_dataSends
      intro i chunk hi
      have hlt := (List.getElem?_eq_some_iff.mp hi).1
      refine ⟨Nat.add_lt_add_left hlt _, ?_⟩
      rw [hchunks, List.getElem?_append_left (by rw [List.length_append, hlen]; omega),
        List.getElem?_append_right (by rw [hlen]; omega), hlen, Nat.add_sub_cancel_left, hi]
    · rw [← htake] at hrep hinput
      cases hend with
      | full hr hf _ =>
        refine Or.inr ⟨hrep, by rw [hbase, hacked]; rfl, ?_, ?_⟩
        · intro _
          rw [hf]
          exact hinput
        · intro hbad
          rw [hr] at hbad
          exact absurd hbad (by dsimp only; decide)
      | eof hr hf hroom =>
        have hend' : L.chunks.take (S.sent + chunks.length) = L.chunks := by
          rw [htake]
          conv_rhs => rw [hchunks]
          rw [content_of_readChunk (Or.inl hf), List.append_nil]
        have hall : S.sent + chunks.length = L.size := by
          have hl := congrArg List.length hend'
          rw [L.take_length hsize] at hl
          exact hl
        have hnext := hrep.next
        rw [hend'] at hinput hnext
        refine Or.inr ⟨hrep, by rw [hbase, hacked]; rfl, ?_, ?_⟩
        · intro hbad
          rw [hr] at hbad
          exact absurd hbad (by dsimp only; decide)
        · intro _
          refine ⟨hall, ⟨rest, hinput, hf⟩, ?_⟩
          rw [hbase] at hroom
          simp only [Link.size]
          omega
      | error hr _ =>
        rw [hr]
        exact Or.inl (by decide)
  · have hw := gbnFillAndSendWindow_wrapped e addr file h.represents (Nat.not_lt.mp hmax)
    refine ⟨0, hs, h.room, ?_, Or.inr ?_⟩
    · rw [hw]
      exact Says.nil _
    · rw [hw]
      exact ⟨h.represents, h.acked, fun _ => h.reading heof, nofun⟩

theorem InTransfer.goOn (ht : InTransfer L S c) (hpeer : c.serverAddr = addr) {pc : ClientPc}
    (hpc : pc = .transfer ∨ ∃ ms, pc = .select ms) (h : Sending L S x file) (ms : UInt64) :
    ClientAt L S addr { c with pc := pc, xfer := some x, file := file, lastProgressMs := ms } :=
  ⟨hpeer, .transferring ⟨ht.state, ht.exit, ht.connection, ht.opened, ht.closing, ht.room⟩ hpc x
    rfl h⟩

theorem InTransfer.failed (ht : InTransfer L S c) (hpeer : c.serverAddr = addr)
    (code : Int) : ClientOutcome L S addr (c.fail code, []) S :=
  .same (.fail hpeer (S.accepted_of_opened ht.opened) ht.connection
    (fun hc => absurd hc (by rw [ht.closing]; decide))
    ⟨ht.room, fun hc => absurd hc (by rw [ht.closing]; decide)⟩ code) (Says.nil _)

theorem Sending.transferTimer (h : Sending L S x c.file) (ht : InTransfer L S c)
    (hpeer : c.serverAddr = addr) : ClientOutcome L S addr (c.transferTimer x e) S := by
  subst hpeer
  cases c.transferTimer_move x e with
  | empty hnext =>
    rw [hnext]
    exact .same (ht.goOn rfl (.inr ⟨_, rfl⟩) h c.lastProgressMs) (Says.nil _)
  | resends timer hnext =>
    have hr := (h.timer timer x.lastAck x.dupAckCount).retransmit e c.serverAddr
    rw [hnext]
    exact .same (ht.goOn rfl (.inl rfl) hr.1 c.lastProgressMs) hr.2
  | waits timer ms hnext =>
    have htimer := h.timer timer x.lastAck x.dupAckCount
    rw [hnext]
    exact .same (ht.goOn rfl (.inr ⟨_, rfl⟩) htimer c.lastProgressMs) (Says.nil _)

theorem Link.Room.of_closing {L : Link} {S : Session L.size}
    (h : L.isn.toNat + 2 + L.size < 2 ^ 32) :
    L.Room S :=
  ⟨by have hs := S.sent_le; omega, fun _ => h⟩

/-- Leaving the loop: all chunks are sent and acknowledged. -/
theorem Sending.transferDone (h : Sending L S x c.file) (ht : InTransfer L S c)
    (hpeer : c.serverAddr = addr) (heof : x.eofReached = true)
    (hempty : x.gbn.base = x.gbn.nextseqnum) :
    ∃ T, ClientOutcome L S addr (c.transferDone x, []) T := by
  obtain ⟨hall, hread, hroom⟩ := h.ended heof
  have hnext := h.next
  have hacked := h.acked
  rw [hempty] at hacked
  have hn : S.acked = L.size := by omega
  have hseq : x.gbn.nextseqnum = L.num (1 + L.size) := by
    apply UInt32.toNat_inj.mp
    rw [L.num_toNat (by omega)]
    omega
  refine ⟨S.close hn ht.opened, .single (.close S hn ht.opened), rfl, rfl, Or.inl, Or.inl, ?_,
    Says.nil _⟩
  refine ⟨hpeer, .finWait ⟨rfl, ht.exit, ?_, rfl, ?_, hread, hroom⟩ (.inl rfl)⟩
  · simp only [Client.transferDone, Client.goto, ht.connection, hseq, Link.connection]
  · cases hf : S.finished with
    | false => exact hf
    | true =>
      have hc := S.closing_of_finSeen (S.finSeen_of_finished hf)
      rw [ht.closing] at hc
      exact absurd hc (by decide)

theorem Sending.transferWait (h : Sending L S x c.file) (ht : InTransfer L S c)
    (hpeer : c.serverAddr = addr) : ∃ T, ClientOutcome L S addr (c.transferWait x e) T := by
  rw [Client.transferWait]
  split_ifs with hdone
  · exact h.transferDone ht hpeer hdone.1 hdone.2
  · exact ⟨S, h.transferTimer ht hpeer⟩

/-- Moves that no other part of the client's state has to follow come first. -/
theorem ClientOutcome.after {T U : Session L.size} {sends : List (Send Addr)}
    {next : Client Addr × List (Send Addr)} (hs : Session.Step S T)
    (hd : T.delivered = S.delivered) (hf : T.finSeen = S.finSeen) (ho : T.opened = S.opened)
    (hfin : T.finished = S.finished)
    (hsends : Says sends (fun dst m => dst = addr ∧ Onward L T m))
    (h : ClientOutcome L T addr next U) : ClientOutcome L S addr (next.1, sends ++ next.2) U := by
  refine ⟨.head hs h.steps, h.delivered.trans hd, h.finSeen.trans hf, ?_, ?_, h.client, ?_⟩
  · rw [← ho]
    exact h.opened
  · rw [← hfin]
    exact h.finished
  · refine Says.append (hsends.mono ?_) (h.sends.mono ?_)
    · intro dst m hm
      exact ⟨hm.1, Or.inr (Or.inl (hm.2.mono (Session.Steps.le h.steps)))⟩
    · intro dst m hsays
      obtain ⟨hdst, hm | hm | ⟨hT, hm⟩⟩ := hsays
      · exact ⟨hdst, Or.inl hm⟩
      · exact ⟨hdst, Or.inr (Or.inl hm)⟩
      · refine ⟨hdst, Or.inr (Or.inr ⟨?_, hm⟩)⟩
        rw [← Bool.not_eq_true] at hT ⊢
        exact fun hS => hT (hs.le.accepted hS)

theorem Sending.transferRound (h : Sending L S x c.file) (ht : InTransfer L S c)
    (hpeer : c.serverAddr = addr) :
    ∃ T, ClientOutcome L S addr (c.transferRound config x e) T := by
  subst hpeer
  rw [Client.transferRound]
  by_cases hloop : x.eofReached = false ∨ x.gbn.base < x.gbn.nextseqnum
  · rw [if_neg (not_not.mpr hloop)]
    by_cases hexp : c.expired config e = true
    · rw [if_pos hexp]
      exact ⟨S, ht.failed rfl exProtocol⟩
    · rw [if_neg hexp]
      by_cases heof : x.eofReached = false
      · obtain ⟨m, hm, hroom, hsends, hnext⟩ := h.fill ht.opened heof e c.serverAddr
        rw [← ht.connection] at hsends hnext
        have hstep := Session.Step.send S m ht.opened hm
        rw [if_pos heof]
        by_cases hneg : (gbnFillAndSendWindow e c.serverAddr c.connection x.gbn c.file).result < 0
        · simp only [if_pos hneg]
          refine ⟨S.send m ht.opened hm, .single hstep, rfl, rfl, Or.inl, Or.inl, ?_,
            hsends.mono (fun _ _ hm => ⟨hm.1, Or.inr (Or.inl hm.2)⟩)⟩
          exact (InTransfer.failed (S := S.send m ht.opened hm) (c := { c with
            file := (gbnFillAndSendWindow e c.serverAddr c.connection x.gbn c.file).file
            xfer := _ })
            ⟨ht.state, ht.exit, ht.connection, ht.opened, ht.closing, hroom⟩ rfl exIoErr).client
        · simp only [if_neg hneg]
          obtain ⟨T, hT⟩ := (hnext.resolve_left hneg).transferWait (e := e)
            (c := { c with
              file := (gbnFillAndSendWindow e c.serverAddr c.connection x.gbn c.file).file })
            ⟨ht.state, ht.exit, ht.connection, ht.opened, ht.closing, hroom⟩ rfl
          exact ⟨T, hT.after hstep rfl rfl rfl rfl hsends⟩
      · rw [if_neg heof]
        exact h.transferWait ht rfl
  · rw [if_pos hloop]
    rw [not_or, Bool.not_eq_false] at hloop
    have hle := UInt32.le_iff_toNat_le.mpr h.represents.upper
    exact h.transferDone ht rfl hloop.1 (UInt32.le_antisymm hle (UInt32.not_lt.mp hloop.2))

/-- A data acknowledgement inside the window moves `base` to the number of chunks it covers. -/
theorem Sending.ack (h : Sending L S x file) {k : Nat} (hk : k ≤ S.delivered)
    (hin : x.gbn.base < L.num (1 + k) ∧ L.num (1 + k) ≤ x.gbn.nextseqnum) :
    ∃ hack : S.acked ≤ k, Sending L (S.ack k hack hk)
      { x with gbn := (gbnProcessAck x.gbn (L.num (1 + k))).1 } file := by
  have hroom := h.room
  have hsent := hk.trans S.delivered_le
  have hnum : (L.num (1 + k)).toNat = L.isn.toNat + 1 + k := by
    rw [L.num_toNat (by omega)]
    omega
  have hacked := h.acked
  have hlt := UInt32.lt_iff_toNat_lt.mp hin.1
  obtain ⟨_, hbase, _, _, hrep⟩ := gbnProcessAck_inside h.represents _ hin.1 hin.2
  refine ⟨by omega, hrep, ?_, h.reading, h.ended⟩
  rw [hbase, hnum]
  rfl

theorem Sending.transferAck (h : Sending L S x c.file) (ht : InTransfer L S c)
    (hpc : c.pc = .transfer) (hpeer : c.serverAddr = addr) {k : Nat} (hk : k ≤ S.delivered) :
    ∃ T, ClientOutcome L S addr (c.transferAck x e (L.num (1 + k))) T := by
  subst hpeer
  rw [Client.transferAck]
  by_cases hin : x.gbn.base < L.num (1 + k) ∧ L.num (1 + k) ≤ x.gbn.nextseqnum
  · have htaken := (gbnProcessAck_inside h.represents _ hin.1 hin.2).1
    obtain ⟨hack, hnext⟩ := h.ack hk hin
    simp only [if_pos htaken]
    refine ⟨S.ack k hack hk, .single (.ack S k hack hk), rfl, rfl, Or.inl, Or.inl, ?_, Says.nil _⟩
    exact InTransfer.goOn (S := S.ack k hack hk) ⟨ht.state, ht.exit, ht.connection, ht.opened,
      ht.closing, ht.room⟩ rfl (.inl hpc) (hnext.timer _ _ 0) _
  · simp only [gbnProcessAck_outside _ hin, Bool.false_eq_true, if_false]
    refine ⟨S, ?_⟩
    have hresent := h.retransmit e c.serverAddr
    split_ifs with hlast hthird
    · exact .same (ht.goOn rfl (.inl hpc) (hresent.1.timer e.restartMs x.lastAck 0)
        c.lastProgressMs) hresent.2
    · exact .same (ht.goOn rfl (.inl hpc) (h.timer x.gbn.windowTimerMs x.lastAck _)
        c.lastProgressMs) (Says.nil _)
    · exact .same (ht.goOn rfl (.inl hpc) (h.timer x.gbn.windowTimerMs _ 1)
        c.lastProgressMs) (Says.nil _)

theorem Sending.transferReady (h : Sending L S x c.file) (ht : InTransfer L S c)
    (hx : c.xfer = some x) (hpeer : c.serverAddr = addr) (hears : HearsServer L S addr e) :
    ∃ T, ClientOutcome L S addr (c.transferReady x e) T := by
  have hstay : ClientAt L S addr { c with serverAddr := addr, pc := .transfer } := by
    subst hpeer
    refine ⟨rfl, .transferring ⟨ht.state, ht.exit, ht.connection, ht.opened, ht.closing, ht.room⟩
      (.inl rfl) x hx h⟩
  rw [Client.transferReady]
  by_cases h0 : waitForPacket e.selectResult = 0
  · rw [if_pos h0]
    subst hpeer
    exact ⟨S, .same hstay (Says.nil _)⟩
  · rw [if_neg h0]
    by_cases hneg : waitForPacket e.selectResult < 0
    · rw [if_pos hneg]
      exact ⟨S, ht.failed hpeer exOsErr⟩
    · rw [if_neg hneg, recvPacket_addr (by rw [hpeer]; exact hears.server), hpeer]
      cases hr : (recvPacket e addr).2 with
      | error code => exact ⟨S, .same hstay (Says.nil _)⟩
      | ok received =>
        by_cases hack : received.1.flags = flagAck ∧ received.1.connId = c.connection.connId
        · have hrecv : recvPacket e addr = (addr, .ok (received.1, received.2)) := by
            rw [recvPacket_addr hears.server, hr]
          obtain ⟨m, hm, hread⟩ := hears.recvServer hrecv
          obtain ⟨k, hk, hnum⟩ := hm.dataAck_of (hread.flags.symm.trans hack.1)
          simp only [if_pos hack, hread.ackNum, hnum]
          exact Sending.transferAck (c := { c with serverAddr := addr, pc := .transfer }) h
            ⟨ht.state, ht.exit, ht.connection, ht.opened, ht.closing, ht.room⟩ rfl rfl hk
        · simp only [if_neg hack]
          exact ⟨S, .same hstay (Says.nil _)⟩

/-- Taking the SYN+ACK: from here on the client has the numbers of the session. -/
theorem Opening.accept (h : Opening L.isn L.input addr c) (hS : S.accepted = false)
    (exit : c.exitCode = exOk) (hc : c.connection = ⟨L.isn, 0, 0⟩) {hd : RDTHeader}
    (htake : c.TakesSynAck hd) {m : Message} (hm : FromServer L S m) {payload : List UInt8}
    (hread : m.Read hd payload) : ∃ T, ClientOutcome L S addr (c.synSentPacket e hd) T := by
  obtain ⟨hseq, _, hconn⟩ := hm.synAck_of (hread.flags.symm.trans htake.1)
  obtain ⟨hopened, hsent, hclosing, hfin⟩ := S.untouched hS
  have hnew : (⟨c.connection.seqNum + 1, hd.seqNum + 1, hd.connId⟩ : ConnectionState) =
      L.connection 1 := by
    rw [hc, hread.seqNum, hread.connId, hseq, hconn, L.isn_succ]
    rfl
  have haccept := Session.Step.accept S
  have hroom : L.isn.toNat + 1 + S.sent < 2 ^ 32 := by
    have hlt := L.isn_lt
    simp only [moduler] at hlt
    omega
  rw [Client.TakesSynAck] at htake
  rw [Client.synSentPacket, if_pos htake, hnew]
  dsimp only
  split_ifs with hs
  · refine ⟨S.accept.enter rfl, .tail (.single haccept) (.enter _ rfl), rfl, rfl,
      fun _ => Or.inr rfl, Or.inl, ?_, ?_⟩
    · exact ⟨h.peer, .entering ⟨rfl, exit, rfl, rfl, hclosing, hroom⟩ rfl h.file hsent h.xfer⟩
    · exact Says.single _ (fun _ => ⟨h.peer, Or.inr (Or.inr ⟨hS, rfl, rfl⟩)⟩) rfl
  · refine ⟨S.accept, .single haccept, rfl, rfl, Or.inl, Or.inl, ?_, ?_⟩
    · rw [← Bool.not_eq_true] at hclosing
      exact ⟨h.peer, .done rfl (.inl rfl) rfl rfl rfl (fun hcl => absurd hcl hclosing)
        ⟨hroom, fun hcl => absurd hcl hclosing⟩⟩
    · exact Says.unsent hs

/-- The window `handle_established` starts with. -/
theorem Sending.start (hfile : file = L.input) (hsent : S.sent = 0) :
    Sending L S ⟨.start (L.num 1), false, 0, 0⟩ file := by
  have hlt := L.isn_lt
  simp only [moduler] at hlt
  have hnum : (L.num 1).toNat = L.isn.toNat + 1 := L.num_toNat (by omega)
  have hacked : S.acked = 0 := by
    have h1 := S.acked_le
    have h2 := S.delivered_le
    omega
  refine ⟨?_, ?_, ?_, nofun⟩
  · rw [hsent, ← hnum]
    exact .start _ _
  · rw [hacked]
    exact hnum
  · intro _
    rw [hsent, hfile]
    rfl

theorem InTransfer.enter (ht : InTransfer L S c) (hpeer : c.serverAddr = addr)
    (hfile : c.file = L.input) (hsent : S.sent = 0) :
    ClientOutcome L S addr (c.handleEstablished config e) S := by
  have hstart : Sending L S ⟨.start (L.num 1), false, 0, 0⟩ c.file := .start hfile hsent
  rw [Client.handleEstablished]
  split_ifs
  · exact ht.failed hpeer exProtocol
  · have hseq : c.connection.seqNum = L.num 1 := by rw [ht.connection]; rfl
    subst hpeer
    rw [hseq]
    exact .same (ht.goOn rfl (.inl rfl) hstart c.lastProgressMs) (Says.nil _)

theorem InFinWait.failed (hw : InFinWait L S c) (hpeer : c.serverAddr = addr) (code : Int) :
    ClientAt L S addr (c.fail code) :=
  .fail hpeer (S.accepted_of_opened (S.opened_of_closing hw.closing)) hw.connection
    (fun _ => hw.ended) (.of_closing hw.room) code

theorem InFinWait.handleFinWait (hw : InFinWait L S c) (hpeer : c.serverAddr = addr) :
    ClientOutcome L S addr (c.handleFinWait config e) S := by
  rw [Client.handleFinWait]
  dsimp only
  split_ifs with hexp hsent
  · exact .same (hw.failed hpeer _) (Says.nil _)
  · refine .same ⟨hpeer, .finWait ⟨hw.state, hw.exit, hw.connection, hw.closing, hw.finished,
      hw.ended, hw.room⟩ (.inr ⟨_, rfl⟩)⟩ ?_
    refine Says.single _ (fun _ => ⟨hpeer, .fin hw.closing⟩) ?_
    simp only [Client.control, hw.connection]
    rfl
  · exact .same (hw.failed hpeer _) (Says.unsent hsent)

theorem InFinWait.finWaitReady (hw : InFinWait L S c) (hpeer : c.serverAddr = addr)
    (hears : HearsServer L S addr e) :
    ∃ T, ClientOutcome L S addr (c.finWaitReady config e) T := by
  have hstay : ClientAt L S addr (c.goto .finWait) :=
    ⟨hpeer, .finWait ⟨rfl, hw.exit, hw.connection, hw.closing, hw.finished, hw.ended, hw.room⟩
      (.inl rfl)⟩
  rw [Client.finWaitReady]
  split_ifs with h0 hexp hneg
  · exact ⟨S, .same (hw.failed hpeer _) (Says.nil _)⟩
  · exact ⟨S, .same hstay (Says.nil _)⟩
  · exact ⟨S, .same (hw.failed hpeer _) (Says.nil _)⟩
  · rcases Client.receive_cases (by rw [hpeer]; exact hears.server)
      (fun c hd => c.finWaitPacket e hd) with hr | ⟨hd, payload, hrecv, hr⟩
    · rw [hr, hw.state]
      exact ⟨S, .same hstay (Says.nil _)⟩
    · rw [hr, Client.finWaitPacket]
      by_cases htake : hd.flags = flagFin ||| flagAck ∧ hd.connId = c.connection.connId ∧
          hd.ackNum = c.connection.seqNum + 1
      · obtain ⟨m, hm, hread⟩ := hears.recvServer hrecv
        obtain ⟨hfin, hseq⟩ := hm.finAck_of (hread.flags.symm.trans htake.1)
        have hnew : (⟨c.connection.seqNum + 1, hd.seqNum + 1, c.connection.connId⟩ :
            ConnectionState) = L.connection (2 + L.size) := by
          rw [hw.connection, hread.seqNum, hseq]
          simp only [Link.connection, L.num_succ]
          rw [show 1 + L.size + 1 = 2 + L.size by omega]
        simp only [if_pos htake, hnew]
        split_ifs with hsent
        · refine ⟨S.finish hfin, .single (.finish S hfin), rfl, rfl, Or.inl,
            fun _ => Or.inr rfl, ?_, ?_⟩
          · exact ⟨hpeer, .timeWait ⟨rfl, hw.exit, rfl, rfl, hw.ended, hw.room⟩ (.inl rfl)⟩
          · exact Says.single _ (fun _ => ⟨hpeer, Or.inr (Or.inl (.lastAck rfl))⟩) rfl
        · exact ⟨S, .same ⟨hpeer, .done rfl (.inl rfl) (S.accepted_of_opened
            (S.opened_of_closing hw.closing)) rfl rfl (fun _ => hw.ended) (.of_closing hw.room)⟩
            (Says.unsent hsent)⟩
      · rw [if_neg htake]
        exact ⟨S, .same hstay (Says.nil _)⟩

theorem InTimeWait.failed (hw : InTimeWait L S c) (hpeer : c.serverAddr = addr) (code : Int) :
    ClientAt L S addr (c.fail code) :=
  .fail hpeer (S.accepted_of_opened (S.opened_of_closing
    (S.closing_of_finSeen (S.finSeen_of_finished hw.finished)))) hw.connection
    (fun _ => hw.ended) (.of_closing hw.room) code

theorem InTimeWait.goOn (hw : InTimeWait L S c) (hpeer : c.serverAddr = addr) {pc : ClientPc}
    (hpc : pc.Waiting) (ms : UInt64) :
    ClientAt L S addr { c with state := .timeWait, pc := pc, lastProgressMs := ms } :=
  ⟨hpeer, .timeWait ⟨rfl, hw.exit, hw.connection, hw.finished, hw.ended, hw.room⟩ hpc⟩

theorem InTimeWait.timeWaitReady (hw : InTimeWait L S c) (hpeer : c.serverAddr = addr)
    (hears : HearsServer L S addr e) : ClientOutcome L S addr (c.timeWaitReady e) S := by
  have hstay := hw.goOn hpeer (.inl rfl) c.lastProgressMs
  rw [Client.timeWaitReady]
  split_ifs with h0 hneg hstop
  · exact .same (hw.failed hpeer c.exitCode) (Says.nil _)
  · exact .same (hw.failed hpeer _) (Says.nil _)
  · exact .same (hw.failed hpeer _) (Says.nil _)
  · rcases Client.receive_cases (by rw [hpeer]; exact hears.server)
      (fun c hd => c.timeWaitPacket e hd) with hr | ⟨hd, payload, hrecv, hr⟩
    · rw [hr, hw.state]
      exact .same hstay (Says.nil _)
    · rw [hr, Client.timeWaitPacket]
      dsimp only
      have hack : (c.control e flagAck).data =
          (Message.mk (L.num (2 + L.size)) (L.serverSeq + 1) L.connId flagAck []).bytes := by
        simp only [Client.control, hw.connection]
        rfl
      split_ifs with htake hsent
      · exact .same (hw.goOn hpeer (.inl rfl) _)
          (Says.single _ (fun _ => ⟨hpeer, .lastAck hw.finished⟩) hack)
      · exact .same (hw.failed hpeer _) (Says.unsent hsent)
      · exact .same hstay (Says.nil _)

/-- A client that has returned to its loop takes its next turn. -/
theorem ClientAt.runClient (h : ClientAt L S addr c) (hpc : c.pc = .fsm)
    (hacc : S.accepted = true) : ClientOutcome L S addr (c.runClient config e) S := by
  cases h.phase with
  | opening hS _ => rw [hacc] at hS; exact Bool.noConfusion hS
  | entering ht _ hfile hsent _ =>
    rw [Client.runClient_established ht.state]
    split_ifs
    · exact ht.failed h.peer exSoftware
    · exact ht.enter h.peer hfile hsent
  | transferring _ hp _ _ _ =>
    rw [hpc] at hp
    exact absurd hp (by simp)
  | finWait hw _ =>
    rw [Client.runClient_finWait hw.state]
    split_ifs
    · exact .same (hw.failed h.peer exSoftware) (Says.nil _)
    · exact hw.handleFinWait h.peer
  | timeWait hw _ =>
    rw [Client.runClient_timeWait hw.state]
    split_ifs
    · exact .same (hw.failed h.peer exSoftware) (Says.nil _)
    · have hnext : InTimeWait L S { c with pc := .select timeWaitDurationMs } :=
        ⟨hw.state, hw.exit, hw.connection, hw.finished, hw.ended, hw.room⟩
      exact .same ⟨h.peer, .timeWait hnext (.inr ⟨_, rfl⟩)⟩ (Says.nil _)
  | done hs _ accepted hack hconn hended hroom =>
    rw [Client.runClient_done hs]
    exact .same ⟨h.peer, .done hs (.inr ⟨_, rfl⟩) accepted hack hconn hended hroom⟩ (Says.nil _)

theorem ClientAt.room (h : ClientAt L S addr c) : L.Room S := by
  have hlt := L.isn_lt
  simp only [moduler] at hlt
  cases h.phase with
  | opening hS _ =>
    obtain ⟨_, hsent, hclosing, _⟩ := S.untouched hS
    exact ⟨by omega, fun hc => absurd hc (by simp [hclosing])⟩
  | entering ht _ _ _ _ => exact ⟨ht.room, fun hc => absurd hc (by simp [ht.closing])⟩
  | transferring ht _ _ _ _ => exact ⟨ht.room, fun hc => absurd hc (by simp [ht.closing])⟩
  | finWait hw _ => exact .of_closing hw.room
  | timeWait hw _ => exact .of_closing hw.room
  | done _ _ _ _ _ _ hroom => exact hroom

/-- One activation of a client refines moves of its session. -/
theorem ClientAt.step (h : ClientAt L S addr c)
    (hrand : L.isn = UInt32.ofNat (e.rand 0 % moduler)) (hears : HearsServer L S addr e) :
    ∃ T, ClientOutcome L S addr (c.step config e) T := by
  by_cases hacc : S.accepted = true
  · cases hpc : c.pc with
    | fsm => rw [Client.step_fsm hpc]; exact ⟨S, h.runClient hpc hacc⟩
    | returned code => rw [Client.step_returned hpc]; exact ⟨S, .same h (Says.nil _)⟩
    | transfer =>
      cases h.phase with
      | opening hS _ => rw [hacc] at hS; exact Bool.noConfusion hS
      | transferring ht _ x hx hs =>
        rw [Client.step_transfer hpc hx]
        exact hs.transferRound ht h.peer
      | entering _ hp _ _ _ => rw [hpc] at hp; exact absurd hp (by simp)
      | finWait _ hp => rw [hpc] at hp; exact absurd hp (by simp [ClientPc.Waiting])
      | timeWait _ hp => rw [hpc] at hp; exact absurd hp (by simp [ClientPc.Waiting])
      | done _ hp _ _ _ _ _ => rw [hpc] at hp; exact absurd hp (by simp [ClientPc.Halted])
    | select ms =>
      rw [Client.step_select hpc]
      cases h.phase with
      | opening hS _ => rw [hacc] at hS; exact Bool.noConfusion hS
      | transferring ht _ x hx hs =>
        rw [Client.resume_established ht.state hx]
        exact hs.transferReady ht hx h.peer hears
      | entering _ hp _ _ _ => rw [hpc] at hp; exact absurd hp (by simp)
      | finWait hw _ =>
        rw [Client.resume_finWait hw.state]
        exact hw.finWaitReady h.peer hears
      | timeWait hw _ =>
        rw [Client.resume_timeWait hw.state]
        exact ⟨S, hw.timeWaitReady h.peer hears⟩
      | done _ hp _ _ _ _ _ => rw [hpc] at hp; exact absurd hp (by simp [ClientPc.Halted])
  · rw [Bool.not_eq_true] at hacc
    cases h.phase with
    | opening _ ho =>
      have hstep : OpeningOutcome L.isn L.input addr c e (c.step config e) :=
        ho.step hrand hears.server
      rcases hstep with
        ⟨hnext, hsends⟩ | ⟨hd, payload, exit, hc, hrecv, htake, hr⟩
      · refine ⟨S, .refl, rfl, rfl, Or.inl, Or.inl, ⟨hnext.peer, .opening hacc hnext⟩, ?_⟩
        exact hsends.mono (fun _ _ hm => ⟨hm.1, Or.inl hm.2⟩)
      · obtain ⟨m, hm, hread⟩ := hears.recvServer hrecv
        rw [hr]
        exact ho.accept hacc exit hc htake hm hread
    | entering ht _ _ _ _ => exact absurd (S.accepted_of_opened ht.opened) (by simp [hacc])
    | transferring ht _ _ _ _ => exact absurd (S.accepted_of_opened ht.opened) (by simp [hacc])
    | finWait hw _ =>
      exact absurd (S.accepted_of_opened (S.opened_of_closing hw.closing)) (by simp [hacc])
    | timeWait hw _ =>
      exact absurd (S.accepted_of_opened (S.opened_of_closing
        (S.closing_of_finSeen (S.finSeen_of_finished hw.finished)))) (by simp [hacc])
    | done _ _ accepted _ _ _ _ => exact absurd accepted (by simp [hacc])

end Session

end ReliableUdp
