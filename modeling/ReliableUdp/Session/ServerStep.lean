import ReliableUdp.Session.ClientStep

namespace ReliableUdp

variable {Addr : Type}

/-- The numbers of the server of a session that expects the client's number `k`. -/
def Link.serverConnection (L : Link) (k : Nat) : ConnectionState :=
  ⟨L.serverSeq, L.num k, L.connId⟩

/-- What a server has been able to write of the chunk that its output broke off in. -/
def BrokenOff (L : Link) (S : Session L.size) (whole : Bool) (rest : List UInt8) : Prop :=
  rest ≠ [] → whole = false ∧ S.finSeen = false ∧
    ∃ chunk, L.chunks[S.delivered]? = some chunk ∧ rest <+: chunk.val

/-- In HANDSHAKE. -/
structure InHandshake (L : Link) (S : Session L.size) (s : Server Addr) : Prop where
  state : s.state = .handshake
  exit : s.exitCode = exOk
  connection : s.connection = L.serverConnection 1
  delivered : S.delivered = 0
  finSeen : S.finSeen = false
  output : s.output = []

/-- In ESTABLISHED. -/
structure Receiving (L : Link) (S : Session L.size) (s : Server Addr) : Prop where
  state : s.state = .established
  exit : s.exitCode = exOk
  connection : s.connection = L.serverConnection (1 + S.delivered)
  opened : S.opened = true
  finSeen : S.finSeen = false
  output : s.output = joinChunks (L.chunks.take S.delivered)

/-- In LAST_ACK. -/
structure Closing (L : Link) (S : Session L.size) (s : Server Addr) : Prop where
  state : s.state = .lastAck
  exit : s.exitCode = exOk
  connection : s.connection = L.serverConnection (2 + L.size)
  finSeen : S.finSeen = true
  output : s.output = joinChunks L.chunks

/-- The server's side of the refinement: how its state stands for a session. -/
inductive ServerAt (L : Link) (whole : Bool) (S : Session L.size) (s : Server Addr) : Prop where
  | handshake (phase : InHandshake L S s) (pc : s.pc.Waiting)
  | established (phase : Receiving L S s) (pc : s.pc.Waiting)
  | lastAck (phase : Closing L S s) (pc : s.pc.Waiting)
  | done (state : s.state = .done) (pc : s.pc.Halted)
      (seqNum : s.connection.seqNum = L.serverSeq) (connId : s.connection.connId = L.connId)
      (rest : List UInt8) (output : s.output = joinChunks (L.chunks.take S.delivered) ++ rest)
      (broken : BrokenOff L S whole rest)

/-- A move of the server leaves the client's part of the session alone. -/
structure Session.SameClient {n : Nat} (S T : Session n) : Prop where
  accepted : T.accepted = S.accepted
  opened : T.opened = S.opened
  sent : T.sent = S.sent
  acked : T.acked = S.acked
  closing : T.closing = S.closing
  finished : T.finished = S.finished

/-- The moves a server makes for a session in one activation, and the packets it sends. -/
structure ServerOutcome (L : Link) (whole : Bool) (S : Session L.size)
    (next : Server Addr × List (Send Addr)) (T : Session L.size) : Prop where
  steps : Relation.ReflTransGen Session.Step S T
  client : S.SameClient T
  server : ServerAt L whole T next.1
  sends : Says next.2 (fun _ m => FromServer L T m)

abbrev HearsClients (L : Link) (S : Session L.size) (e : Env Addr) : Prop :=
  Hears e (fun _ m => (∃ isn, m = synMessage isn) ∨ FromClient L S m)

section Server

variable {L : Link} {whole : Bool} {S : Session L.size} {s : Server Addr} {config : AppConfig}
  {e : Env Addr}

theorem Hears.recvClient (h : HearsClients L S e) {a src : Addr} {hd : RDTHeader}
    {payload : List UInt8} (hr : recvPacket e a = (src, .ok (hd, payload)))
    (hf : hd.flags ≠ flagSyn) : ∃ m, FromClient L S m ∧ m.Read hd payload := by
  have hlen : ∀ (src : Addr) m, ((∃ isn, m = synMessage isn) ∨ FromClient L S m) →
      m.payload.length ≤ maxPacketSize - headerSize := by
    intro _ m hcase
    rcases hcase with ⟨isn, rfl⟩ | hm
    · exact Nat.zero_le _
    · exact hm.payload_le
  obtain ⟨m, ⟨isn, rfl⟩ | hm, hread⟩ := h.recv hlen hr
  · exact absurd hread.flags hf
  · exact ⟨m, hm, hread⟩

theorem FromClient.opened {m : Message} (hm : FromClient L S m) : S.opened = true := by
  rcases hm with h | ⟨_, hm⟩
  · exact h
  · cases hm with
    | data j _ hj _ => exact S.opened_of_sent (Nat.zero_lt_of_lt hj)
    | fin h => exact S.opened_of_closing h
    | lastAck h => exact S.opened_of_closing (S.closing_of_finSeen (S.finSeen_of_finished h))

theorem FromClient.fin_of {m : Message} (hm : FromClient L S m) (hf : m.flags = flagFin) :
    S.closing = true := by
  rcases hm with h | ⟨_, hm⟩
  · exact absurd hf (by dsimp only [Link.handshakeAck]; decide)
  · cases hm with
    | data _ _ _ _ => exact absurd hf (by dsimp only; decide)
    | fin h => exact h
    | lastAck _ => exact absurd hf (by dsimp only; decide)

theorem FromClient.data_of {m : Message} (hm : FromClient L S m) (hf : m.flags = flagData) :
    ∃ j chunk, j < S.sent ∧ L.chunks[j]? = some chunk ∧ m.seqNum = L.num (1 + j) ∧
      m.payload = chunk.val := by
  rcases hm with h | ⟨_, hm⟩
  · exact absurd hf (by dsimp only [Link.handshakeAck]; decide)
  · cases hm with
    | data j chunk hj hc => exact ⟨j, chunk, hj, hc, rfl, rfl⟩
    | fin _ => exact absurd hf (by dsimp only; decide)
    | lastAck _ => exact absurd hf (by dsimp only; decide)

/-- Only the sequence number tells the last ACK from that of the handshake. -/
theorem FromClient.lastAck_of {m : Message} (hm : FromClient L S m) (hf : m.flags = flagAck)
    (hseq : m.seqNum = L.num (2 + L.size)) (hroom : L.isn.toNat + 2 + L.size < 2 ^ 32) :
    S.finished = true := by
  rcases hm with _ | ⟨_, hm⟩
  · have h := L.num_inj (by omega) (by omega) hseq
    omega
  · cases hm with
    | data _ _ _ _ => exact absurd hf (by dsimp only; decide)
    | fin _ => exact absurd hf (by dsimp only; decide)
    | lastAck h => exact h

theorem Session.SameClient.refl (S : Session L.size) : S.SameClient S :=
  ⟨rfl, rfl, rfl, rfl, rfl, rfl⟩

theorem ServerOutcome.same {next : Server Addr × List (Send Addr)} (h : ServerAt L whole S next.1)
    (hs : Says next.2 (fun _ m => FromServer L S m)) : ServerOutcome L whole S next S :=
  ⟨.refl, .refl S, h, hs⟩

/-- A server that stops with everything it has written so far. -/
theorem ServerAt.halt {s' : Server Addr} (hs : s'.state = .done) (hpc : s'.pc.Halted)
    (hseq : s'.connection.seqNum = L.serverSeq) (hconn : s'.connection.connId = L.connId)
    (hout : s'.output = joinChunks (L.chunks.take S.delivered)) : ServerAt L whole S s' :=
  .done hs hpc hseq hconn [] (by rw [hout, List.append_nil]) (fun h => absurd rfl h)

/-- What has been written when everything has been delivered. -/
theorem Closing.output_take (h : Closing L S s) :
    s.output = joinChunks (L.chunks.take S.delivered) := by
  rw [(S.delivered_of_closing (S.closing_of_finSeen h.finSeen)).2.1, h.output]
  exact congrArg joinChunks List.take_length.symm

theorem ServerAt.fail (h : ServerAt L whole S s) (code : Int) :
    ServerAt L whole S (s.fail code) := by
  have hconn (k : Nat) (hc : s.connection = L.serverConnection k)
      (hout : s.output = joinChunks (L.chunks.take S.delivered)) :
      ServerAt L whole S (s.fail code) :=
    .halt rfl (.inl rfl) (by rw [Server.fail, hc]; rfl) (by rw [Server.fail, hc]; rfl) hout
  cases h with
  | handshake hp _ => exact hconn 1 hp.connection (by rw [hp.delivered, hp.output]; rfl)
  | established hp _ => exact hconn _ hp.connection hp.output
  | lastAck hp _ => exact hconn _ hp.connection hp.output_take
  | done hs _ hseq hid rest hout hb => exact .done rfl (.inl rfl) hseq hid rest hout hb

theorem InHandshake.at (h : InHandshake L S s) {pc : ServerPc} (hpc : pc.Waiting) (a : Addr)
    (ms : UInt64) : ServerAt L whole S
      { s with state := .handshake, pc := pc, clientAddr := a, lastProgressMs := ms } :=
  .handshake ⟨rfl, h.exit, h.connection, h.delivered, h.finSeen, h.output⟩ hpc

theorem Receiving.at (h : Receiving L S s) {pc : ServerPc} (hpc : pc.Waiting) (a : Addr)
    (ms : UInt64) : ServerAt L whole S
      { s with state := .established, pc := pc, clientAddr := a, lastProgressMs := ms } :=
  .established ⟨rfl, h.exit, h.connection, h.opened, h.finSeen, h.output⟩ hpc

theorem Closing.at (h : Closing L S s) {pc : ServerPc} (hpc : pc.Waiting) (a : Addr)
    (ms : UInt64) : ServerAt L whole S
      { s with state := .lastAck, pc := pc, clientAddr := a, lastProgressMs := ms } :=
  .lastAck ⟨rfl, h.exit, h.connection, h.finSeen, h.output⟩ hpc

/-- Address and watchdog are no part of what the server stands for. -/
theorem ServerAt.goOn (h : ServerAt L whole S s) (hs : s.state ≠ .done) {pc : ServerPc}
    (hpc : pc.Waiting) (a : Addr) (ms : UInt64) :
    ServerAt L whole S { s with pc := pc, clientAddr := a, lastProgressMs := ms } := by
  cases h with
  | handshake hp _ => have hn : ServerAt L whole S _ := hp.at hpc a ms; rwa [← hp.state] at hn
  | established hp _ => have hn : ServerAt L whole S _ := hp.at hpc a ms; rwa [← hp.state] at hn
  | lastAck hp _ => have hn : ServerAt L whole S _ := hp.at hpc a ms; rwa [← hp.state] at hn
  | done hst _ _ _ _ _ _ => exact absurd hst hs

theorem ServerAt.runServer (h : ServerAt L whole S s) :
    ServerOutcome L whole S (s.runServer config e) S := by
  by_cases hs : s.state = .done
  · rw [Server.runServer_done hs]
    refine .same ?_ (Says.nil _)
    cases h with
    | handshake hp _ => exact absurd (hp.state.symm.trans hs) (by decide)
    | established hp _ => exact absurd (hp.state.symm.trans hs) (by decide)
    | lastAck hp _ => exact absurd (hp.state.symm.trans hs) (by decide)
    | done hst _ hseq hconn rest hout hb => exact .done hst (.inr ⟨_, rfl⟩) hseq hconn rest hout hb
  · rw [Server.runServer_running hs, Server.enter]
    split_ifs
    · exact .same (h.fail _) (Says.nil _)
    · exact .same (h.fail _) (Says.nil _)
    · exact .same (h.goOn hs (.inr ⟨_, rfl⟩) s.clientAddr s.lastProgressMs) (Says.nil _)

/-- Sending a reply leads to `next` or to the end of the process. -/
theorem ServerOutcome.reply {T : Session L.size} {next : Server Addr}
    (hsteps : Relation.ReflTransGen Session.Step S T) (hsame : S.SameClient T)
    (hnext : ServerAt L whole T next) (hfail : ServerAt L whole T (s.fail exOsErr))
    {flags : UInt8} (hm : FromServer L T
      ⟨s.connection.seqNum, s.connection.ackNum, s.connection.connId, flags, []⟩) :
    ServerOutcome L whole S (s.reply e flags next) T := by
  have hsends : Says [s.control e flags] (fun _ m => FromServer L T m) :=
    Says.single _ (fun _ => hm) rfl
  rw [Server.reply]
  split_ifs
  · exact ⟨hsteps, hsame, hnext, hsends⟩
  · exact ⟨hsteps, hsame, hfail, hsends⟩

/-- The part that the handlers before `handle_last_ack` share. -/
theorem ServerAt.ready (h : ServerAt L whole S s) (hs : s.state ≠ .done)
    {handle : Server Addr → RDTHeader → List UInt8 → Server Addr × List (Send Addr)}
    (hh : ∀ src hd payload, recvPacket e s.clientAddr = (src, .ok (hd, payload)) →
      ∃ T, ServerOutcome L whole S (handle { s with clientAddr := src } hd payload) T) :
    ∃ T, ServerOutcome L whole S (s.ready config e handle) T := by
  rw [Server.ready]
  split_ifs with h0 hexp hneg
  · exact ⟨S, .same (h.fail _) (Says.nil _)⟩
  · exact ⟨S, .same (h.goOn hs (.inl rfl) s.clientAddr s.lastProgressMs) (Says.nil _)⟩
  · exact ⟨S, .same (h.fail _) (Says.nil _)⟩
  · rw [Server.receive]
    cases hr : (recvPacket e s.clientAddr).2 with
    | error code => exact ⟨S, .same (h.goOn hs (.inl rfl) _ s.lastProgressMs) (Says.nil _)⟩
    | ok received => exact hh _ received.1 received.2 (by rw [← hr])

/-- Both ways out of HANDSHAKE leave the numbers as they are. -/
theorem InHandshake.handshakePacket (h : InHandshake L S s) (hears : HearsClients L S e)
    {src : Addr} {hd : RDTHeader} {payload : List UInt8}
    (hr : recvPacket e s.clientAddr = (src, .ok (hd, payload))) :
    ∃ T, ServerOutcome L whole S ({ s with clientAddr := src }.handshakePacket e hd) T := by
  have hstay : ServerAt L whole S ({ s with clientAddr := src }.goto .handshake) :=
    h.at (.inl rfl) src s.lastProgressMs
  have hopen (ho : S.opened = true) (hc : s.connection = L.serverConnection 1) (a : Addr)
      (ms : UInt64) : ServerAt L whole S { s with
        state := .established, pc := .fsm, clientAddr := a, lastProgressMs := ms } := by
    refine .established ⟨rfl, h.exit, ?_, ho, h.finSeen, ?_⟩ (.inl rfl)
    · rw [h.delivered]
      exact hc
    · rw [h.delivered]
      exact h.output
  refine ⟨S, ?_⟩
  rw [Server.handshakePacket]
  split_ifs with hsyn hack hdata
  · refine .reply .refl (.refl S) hstay (hstay.fail exOsErr) ?_
    simp only [h.connection]
    exact .synAck
  · obtain ⟨m, hm, hread⟩ := hears.recvClient hr (by rw [hack.1]; decide)
    rw [hack.2.2.2]
    exact .same (hopen hm.opened h.connection src _) (Says.nil _)
  · obtain ⟨m, hm, hread⟩ := hears.recvClient hr (by rw [hdata.1]; decide)
    exact .same (hopen hm.opened h.connection src _) (Says.nil _)
  · exact .same hstay (Says.nil _)

theorem joinChunks_take_succ {chunks : List Chunk} {k : Nat} {chunk : Chunk}
    (h : chunks[k]? = some chunk) :
    joinChunks (chunks.take (k + 1)) = joinChunks (chunks.take k) ++ chunk.val := by
  rw [List.take_add_one, h, joinChunks_append]
  simp [joinChunks]

/-- The expected packet is written and acknowledged, or its write comes up short. -/
theorem Receiving.takes (h : Receiving L S s) (hw : whole = true → e.fwrite = none)
    {hd : RDTHeader} {chunk : Chunk} (hj : S.delivered < S.sent)
    (hc : L.chunks[S.delivered]? = some chunk) (hnext : hd.seqNum = s.connection.ackNum) :
    ∃ T, ServerOutcome L whole S (s.dataPacket e hd chunk.val) T := by
  have hack : s.connection.ackNum + 1 = L.num (1 + (S.delivered + 1)) := by
    rw [h.connection]
    exact L.num_succ _
  have hconn : (⟨s.connection.seqNum, s.connection.ackNum + 1, s.connection.connId⟩ :
      ConnectionState) = L.serverConnection (1 + (S.delivered + 1)) := by
    rw [hack, h.connection]
    rfl
  rw [Server.dataPacket, if_pos hnext]
  dsimp only
  by_cases hfull : Server.written e chunk.val ≠ chunk.val.length
  · rw [if_pos hfull]
    have hwhole : whole = false := by
      rw [← Bool.not_eq_true]
      intro hwt
      apply hfull
      rw [Server.written, hw hwt]
    refine ⟨S, .same ?_ (Says.nil _)⟩
    refine .done rfl (.inl rfl) (by rw [Server.fail, h.connection]; rfl)
      (by rw [Server.fail, h.connection]; rfl) (chunk.val.take (Server.written e chunk.val)) ?_ ?_
    · rw [← h.output]
      rfl
    · exact fun _ => ⟨hwhole, h.finSeen, chunk, hc, List.take_prefix _ _⟩
  · rw [if_neg hfull]
    rw [not_not] at hfull
    have hout : s.output ++ chunk.val.take (Server.written e chunk.val) =
        joinChunks (L.chunks.take (S.delivered + 1)) := by
      rw [hfull, List.take_length, h.output, joinChunks_take_succ hc]
    refine ⟨S.deliver hj,
      .reply (.single (.deliver S hj)) ⟨rfl, rfl, rfl, rfl, rfl, rfl⟩ ?_ ?_ ?_⟩
    · exact .established ⟨rfl, h.exit, hconn, h.opened, h.finSeen, hout⟩ (.inl rfl)
    · exact .halt rfl (.inl rfl) (congrArg ConnectionState.seqNum hconn)
        (congrArg ConnectionState.connId hconn) hout
    · simp only [Server.marked, hconn]
      exact .dataAck (S.delivered + 1) (Nat.le_refl _)

/-- Every other packet is answered with the ACK of the last one written. -/
theorem Receiving.repeats (h : Receiving L S s) {hd : RDTHeader} {payload : List UInt8}
    (hnext : hd.seqNum ≠ s.connection.ackNum) :
    ServerOutcome L whole S (s.dataPacket e hd payload) S := by
  have hstay (ms : UInt64) :
      ServerAt L whole S ({ s with lastProgressMs := ms }.goto .established) :=
    h.at (.inl rfl) s.clientAddr ms
  have hack : FromServer L S ⟨s.connection.seqNum, s.connection.ackNum, s.connection.connId,
      flagAck, []⟩ := by
    rw [h.connection]
    exact .dataAck S.delivered (Nat.le_refl _)
  rw [Server.dataPacket, if_neg hnext]
  by_cases hlater : hd.seqNum > s.connection.ackNum
  · rw [if_pos hlater]
    have hmarked := hstay (markProgress s.lastProgressMs e.markMs)
    exact .reply (s := s.marked e) .refl (.refl S) hmarked (hmarked.fail exOsErr) hack
  · rw [if_neg hlater]
    exact .reply .refl (.refl S) (hstay _) ((hstay s.lastProgressMs).fail exOsErr) hack

theorem Receiving.dataPacket (h : Receiving L S s) (hroom : L.Room S)
    (hw : whole = true → e.fwrite = none) {hd : RDTHeader} {j : Nat} {chunk : Chunk}
    (hj : j < S.sent) (hc : L.chunks[j]? = some chunk) (hseq : hd.seqNum = L.num (1 + j)) :
    ∃ T, ServerOutcome L whole S (s.dataPacket e hd chunk.val) T := by
  have hsent := hroom.sent
  have hle := S.delivered_le
  by_cases hnext : hd.seqNum = s.connection.ackNum
  · have hexpect : L.num (1 + j) = L.num (1 + S.delivered) := by
      rw [← hseq, hnext, h.connection]
      rfl
    have hplace := L.num_inj (by omega) (by omega) hexpect
    obtain rfl : j = S.delivered := by omega
    exact h.takes hw hj hc hnext
  · exact ⟨S, h.repeats hnext⟩

theorem Receiving.establishedPacket (h : Receiving L S s) (hroom : L.Room S)
    (hears : HearsClients L S e) (hw : whole = true → e.fwrite = none) {src : Addr}
    {hd : RDTHeader} {payload : List UInt8}
    (hr : recvPacket e s.clientAddr = (src, .ok (hd, payload))) :
    ∃ T, ServerOutcome L whole S
      ({ s with clientAddr := src }.establishedPacket e hd payload) T := by
  rw [Server.establishedPacket]
  split_ifs with hfin hdata
  · obtain ⟨m, hm, hread⟩ := hears.recvClient hr (by rw [hfin.1]; decide)
    have hclosing := hm.fin_of (hread.flags.symm.trans hfin.1)
    have hall := S.delivered_of_closing hclosing
    have hack : hd.seqNum + 1 = L.num (2 + L.size) := by
      rw [hfin.2.2, h.connection]
      simp only [Link.serverConnection, L.num_succ, hall.2.1]
      rw [show 1 + L.size + 1 = 2 + L.size by omega]
    have hconn : (⟨s.connection.seqNum, hd.seqNum + 1, s.connection.connId⟩ :
        ConnectionState) = L.serverConnection (2 + L.size) := by
      rw [hack, h.connection]
      rfl
    have hout : s.output = joinChunks L.chunks := by
      rw [h.output, hall.2.1]
      exact congrArg joinChunks List.take_length
    simp only [hconn]
    refine ⟨S.seeFin hclosing, .reply (.single (.seeFin S hclosing)) ⟨rfl, rfl, rfl, rfl, rfl, rfl⟩
      ?_ ?_ (.finAck rfl)⟩
    · exact .lastAck ⟨rfl, h.exit, rfl, rfl, hout⟩ (.inl rfl)
    · exact .halt rfl (.inl rfl) rfl rfl h.output
  · obtain ⟨m, hm, hread⟩ := hears.recvClient hr (by rw [hdata.1]; decide)
    obtain ⟨j, chunk, hj, hc, hseq, hpayload⟩ := hm.data_of (hread.flags.symm.trans hdata.1)
    rw [hread.payload, hpayload]
    exact Receiving.dataPacket (s := { s with clientAddr := src })
      ⟨h.state, h.exit, h.connection, h.opened, h.finSeen, h.output⟩ hroom hw hj hc
      (hread.seqNum.trans hseq)
  · exact ⟨S, .same (h.at (.inl rfl) src s.lastProgressMs) (Says.nil _)⟩

/-- The final ACK can only come from a client that has taken the FIN+ACK. -/
theorem Closing.finished (h : Closing L S s) (hroom : L.Room S) (hears : HearsClients L S e)
    {src : Addr} {hd : RDTHeader} {payload : List UInt8}
    (hr : recvPacket e s.clientAddr = (src, .ok (hd, payload))) (hack : s.TakesFinalAck hd) :
    S.finished = true := by
  obtain ⟨m, hm, hread⟩ := hears.recvClient hr (by rw [hack.1]; decide)
  refine hm.lastAck_of (hread.flags.symm.trans hack.1) ?_
    (hroom.closing (S.closing_of_finSeen h.finSeen))
  rw [← hread.seqNum, hack.2.2.2, h.connection]
  rfl

theorem Closing.lastAckReady (h : Closing L S s) :
    ServerOutcome L whole S (s.lastAckReady config e) S := by
  have hstay (a : Addr) (ms : UInt64) : ServerAt L whole S
      ({ s with clientAddr := a, lastProgressMs := ms }.goto .lastAck) := h.at (.inl rfl) a ms
  have hdone (a : Addr) (ms : UInt64) : ServerAt L whole S
      ({ s with clientAddr := a, lastProgressMs := ms }.goto .done) :=
    .halt rfl (.inl rfl) (by rw [Server.goto, h.connection]; rfl)
      (by rw [Server.goto, h.connection]; rfl) h.output_take
  have hfail (code : Int) : ServerAt L whole S (s.fail code) :=
    .fail (hstay s.clientAddr s.lastProgressMs) code
  have hfinAck : FromServer L S ⟨s.connection.seqNum, s.connection.ackNum, s.connection.connId,
      flagFin ||| flagAck, []⟩ := by
    rw [h.connection]
    exact .finAck h.finSeen
  rw [Server.lastAckReady]
  split_ifs with h0 hexp hneg hstop
  · exact .same (hfail _) (Says.nil _)
  · have hsends : Says [s.control e (flagFin ||| flagAck)] (fun _ m => FromServer L S m) :=
      Says.single _ (fun _ => hfinAck) rfl
    dsimp only
    split_ifs
    · exact .same (hstay _ _) hsends
    · exact .same (hfail _) hsends
  · exact .same (hfail _) (Says.nil _)
  · exact .same (hfail _) (Says.nil _)
  · rw [Server.receive]
    cases hr : (recvPacket e s.clientAddr).2 with
    | error code =>
      rw [h.state]
      exact .same (hstay _ _) (Says.nil _)
    | ok received =>
      dsimp only
      rw [Server.lastAckPacket]
      split_ifs
      · exact .reply .refl (.refl S) (hstay _ s.lastProgressMs)
          (.fail (hstay _ s.lastProgressMs) exOsErr) hfinAck
      · exact .same (hdone _ _) (Says.nil _)
      · exact .same (hstay _ s.lastProgressMs) (Says.nil _)

/-- One activation of a server refines moves of its session. -/
theorem ServerAt.step (h : ServerAt L whole S s) (hroom : L.Room S) (hears : HearsClients L S e)
    (hw : whole = true → e.fwrite = none) :
    ∃ T, ServerOutcome L whole S (s.step config e) T := by
  cases hpc : s.pc with
  | fsm => rw [Server.step_fsm hpc]; exact ⟨S, h.runServer⟩
  | returned code => rw [Server.step_returned hpc]; exact ⟨S, .same h (Says.nil _)⟩
  | select ms =>
    rw [Server.step_select hpc]
    cases h with
    | handshake hp hwait =>
      rw [Server.resume_handshake hp.state]
      refine ServerAt.ready (.handshake hp hwait) (by rw [hp.state]; decide) ?_
      intro src hd payload hr
      exact hp.handshakePacket hears hr
    | established hp hwait =>
      rw [Server.resume_established hp.state]
      refine ServerAt.ready (.established hp hwait) (by rw [hp.state]; decide) ?_
      intro src hd payload hr
      exact hp.establishedPacket hroom hears hw hr
    | lastAck hp _ =>
      rw [Server.resume_lastAck hp.state]
      exact ⟨S, hp.lastAckReady⟩
    | done _ hp _ _ _ _ _ =>
      rw [hpc] at hp
      exact absurd hp (by simp [ServerPc.Halted])

end Server

end ReliableUdp
