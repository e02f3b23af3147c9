import ReliableUdp.Endpoint.PeerAddress
import ReliableUdp.Session.ServerStep
import ReliableUdp.Session.System

namespace ReliableUdp

variable {ι : Type}

/-- A server that has not taken a SYN, or could not answer the one it took. -/
inductive IdleServer (s : Server (Node ι)) : Prop where
  | listen (state : s.state = .listen) (pc : s.pc.Waiting) (exit : s.exitCode = exOk)
      (connection : s.connection = ⟨0, 0, 0⟩) (output : s.output = [])
  | done (state : s.state = .done) (pc : s.pc.Halted) (output : s.output = [])

/-- The datagrams that can be under way in a session with client `w`; the SYNs are those of all
clients. -/
inductive Allowed (p : Params ι) (w : ι) (S : Session (p.link w).size) : Datagram ι → Prop where
  | syn (i : ι) : Allowed p w S ⟨.client i, .server, (synMessage (p.isn i)).bytes⟩
  | client (m : Message) (h : FromClient (p.link w) S m) :
      Allowed p w S ⟨.client w, .server, m.bytes⟩
  | server (m : Message) (h : FromServer (p.link w) S m) (i : ι) :
      Allowed p w S ⟨.server, .client i, m.bytes⟩

/-- No client has been admitted yet, or one has. -/
abbrev Stage (p : Params ι) := Option (Σ w : ι, Session (p.link w).size)

namespace Stage

variable {p : Params ι}

inductive Step : Stage p → Stage p → Prop where
  | begins (w : ι) : Step none (some ⟨w, .start _⟩)
  | move (w : ι) {S T : Session (p.link w).size} (h : Session.Step S T) :
      Step (some ⟨w, S⟩) (some ⟨w, T⟩)

def Admitted : Stage p → ι → Prop
  | none, _ => False
  | some ⟨w, _⟩, i => i = w

def Opened : Stage p → ι → Prop
  | none, _ => False
  | some ⟨w, S⟩, i => i = w ∧ S.opened = true

def Finished : Stage p → ι → Prop
  | none, _ => False
  | some ⟨w, S⟩, i => i = w ∧ S.finished = true

theorem move {w : ι} {S T : Session (p.link w).size}
    (h : Relation.ReflTransGen Session.Step S T) :
    Relation.ReflTransGen (Step (p := p)) (some ⟨w, S⟩) (some ⟨w, T⟩) := by
  induction h with
  | refl => exact .refl
  | tail _ hs ih => exact ih.tail (.move w hs)

/-- Once a client is admitted the session stays with it and only goes forward. -/
theorem Steps.le {a b : Stage p} (h : Relation.ReflTransGen Step a b) {w : ι}
    {S : Session (p.link w).size} (ha : a = some ⟨w, S⟩) : ∃ T, b = some ⟨w, T⟩ ∧ S.Le T := by
  induction h with
  | refl => exact ⟨S, ha, .refl S⟩
  | tail _ hs ih =>
    obtain ⟨T, rfl, hle⟩ := ih
    cases hs with
    | move _ hs => exact ⟨_, rfl, hle.trans hs.le⟩

end Stage

/-- The refinement relation. -/
inductive Joint (p : Params ι) : Stage p → Sys ι → Prop where
  | idle (s : Sys ι)
      (clients : ∀ i, Opening (p.isn i) (p.input i) .server (s.clients i))
      (server : IdleServer s.server)
      (net : ∀ d ∈ s.net, ∃ i, d = ⟨.client i, .server, (synMessage (p.isn i)).bytes⟩) :
      Joint p none s
  | admitted (s : Sys ι) (w : ι) (S : Session (p.link w).size)
      (client : ClientAt (p.link w) S .server (s.clients w))
      (others : ∀ i, i ≠ w → Opening (p.isn i) (p.input i) .server (s.clients i))
      (server : ServerAt (p.link w) p.wholeWrites S s.server)
      (peer : ∃ i, s.server.clientAddr = .client i)
      (net : ∀ d ∈ s.net, Allowed p w S d) : Joint p (some ⟨w, S⟩) s

theorem Joint.init (p : Params ι) : Joint p none p.init :=
  .idle _ (fun i => Opening.init (p.isn i) (p.input i) Node.server (p.clientStartMs i))
    (.listen rfl (.inl rfl) rfl rfl rfl) nofun

theorem Allowed.mono {p : Params ι} {w : ι} {S T : Session (p.link w).size} (h : S.Le T)
    {d : Datagram ι} (hd : Allowed p w S d) : Allowed p w T d := by
  cases hd with
  | syn i => exact .syn i
  | client m hm => exact .client m (hm.mono h)
  | server m hm i => exact .server m (hm.mono h) i

section Moves

variable {L : Link} {S T : Session L.size} {Addr : Type}

/-- The client does not notice the moves of the server. -/
theorem ClientAt.congr (h : S.SameClient T) {addr : Addr} {c : Client Addr}
    (hc : ClientAt L S addr c) : ClientAt L T addr c := by
  refine ⟨hc.peer, ?_⟩
  have transfer (ht : InTransfer L S c) : InTransfer L T c :=
    ⟨ht.state, ht.exit, ht.connection, h.opened.trans ht.opened, h.closing.trans ht.closing,
      by rw [h.sent]; exact ht.room⟩
  cases hc.phase with
  | opening hS ho => exact .opening (h.accepted.trans hS) ho
  | entering ht hpc hfile hsent hx =>
    exact .entering (transfer ht) hpc hfile (h.sent.trans hsent) hx
  | transferring ht hpc x hx hs =>
    refine .transferring (transfer ht) hpc x hx ⟨?_, ?_, ?_, ?_⟩
    · rw [h.sent]; exact hs.represents
    · rw [h.acked]; exact hs.acked
    · rw [h.sent]; exact hs.reading
    · rw [h.sent]; exact hs.ended
  | finWait hw hpc =>
    exact .finWait ⟨hw.state, hw.exit, hw.connection, h.closing.trans hw.closing,
      h.finished.trans hw.finished, hw.ended, hw.room⟩ hpc
  | timeWait hw hpc =>
    exact .timeWait ⟨hw.state, hw.exit, hw.connection, h.finished.trans hw.finished, hw.ended,
      hw.room⟩ hpc
  | done hs hpc accepted hack hconn hended hroom =>
    refine .done hs hpc (h.accepted.trans accepted) hack hconn ?_ ⟨?_, ?_⟩
    · rw [h.closing]; exact hended
    · rw [h.sent]; exact hroom.sent
    · rw [h.closing]; exact hroom.closing

/-- The server does not notice the moves of the client. -/
theorem ServerAt.congr (hd : T.delivered = S.delivered) (hf : T.finSeen = S.finSeen)
    (hle : S.Le T) {whole : Bool} {s : Server Addr} (hs : ServerAt L whole S s) :
    ServerAt L whole T s := by
  cases hs with
  | handshake hp hpc =>
    exact .handshake ⟨hp.state, hp.exit, hp.connection, hd.trans hp.delivered,
      hf.trans hp.finSeen, hp.output⟩ hpc
  | established hp hpc =>
    refine .established ⟨hp.state, hp.exit, ?_, hle.opened hp.opened, hf.trans hp.finSeen, ?_⟩ hpc
    · rw [hd]; exact hp.connection
    · rw [hd]; exact hp.output
  | lastAck hp hpc =>
    exact .lastAck ⟨hp.state, hp.exit, hp.connection, hf.trans hp.finSeen, hp.output⟩ hpc
  | done hst hpc hseq hconn rest hout hb =>
    refine .done hst hpc hseq hconn rest (by rw [hd]; exact hout) ?_
    intro hne
    obtain ⟨h1, h2, h3⟩ := hb hne
    exact ⟨h1, hf.trans h2, by rw [hd]; exact h3⟩

end Moves

variable {p : Params ι}

/-- A client is opening, or it is the one that was admitted. -/
theorem Joint.client {a : Stage p} {s : Sys ι} (h : Joint p a s) (i : ι) :
    Opening (p.isn i) (p.input i) .server (s.clients i) ∨
    ∃ S, a = some ⟨i, S⟩ ∧ ClientAt (p.link i) S .server (s.clients i) := by
  cases h with
  | idle _ hc _ _ => exact Or.inl (hc i)
  | admitted _ w S hclient hothers _ _ _ =>
    by_cases hi : i = w
    · subst hi
      exact Or.inr ⟨S, rfl, hclient⟩
    · exact Or.inl (hothers i hi)

theorem Joint.server {a : Stage p} {s : Sys ι} (h : Joint p a s) :
    IdleServer s.server ∨
    ∃ w S, a = some ⟨w, S⟩ ∧ ServerAt (p.link w) p.wholeWrites S s.server := by
  cases h with
  | idle _ _ hserver _ => exact Or.inl hserver
  | admitted _ w S _ _ hserver _ _ => exact Or.inr ⟨w, S, rfl, hserver⟩

theorem Joint.parties {s : Sys ι} {w : ι} {S : Session (p.link w).size}
    (h : Joint p (some ⟨w, S⟩) s) : ClientAt (p.link w) S .server (s.clients w) ∧
      ServerAt (p.link w) p.wholeWrites S s.server ∧ ∀ d ∈ s.net, Allowed p w S d := by
  cases h with
  | admitted _ _ _ hclient _ hserver _ hnet => exact ⟨hclient, hserver, hnet⟩

theorem IdleServer.state_ne {s : Server (Node ι)} (h : IdleServer s) {st : ServerState}
    (hs : s.state = st) : st = .listen ∨ st = .done := by
  cases h with
  | listen h' _ _ _ _ => exact Or.inl (hs.symm.trans h')
  | done h' _ _ => exact Or.inr (hs.symm.trans h')

theorem IdleServer.output_nil {s : Server (Node ι)} (h : IdleServer s) : s.output = [] := by
  cases h with
  | listen _ _ _ _ hout => exact hout
  | done _ _ hout => exact hout

/-- What a server without a session can do: stay without one, or admit a client. -/
def IdleOutcome (p : Params ι) (next : Server (Node ι) × List (Send (Node ι))) : Prop :=
  (IdleServer next.1 ∧ Says next.2 (fun _ _ => False)) ∨
  ∃ w, InHandshake (p.link w) (.start _) next.1 ∧ next.1.pc = .fsm ∧
    next.1.clientAddr = .client w ∧
    Says next.2 (fun _ m => FromServer (p.link w) (.start _) m)

section Idle

variable {s : Server (Node ι)} {e : Env (Node ι)}

theorem IdleOutcome.stays {next : Server (Node ι)} (h : IdleServer next) :
    IdleOutcome p (next, []) :=
  Or.inl ⟨h, Says.nil _⟩

/-- A SYN of client `w` is answered with the numbers of the session with `w`. -/
theorem listenPacket_admits (hrand : e.rand 0 = p.connRand ∧ e.rand 1 = p.seqRand)
    (exit : s.exitCode = exOk) (hout : s.output = []) {w : ι} (hpeer : s.clientAddr = .client w)
    {hd : RDTHeader} (hflags : hd.flags = flagSyn) (hseq : hd.seqNum = p.isn w) :
    IdleOutcome p (s.listenPacket e hd) := by
  have hconn : (⟨UInt32.ofNat (e.rand 1 % moduler), hd.seqNum + 1,
      UInt16.ofNat (e.rand 0 % 60000 + 1)⟩ : ConnectionState) = (p.link w).serverConnection 1 := by
    rw [hseq, hrand.1, hrand.2]
    exact congrArg (fun n => (⟨p.serverSeq, n, p.connId⟩ : ConnectionState)) (p.link w).isn_succ
  have hreply : FromServer (p.link w) (.start _)
      ⟨p.serverSeq, (p.link w).num 1, p.connId, flagSyn ||| flagAck, []⟩ := .synAck
  rw [Server.listenPacket, if_pos hflags, hconn]
  dsimp only
  rw [Server.reply]
  split_ifs with hsent
  · exact Or.inr ⟨w, ⟨rfl, exit, rfl, rfl, rfl, hout⟩, rfl, hpeer,
      Says.single _ (fun _ => hreply) rfl⟩
  · exact Or.inl ⟨.done rfl (.inl rfl) hout, Says.unsent hsent⟩

/-- A SYN admits the client it comes from; nothing else moves a server in LISTEN. -/
theorem IdleServer.step (h : IdleServer s)
    (hrand : e.rand 0 = p.connRand ∧ e.rand 1 = p.seqRand)
    (hears : Hears e (fun src m => ∃ i, src = .client i ∧ m = synMessage (p.isn i)))
    (config : AppConfig) : IdleOutcome p (s.step config e) := by
  cases h with
  | done hs hpc hout =>
    rcases hpc with hpc | ⟨code, hpc⟩
    · rw [Server.step_fsm hpc, Server.runServer_done hs]
      exact .stays (.done hs (.inr ⟨_, rfl⟩) hout)
    · rw [Server.step_returned hpc]
      exact .stays (.done hs (.inr ⟨_, hpc⟩) hout)
  | listen hs hpc exit hc hout =>
    have hfail (code : Int) : IdleOutcome p (s.fail code, []) :=
      .stays (.done rfl (.inl rfl) hout)
    have hstay (a : Node ι) : IdleOutcome p ({ s with clientAddr := a }.goto .listen, []) :=
      .stays (.listen rfl (.inl rfl) exit hc hout)
    rcases hpc with hpc | ⟨ms, hpc⟩
    · rw [Server.step_fsm hpc, Server.runServer_running (by rw [hs]; decide), Server.enter]
      split_ifs
      · exact hfail _
      · exact hfail _
      · exact .stays (.listen hs (.inr ⟨_, rfl⟩) exit hc hout)
    · rw [Server.step_select hpc, Server.resume_listen hs, Server.listenReady, Server.ready]
      split_ifs
      · exact hfail _
      · rw [hs]
        exact hstay s.clientAddr
      · exact hfail _
      · rw [Server.receive]
        cases hr : (recvPacket e s.clientAddr).2 with
        | error code =>
          rw [hs]
          exact hstay _
        | ok received =>
          have hlen : ∀ (src : Node ι) m, (∃ i, src = .client i ∧ m = synMessage (p.isn i)) →
              m.payload.length ≤ maxPacketSize - headerSize := by
            intro _ _ hfrom
            obtain ⟨i, _, rfl⟩ := hfrom
            exact Nat.zero_le _
          have hrecv : recvPacket e s.clientAddr =
              ((recvPacket e s.clientAddr).1, .ok (received.1, received.2)) := by rw [← hr]
          obtain ⟨_, ⟨w, hsrc, rfl⟩, hread⟩ := hears.recv hlen hrecv
          exact listenPacket_admits (s := { s with clientAddr := (recvPacket e s.clientAddr).1 })
            hrand exit hout hsrc hread.flags hread.seqNum

end Idle

theorem isn_of_rand {e : Env (Node ι)} {i : ι} (h : e.rand 0 = p.clientRand i) :
    p.isn i = UInt32.ofNat (e.rand 0 % moduler) := by
  rw [h]
  rfl

/-- What a step adds to the stage and, where a session begins, opens or finishes, to the state. -/
structure Follows (p : Params ι) (a : Stage p) (s' : Sys ι) (a' : Stage p) : Prop where
  steps : Relation.ReflTransGen Stage.Step a a'
  joint : Joint p a' s'
  admitted : ∀ i, a'.Admitted i → a.Admitted i ∨
    s'.server.state = .handshake ∧ s'.server.connection = (p.link i).serverConnection 1
  opened : ∀ i, a'.Opened i → a.Opened i ∨ (s'.clients i).state = .established
  finished : ∀ i, a'.Finished i → a.Finished i ∨ (s'.clients i).state = .timeWait

theorem Follows.stay {a : Stage p} {s' : Sys ι} (h : Joint p a s') : Follows p a s' a :=
  ⟨.refl, h, fun _ => Or.inl, fun _ => Or.inl, fun _ => Or.inl⟩

/-- Losing and duplicating change nothing that the relation speaks about. -/
theorem Joint.net_subset {a : Stage p} {s : Sys ι} {net : List (Datagram ι)}
    (h : Joint p a s) (hsub : ∀ d ∈ net, d ∈ s.net) :
    Joint p a { s with net := net } := by
  cases h with
  | idle _ hc hserver hnet => exact .idle _ hc hserver (fun d hd => hnet d (hsub d hd))
  | admitted _ w S hc ho hserver hpeer hnet =>
    exact .admitted _ w S hc ho hserver hpeer (fun d hd => hnet d (hsub d hd))

section Joint

variable [DecidableEq ι] {s : Sys ι} {w i : ι} {S : Session (p.link w).size}
  {e : Env (Node ι)} {reads : Prop} {net : List (Datagram ι)}

/-- In a session a client hears only its server, and what that server can have said. -/
theorem hears_server (hnet : ∀ d ∈ s.net, Allowed p w S d)
    (hr : Receives (.client i) reads e s.net net) : HearsServer (p.link w) S .server e := by
  intro src data he
  have hd := hnet _ (hr.source he)
  cases hd with
  | server m hm => exact ⟨m, ⟨rfl, hm⟩, rfl⟩

theorem hears_clients (hnet : ∀ d ∈ s.net, Allowed p w S d)
    (hr : Receives .server reads e s.net net) : HearsClients (p.link w) S e := by
  intro src data he
  have hd := hnet _ (hr.source he)
  cases hd with
  | syn j => exact ⟨_, Or.inl ⟨_, rfl⟩, rfl⟩
  | client m hm => exact ⟨m, Or.inr hm, rfl⟩

/-- The server only ever hears clients, so it only ever answers clients. -/
theorem server_peer (hnet : ∀ d ∈ s.net, Allowed p w S d)
    (hr : Receives .server reads e s.net net) (hp : ∃ j, s.server.clientAddr = .client j)
    (config : AppConfig) : ∃ j, (s.server.step config e).1.clientAddr = .client j := by
  rw [Server.step_goesTo.1, Server.hears]
  split_ifs
  · cases he : e.recvfrom with
    | none => exact hp
    | some d =>
      obtain ⟨src, data⟩ := d
      have hd := hnet _ (hr.source he)
      cases hd with
      | syn j => exact ⟨j, rfl⟩
      | client m hm => exact ⟨w, rfl⟩
  · exact hp

theorem mem_stepClient {d : Datagram ι} (hr : Receives (.client i) reads e s.net net)
    (hd : d ∈ (s.stepClient p i e net).net) :
    d ∈ s.net ∨ ∃ o ∈ ((s.clients i).step (p.clientConfig i) e).2, o.sent = true ∧
      d = ⟨.client i, o.dst, o.data⟩ := by
  rcases List.mem_append.mp hd with hd | hd
  · exact Or.inr (mem_emitted.mp hd)
  · exact Or.inl (hr.mem_of hd)

theorem mem_stepServer {d : Datagram ι} (hr : Receives .server reads e s.net net)
    (hd : d ∈ (s.stepServer p e net).net) :
    d ∈ s.net ∨ ∃ o ∈ (s.server.step p.serverConfig e).2, o.sent = true ∧
      d = ⟨.server, o.dst, o.data⟩ := by
  rcases List.mem_append.mp hd with hd | hd
  · exact Or.inr (mem_emitted.mp hd)
  · exact Or.inl (hr.mem_of hd)

theorem follows_idle_client (hc : ∀ i, Opening (p.isn i) (p.input i) .server (s.clients i))
    (hserver : IdleServer s.server)
    (hnet : ∀ d ∈ s.net, ∃ i, d = ⟨.client i, .server, (synMessage (p.isn i)).bytes⟩)
    (hr : Receives (.client i) reads e s.net net) (hrand : e.rand 0 = p.clientRand i) :
    Joint p none (s.stepClient p i e net) := by
  have hnone : e.recvfrom = none := by
    cases he : e.recvfrom with
    | none => rfl
    | some d =>
      obtain ⟨j, hj⟩ := hnet _ (hr.source he)
      exact absurd (congrArg Datagram.dst hj) (by simp)
  have hstep : OpeningOutcome (p.isn i) (p.input i) .server (s.clients i) e
      ((s.clients i).step (p.clientConfig i) e) :=
    (hc i).step (isn_of_rand hrand) (by rw [hnone]; exact nofun)
  rcases hstep with ⟨hnext, hsends⟩ | ⟨hd, payload, _, _, hrecv, _⟩
  · refine .idle _ ?_ hserver ?_
    · intro j
      by_cases hj : j = i
      · subst hj
        simpa [Sys.stepClient] using hnext
      · simpa [Sys.stepClient, Function.update_of_ne hj] using hc j
    · intro d hd
      rcases mem_stepClient hr hd with hd | ⟨o, ho, hsent, rfl⟩
      · exact hnet d hd
      · obtain ⟨m, ⟨hdst, rfl⟩, hdata⟩ := hsends o ho hsent
        exact ⟨i, by rw [hdst, hdata]⟩
  · rw [recvPacket, hnone] at hrecv
    exact absurd (Prod.mk.inj hrecv).2 (by simp)

theorem follows_idle_server (hc : ∀ i, Opening (p.isn i) (p.input i) .server (s.clients i))
    (hserver : IdleServer s.server)
    (hnet : ∀ d ∈ s.net, ∃ i, d = ⟨.client i, .server, (synMessage (p.isn i)).bytes⟩)
    (hr : Receives .server reads e s.net net)
    (hrand : e.rand 0 = p.connRand ∧ e.rand 1 = p.seqRand) :
    ∃ a, Follows p none (s.stepServer p e net) a := by
  have hears : Hears e (fun src m => ∃ i, src = .client i ∧ m = synMessage (p.isn i)) := by
    intro src data he
    obtain ⟨j, hj⟩ := hnet _ (hr.source he)
    obtain ⟨rfl, _, rfl⟩ := Datagram.mk.inj hj
    exact ⟨_, ⟨j, rfl, rfl⟩, rfl⟩
  have hstep : IdleOutcome p (s.server.step p.serverConfig e) :=
    hserver.step hrand hears p.serverConfig
  rcases hstep with ⟨hnext, hsends⟩ | ⟨w, hnext, hpc, hpeer, hsends⟩
  · refine ⟨none, .stay (.idle _ hc hnext ?_)⟩
    intro d hd
    rcases mem_stepServer hr hd with hd | ⟨o, ho, hsent, _⟩
    · exact hnet d hd
    · obtain ⟨_, hno, _⟩ := hsends o ho hsent
      exact hno.elim
  · refine ⟨some ⟨w, .start _⟩, .single (.begins w), ?_, ?_, ?_, ?_⟩
    · refine .admitted _ w (.start _) ⟨(hc w).peer, .opening rfl (hc w)⟩ (fun j _ => hc j)
        (.handshake hnext (.inl hpc)) ⟨w, hpeer⟩ ?_
      intro d hd
      rcases mem_stepServer hr hd with hd | ⟨o, ho, hsent, rfl⟩
      · obtain ⟨j, rfl⟩ := hnet d hd
        exact .syn j
      · obtain ⟨m, hm, hdata⟩ := hsends o ho hsent
        have hdst : o.dst = .client w :=
          (Server.step_goesTo.2 o ho).trans (Server.step_goesTo.1.symm.trans hpeer)
        rw [hdst, hdata]
        exact .server m hm w
    · intro j hj
      obtain rfl := hj
      exact Or.inr ⟨hnext.state, hnext.connection⟩
    · intro j hfrom
      obtain ⟨_, h⟩ := hfrom
      exact Bool.noConfusion h
    · intro j hfrom
      obtain ⟨_, h⟩ := hfrom
      exact Bool.noConfusion h

theorem follows_client (hclient : ClientAt (p.link w) S .server (s.clients w))
    (hothers : ∀ j, j ≠ w → Opening (p.isn j) (p.input j) .server (s.clients j))
    (hserver : ServerAt (p.link w) p.wholeWrites S s.server)
    (hpeer : ∃ j, s.server.clientAddr = .client j) (hnet : ∀ d ∈ s.net, Allowed p w S d)
    (hr : Receives (.client w) reads e s.net net) (hrand : e.rand 0 = p.clientRand w) :
    ∃ a, Follows p (some ⟨w, S⟩) (s.stepClient p w e net) a := by
  have hself : (s.stepClient p w e net).clients w =
      ((s.clients w).step (p.clientConfig w) e).1 := Function.update_self _ _ _
  obtain ⟨T, hT⟩ : ∃ T, ClientOutcome (p.link w) S .server
      ((s.clients w).step (p.clientConfig w) e) T :=
    hclient.step (isn_of_rand hrand) (hears_server hnet hr)
  have hle := Session.Steps.le hT.steps
  refine ⟨some ⟨w, T⟩, Stage.move hT.steps, ?_, fun _ => Or.inl, ?_, ?_⟩
  · refine .admitted _ w T (by rw [hself]; exact hT.client) ?_
      (hserver.congr hT.delivered hT.finSeen hle) hpeer ?_
    · intro j hj
      simpa [Sys.stepClient, Function.update_of_ne hj] using hothers j hj
    · intro d hd
      rcases mem_stepClient hr hd with hd | ⟨o, ho, hsent, rfl⟩
      · exact (hnet d hd).mono hle
      · obtain ⟨m, ⟨hdst, hm⟩, hdata⟩ := hT.sends o ho hsent
        rw [hdst, hdata]
        rcases hm with rfl | hm | ⟨_, ho, rfl⟩
        · exact .syn w
        · exact .client m (.onward m hm)
        · exact .client _ (.ack ho)
  · intro j hfrom
    obtain ⟨rfl, h⟩ := hfrom
    rw [hself]
    exact (hT.opened h).imp (fun h => ⟨rfl, h⟩) id
  · intro j hfrom
    obtain ⟨rfl, h⟩ := hfrom
    rw [hself]
    exact (hT.finished h).imp (fun h => ⟨rfl, h⟩) id

/-- A client with another initial sequence number cannot take the SYN+ACK of the session. -/
theorem follows_other (hinj : Function.Injective p.isn)
    (hclient : ClientAt (p.link w) S .server (s.clients w))
    (hothers : ∀ j, j ≠ w → Opening (p.isn j) (p.input j) .server (s.clients j))
    (hserver : ServerAt (p.link w) p.wholeWrites S s.server)
    (hpeer : ∃ j, s.server.clientAddr = .client j) (hnet : ∀ d ∈ s.net, Allowed p w S d)
    (hr : Receives (.client i) reads e s.net net) (hrand : e.rand 0 = p.clientRand i)
    (hi : i ≠ w) : Joint p (some ⟨w, S⟩) (s.stepClient p i e net) := by
  have hears := hears_server hnet hr
  have hstep : OpeningOutcome (p.isn i) (p.input i) .server (s.clients i) e
      ((s.clients i).step (p.clientConfig i) e) :=
    (hothers i hi).step (isn_of_rand hrand) hears.server
  rcases hstep with ⟨hnext, hsends⟩ | ⟨hd, payload, _, hc, hrecv, htake, _⟩
  · refine .admitted _ w S ?_ ?_ hserver hpeer ?_
    · simpa [Sys.stepClient, Function.update_of_ne hi.symm] using hclient
    · intro j hj
      by_cases hji : j = i
      · subst hji
        simpa [Sys.stepClient] using hnext
      · simpa [Sys.stepClient, Function.update_of_ne hji] using hothers j hj
    · intro d hd
      rcases mem_stepClient hr hd with hd | ⟨o, ho, hsent, rfl⟩
      · exact hnet d hd
      · obtain ⟨m, ⟨hdst, rfl⟩, hdata⟩ := hsends o ho hsent
        rw [hdst, hdata]
        exact .syn i
  · obtain ⟨m, hm, hread⟩ := hears.recvServer hrecv
    obtain ⟨_, hack, _⟩ := hm.synAck_of (hread.flags.symm.trans htake.1)
    have hnum : p.isn i + 1 = p.isn w + 1 := by
      have h := htake.2.2
      rw [hc, hread.ackNum, hack] at h
      exact h.symm.trans (p.link w).isn_succ.symm
    exact absurd (hinj ((UInt32.add_left_inj 1).mp hnum)) hi

theorem follows_server (hclient : ClientAt (p.link w) S .server (s.clients w))
    (hothers : ∀ j, j ≠ w → Opening (p.isn j) (p.input j) .server (s.clients j))
    (hserver : ServerAt (p.link w) p.wholeWrites S s.server)
    (hpeer : ∃ j, s.server.clientAddr = .client j) (hnet : ∀ d ∈ s.net, Allowed p w S d)
    (hr : Receives .server reads e s.net net) (hw : p.wholeWrites = true → e.fwrite = none) :
    ∃ a, Follows p (some ⟨w, S⟩) (s.stepServer p e net) a := by
  have hpeer' := server_peer hnet hr hpeer p.serverConfig
  obtain ⟨T, hT⟩ : ∃ T, ServerOutcome (p.link w) p.wholeWrites S
      (s.server.step p.serverConfig e) T :=
    hserver.step hclient.room (hears_clients hnet hr) hw
  have hle := Session.Steps.le hT.steps
  refine ⟨some ⟨w, T⟩, Stage.move hT.steps, ?_, fun _ => Or.inl, ?_, ?_⟩
  · refine .admitted _ w T (hclient.congr hT.client) hothers hT.server hpeer' ?_
    intro d hd
    rcases mem_stepServer hr hd with hd | ⟨o, ho, hsent, rfl⟩
    · exact (hnet d hd).mono hle
    · obtain ⟨m, hm, hdata⟩ := hT.sends o ho hsent
      obtain ⟨j, hj⟩ := hpeer'
      have hdst : o.dst = .client j :=
        (Server.step_goesTo.2 o ho).trans (Server.step_goesTo.1.symm.trans hj)
      rw [hdst, hdata]
      exact .server m hm j
  · intro j hfrom
    obtain ⟨rfl, h⟩ := hfrom
    exact Or.inl ⟨rfl, hT.client.opened.symm.trans h⟩
  · intro j hfrom
    obtain ⟨rfl, h⟩ := hfrom
    exact Or.inl ⟨rfl, hT.client.finished.symm.trans h⟩

/-- Every step of the system follows moves of the session. -/
theorem Joint.step (hinj : Function.Injective p.isn) {a : Stage p} {s' : Sys ι}
    (h : Joint p a s) (hs : Sys.Step p s s') : ∃ a', Follows p a s' a' := by
  cases hs with
  | client i e net hr hrand =>
    cases h with
    | idle _ hc hserver hnet =>
      exact ⟨_, .stay (follows_idle_client hc hserver hnet hr hrand)⟩
    | admitted _ w S hc ho hserver hpeer hnet =>
      by_cases hi : i = w
      · subst hi
        exact follows_client hc ho hserver hpeer hnet hr hrand
      · exact ⟨_, .stay (follows_other hinj hc ho hserver hpeer hnet hr hrand hi)⟩
  | server e net hr hrand hw =>
    cases h with
    | idle _ hc hserver hnet => exact follows_idle_server hc hserver hnet hr hrand
    | admitted _ w S hc ho hserver hpeer hnet =>
      exact follows_server hc ho hserver hpeer hnet hr hw
  | lose d hd => exact ⟨a, .stay (h.net_subset (fun _ => List.mem_of_mem_erase))⟩
  | duplicate d hd =>
    refine ⟨a, .stay (h.net_subset (fun d' hd' => ?_))⟩
    rcases List.mem_cons.mp hd' with rfl | hd'
    · exact hd
    · exact hd'

end Joint

/-- What a stage says about the run that led to it. -/
structure Story (p : Params ι) (past : List (Sys ι)) (a : Stage p) (s : Sys ι) : Prop where
  joint : Joint p a s
  admitted : ∀ i, a.Admitted i → ∃ t ∈ past, t.server.state = .handshake ∧
    t.server.connection = (p.link i).serverConnection 1
  opened : ∀ i, a.Opened i → ∃ t ∈ past, (t.clients i).state = .established
  finished : ∀ i, a.Finished i → ∃ t ∈ past, (t.clients i).state = .timeWait

theorem Story.init (p : Params ι) : Story p [p.init] none p.init :=
  ⟨.init p, fun _ h => h.elim, fun _ h => h.elim, fun _ h => h.elim⟩

variable [DecidableEq ι]

theorem Story.step (hinj : Function.Injective p.isn) {past : List (Sys ι)} {a : Stage p}
    {s s' : Sys ι} (h : Story p past a s) (hs : Sys.Step p s s') :
    ∃ a', Relation.ReflTransGen Stage.Step a a' ∧ Story p (s' :: past) a' s' := by
  obtain ⟨a', hf⟩ := h.joint.step hinj hs
  have keep {P : Sys ι → Prop} : (∃ t ∈ past, P t) → ∃ t ∈ s' :: past, P t :=
    fun ⟨t, ht, hP⟩ => ⟨t, List.mem_cons_of_mem _ ht, hP⟩
  refine ⟨a', hf.steps, hf.joint, fun i hi => ?_, fun i hi => ?_, fun i hi => ?_⟩
  · rcases hf.admitted i hi with h' | h'
    · exact keep (h.admitted i h')
    · exact ⟨s', List.mem_cons_self, h'⟩
  · rcases hf.opened i hi with h' | h'
    · exact keep (h.opened i h')
    · exact ⟨s', List.mem_cons_self, h'⟩
  · rcases hf.finished i hi with h' | h'
    · exact keep (h.finished i h')
    · exact ⟨s', List.mem_cons_self, h'⟩

/-- A run follows a session, which was at an earlier stage in each state of the past. -/
theorem Sys.Run.follows (hinj : Function.Injective p.isn) {past : List (Sys ι)} {s : Sys ι}
    (h : Sys.Run p past s) :
    ∃ a, Story p past a s ∧
      ∀ t ∈ past, ∃ b, Joint p b t ∧ Relation.ReflTransGen Stage.Step b a := by
  obtain ⟨a, _, ha, hpast⟩ := Transition.Run.simulate (Story.init p)
    (fun past a s s' hst hs => hst.step hinj hs) h
  refine ⟨a, ha, fun t ht => ?_⟩
  obtain ⟨_, b, hb, hba⟩ := hpast t ht
  exact ⟨b, hb.joint, hba⟩

end ReliableUdp
