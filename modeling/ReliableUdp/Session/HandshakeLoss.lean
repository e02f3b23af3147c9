import ReliableUdp.Session.Recovery

namespace ReliableUdp

open Transition

/-- The states of a running client, with how far its session has come there. -/
inductive RunningClient {n : Nat} (S : Session n) (state : ClientState) : Prop where
  | opening (h : state = .closed ∨ state = .synSent) (accepted : S.accepted = false)
  | established (h : state = .established) (closing : S.closing = false)
  | finWait (h : state = .finWait) (closing : S.closing = true)
  | timeWait (h : state = .timeWait) (finSeen : S.finSeen = true)

theorem ClientAt.running {L : Link} {S : Session L.size} {Addr : Type} {addr : Addr}
    {c : Client Addr} (h : ClientAt L S addr c) (hd : c.state ≠ .done) :
    RunningClient S c.state := by
  cases h.phase with
  | opening hacc ho =>
    rcases ho.state_ne rfl with hs | hs | hs
    · exact .opening (Or.inl hs) hacc
    · exact .opening (Or.inr hs) hacc
    · exact absurd hs hd
  | entering ht _ _ _ _ => exact .established ht.state ht.closing
  | transferring ht _ _ _ _ => exact .established ht.state ht.closing
  | finWait hw _ => exact .finWait hw.state hw.closing
  | timeWait hw _ => exact .timeWait hw.state (S.finSeen_of_finished hw.finished)
  | done hst _ _ _ _ _ _ => exact absurd hst hd

section Solo

variable {p : Params Unit} {s t : Sys Unit} {past : List (Sys Unit)}

/-- The input is empty, the client has come past the handshake and the server has not, and the ACK
of the handshake, which is sent only once, is not under way any more. -/
structure HandshakeAckLost (p : Params Unit) (s : Sys Unit) : Prop where
  empty : content (p.input ()) = []
  client : (s.clients ()).state = .established ∨ (s.clients ()).state = .finWait
  server : s.server.state = .handshake
  lost : ⟨.client (), .server, (p.link ()).handshakeAck.bytes⟩ ∉ s.net

theorem InSession.recoversFromHandshake {S : Session (p.link ()).size} (h : InSession p S s)
    (hc : (s.clients ()).state ≠ .done) (hs : s.server.state = .handshake)
    (hread : ∃ file, ReadToEnd (p.input ()) file) (hroom : (p.link ()).Roomy)
    (hlost : ¬ HandshakeAckLost p s) : Sys.Recoverable p s := by
  have hends (ht : CanReach (Sys.SmoothStep p) (Transferring p) s) : Sys.Recoverable p s :=
    ht.trans (fun _ ht => ht.ends hread hroom)
  have hshake := h.server.handshake_of hs
  cases h.client.running hc with
  | opening hst _ => exact hends (h.reached.handshakes hst (Or.inr hs))
  | established hst _ =>
    by_cases hnet : ⟨.client (), .server, (p.link ()).handshakeAck.bytes⟩ ∈ s.net
    · exact hends (h.reached.transfers hst hs hnet)
    · have hne : content (p.input ()) ≠ [] := fun hempty =>
        hlost ⟨hempty, Or.inl hst, hs, hnet⟩
      exact hends (h.reached.opensByData hst hs hread hroom hne)
  | finWait hst hclosing =>
    have hempty : content (p.input ()) = [] := by
      have hall := (S.delivered_of_closing hclosing).2.1
      rw [hshake.delivered] at hall
      exact List.eq_nil_of_length_eq_zero hall.symm
    by_cases hnet : ⟨.client (), .server, (p.link ()).handshakeAck.bytes⟩ ∈ s.net
    · apply (h.reached.hearsHandshakeAck hs hnet).trans
      intro t hstage
      obtain ⟨hr, hclients, hs⟩ := hstage
      exact hr.takesFin (by rw [hclients]; exact hst) hs
    · exact absurd ⟨hempty, Or.inr hst, hs, hnet⟩ hlost
  | timeWait _ hfin => rw [hshake.finSeen] at hfin; exact Bool.noConfusion hfin

theorem InSession.recoversFromEstablished {S : Session (p.link ()).size} (h : InSession p S s)
    (hc : (s.clients ()).state ≠ .done) (hs : s.server.state = .established)
    (hread : ∃ file, ReadToEnd (p.input ()) file) (hroom : (p.link ()).Roomy) :
    Sys.Recoverable p s := by
  have hrecv := h.server.receiving hs
  cases h.client.running hc with
  | opening _ hacc =>
    have hopened := hrecv.opened
    rw [(S.untouched hacc).1] at hopened
    exact Bool.noConfusion hopened
  | established hst _ => exact Transferring.ends ⟨h.reached, hst, hs⟩ hread hroom
  | finWait hst _ => exact h.reached.takesFin hst hs
  | timeWait _ hfin => rw [hrecv.finSeen] at hfin; exact Bool.noConfusion hfin

theorem InSession.recoversFromLastAck {S : Session (p.link ()).size} (h : InSession p S s)
    (hc : (s.clients ()).state ≠ .done) (hs : s.server.state = .lastAck) :
    Sys.Recoverable p s := by
  have hclosing := S.closing_of_finSeen (h.server.closing_of hs).finSeen
  cases h.client.running hc with
  | opening _ hacc => rw [(S.untouched hacc).2.2.1] at hclosing; exact Bool.noConfusion hclosing
  | established _ hopen => rw [hopen] at hclosing; exact Bool.noConfusion hclosing
  | finWait hst _ => exact h.reached.finishes hst hs
  | timeWait hst _ => exact h.reached.closes hst hs

/-- Every other state in which both parties run can be brought to the end. -/
theorem Reached.recovers (hr : Reached p s) (hc : (s.clients ()).state ≠ .done)
    (hs : s.server.state ≠ .done) (hread : ∃ file, ReadToEnd (p.input ()) file)
    (hroom : (p.link ()).Roomy) (hlost : ¬ HandshakeAckLost p s) : Sys.Recoverable p s := by
  rcases hr.cases with ⟨hopening, hidle⟩ | ⟨S, hin⟩
  · have hs' : s.server.state = .listen := (hidle.state_ne rfl).resolve_right hs
    have hc' : (s.clients ()).state = .closed ∨ (s.clients ()).state = .synSent := by
      rcases hopening.state_ne rfl with h | h | h
      · exact Or.inl h
      · exact Or.inr h
      · exact absurd h hc
    exact (hr.handshakes hc' (Or.inl hs')).trans (fun _ ht => ht.ends hread hroom)
  · cases hin.server with
    | handshake hp _ => exact hin.recoversFromHandshake hc hp.state hread hroom hlost
    | established hp _ => exact hin.recoversFromEstablished hc hp.state hread hroom
    | lastAck hp _ => exact hin.recoversFromLastAck hc hp.state
    | done hd _ _ _ _ _ _ => exact absurd hd hs

/-- A session whose server waits in vain for the ACK of the handshake. -/
structure Stuck (p : Params Unit) (S : Session (p.link ()).size) (s : Sys Unit) : Prop where
  joint : Joint p (some ⟨(), S⟩) s
  accepted : S.accepted = true
  server : s.server.state = .handshake
  lost : ⟨.client (), .server, (p.link ()).handshakeAck.bytes⟩ ∉ s.net

theorem Message.flags_of_bytes {m m' : Message}
    (hm : m.payload.length ≤ maxPacketSize - headerSize)
    (hm' : m'.payload.length ≤ maxPacketSize - headerSize) (h : m.bytes = m'.bytes) :
    m.flags = m'.flags := by
  obtain ⟨hd, hparse, hread⟩ := m.parse hm
  obtain ⟨hd', hparse', hread'⟩ := m'.parse hm'
  rw [h, hparse'] at hparse
  have heq := (Prod.mk.inj (Except.ok.inj hparse)).1
  rw [← hread.flags, ← hread'.flags, heq]

/-- Without data a client that has come past the handshake has only its FIN to send. -/
theorem Onward.fin_of {L : Link} {S : Session L.size} {m : Message} (hm : Onward L S m)
    (hempty : L.size = 0) (hfin : S.finSeen = false) : m.flags = flagFin ∧ m.payload = [] := by
  cases hm with
  | data j chunk hj hc =>
    have hsent := S.sent_le
    omega
  | fin _ => exact ⟨rfl, rfl⟩
  | lastAck hf =>
    rw [S.finSeen_of_finished hf] at hfin
    exact Bool.noConfusion hfin

theorem Stuck.clientStep {S : Session (p.link ()).size} (h : Stuck p S s)
    (hempty : (p.link ()).size = 0) {e : Env (Node Unit)} {net : List (Datagram Unit)}
    (hr : Receives (.client ()) ((s.clients ()).reads e) e s.net net)
    (hrand : e.rand 0 = p.clientRand ()) : ∃ T, Stuck p T (s.stepClient p () e net) := by
  obtain ⟨hclient, hserver, hnet⟩ := h.joint.parties
  have hshake := hserver.handshake_of h.server
  obtain ⟨a, hf⟩ := h.joint.step p.isn_injective (.client s () e net hr hrand)
  obtain ⟨T, rfl, hle⟩ := Stage.Steps.le hf.steps rfl
  obtain ⟨U, hU⟩ : ∃ U, ClientOutcome (p.link ()) S .server
      ((s.clients ()).step (p.clientConfig ()) e) U :=
    hclient.step (isn_of_rand hrand) (hears_server hnet hr)
  refine ⟨T, hf.joint, hle.accepted h.accepted, h.server, ?_⟩
  intro hd
  rcases mem_stepClient hr hd with hd | ⟨o, ho, hsent, hd⟩
  · exact h.lost hd
  · obtain ⟨m, ⟨_, hm⟩, hdata⟩ := hU.sends o ho hsent
    have hbytes : (p.link ()).handshakeAck.bytes = m.bytes :=
      (congrArg Datagram.data hd).trans hdata
    rcases hm with rfl | hm | ⟨hacc, _⟩
    · exact absurd (Message.flags_of_bytes (Nat.zero_le _) (Nat.zero_le _) hbytes)
        (by dsimp only [Link.handshakeAck, synMessage]; decide)
    · obtain ⟨hflags, hpayload⟩ := hm.fin_of hempty (hU.finSeen.trans hshake.finSeen)
      have heq := Message.flags_of_bytes (Nat.zero_le _) (by rw [hpayload]; exact Nat.zero_le _)
        hbytes
      rw [hflags] at heq
      exact absurd heq (by dsimp only [Link.handshakeAck]; decide)
    · rw [h.accepted] at hacc
      exact Bool.noConfusion hacc

theorem Stuck.serverStep {S : Session (p.link ()).size} (h : Stuck p S s)
    (hempty : (p.link ()).size = 0) {e : Env (Node Unit)} {net : List (Datagram Unit)}
    (hr : Receives .server (s.server.reads e) e s.net net)
    (hrand : e.rand 0 = p.connRand ∧ e.rand 1 = p.seqRand)
    (he : e.Smooth p.serverConfig s.server.lastProgressMs) :
    ∃ T, Stuck p T (s.stepServer p e net) := by
  obtain ⟨_, hserver, hnet⟩ := h.joint.parties
  have hshake := hserver.handshake_of h.server
  obtain ⟨a, hf⟩ := h.joint.step p.isn_injective (.server s e net hr hrand (fun _ => he.fwrite))
  obtain ⟨T, rfl, hle⟩ := Stage.Steps.le hf.steps rfl
  have hears : Hears e (fun _ m => m.payload = [] ∧ (m.flags = flagSyn ∨ m.flags = flagFin)) := by
    intro src data hfrom
    have hd := hr.source hfrom
    cases hnet _ hd with
    | syn _ => exact ⟨_, ⟨rfl, Or.inl rfl⟩, rfl⟩
    | client m hm =>
      rcases hm with _ | ⟨_, hm⟩
      · exact absurd hd h.lost
      · obtain ⟨hflags, hpayload⟩ := hm.fin_of hempty hshake.finSeen
        exact ⟨m, ⟨hpayload, Or.inr hflags⟩, rfl⟩
  refine ⟨T, hf.joint, hle.accepted h.accepted, ?_, ?_⟩
  · apply Server.step_ignores he h.server (hserver.waiting (by rw [h.server]; decide))
    intro src hd payload hrecv
    obtain ⟨m, ⟨_, hflags⟩, hread⟩ :=
      hears.recv (fun _ m hm => by rw [hm.1]; exact Nat.zero_le _) hrecv
    rw [hread.flags]
    rcases hflags with hflags | hflags
    · rw [hflags]
      decide
    · rw [hflags]
      decide
  · intro hd
    rcases mem_stepServer hr hd with hd | ⟨_, _, _, hd⟩
    · exact h.lost hd
    · exact absurd (congrArg Datagram.src hd) (by simp)

theorem Stuck.step {S : Session (p.link ()).size} (h : Stuck p S s)
    (hempty : (p.link ()).size = 0) (hs : Sys.SmoothStep p s t) : ∃ T, Stuck p T t := by
  cases hs with
  | client i e net hr hrand he => exact h.clientStep hempty hr hrand
  | server e net hr hrand he => exact h.serverStep hempty hr hrand he

/-- The server never leaves HANDSHAKE again while nothing fails. -/
theorem HandshakeAckLost.stuck (h : HandshakeAckLost p s) (hr : Reached p s) :
    ¬ Sys.Recoverable p s := by
  intro hrec
  have hempty : (p.link ()).size = 0 := congrArg List.length h.empty
  obtain ⟨a, ha⟩ := hr.joint
  have hstart : ∃ S, Stuck p S s := by
    rcases ha.client () with hopening | ⟨S, rfl, hclient⟩
    · rcases h.client with hc | hc
      · exact absurd (hopening.state_ne hc) (by decide)
      · exact absurd (hopening.state_ne hc) (by decide)
    · have hacc : S.accepted = true := by
        apply hclient.accepted_of_running
        exact h.client.imp id Or.inl
      exact ⟨S, ha, hacc, h.server, h.lost⟩
  obtain ⟨t, ⟨S, hstuck⟩, hdone⟩ := hrec.of_invariant
    (I := fun s => ∃ S, Stuck p S s) (fun s t ⟨S, hS⟩ hs => hS.step hempty hs) hstart
  exact absurd (hstuck.server.symm.trans hdone.server.1) (by decide)

/-- A transfer in which both parties run can be brought to its end exactly if the input is read
without an error and it is not an empty one behind a handshake whose ACK is lost. -/
theorem recoverable_iff (h : Sys.Run p past s) (hc : (s.clients ()).state ≠ .done)
    (hs : s.server.state ≠ .done)
    (hroom : (p.isn ()).toNat + 1 + (content (p.input ())).length + windowSize < 2 ^ 32) :
    Sys.Recoverable p s ↔
      (∃ file, ReadToEnd (p.input ()) file) ∧ ¬ HandshakeAckLost p s := by
  have hr : Reached p s := ⟨past, h⟩
  constructor
  · intro hrec
    exact ⟨hrec.readToEnd hr, fun hlost => hlost.stuck hr hrec⟩
  · intro hcond
    obtain ⟨hread, hlost⟩ := hcond
    exact hr.recovers hc hs hread hroom hlost

end Solo

theorem recoverable_iff_hello :
    ((hello.schedule helloSent).2.clients ()).state = .established ∧
    (hello.schedule helloSent).2.server.state = .established ∧
    Sys.Recoverable hello (hello.schedule helloSent).2 := by
  have hc : ((hello.schedule helloSent).2.clients ()).state = .established := by decide +kernel
  have hs : (hello.schedule helloSent).2.server.state = .established := by decide +kernel
  refine ⟨hc, hs, ?_⟩
  apply (recoverable_iff (hello.schedule_run helloSent) (by rw [hc]; decide) (by rw [hs]; decide)
    (by decide)).mpr
  refine ⟨⟨[], [], rfl, rfl⟩, ?_⟩
  intro hlost
  exact absurd hlost.empty (List.cons_ne_nil _ _)

/-- A client with an empty input. -/
def silence : Params Unit := { hello with input := fun _ => [] }

/-- The ACK of the handshake is lost; the client goes on to send its FIN, which the server gets. -/
def silenceLost : List (Event Unit) :=
  [.client () 1000, .client () 1000, .server 1000, .serverRecv 0 1000, .server 1000,
    .clientRecv () 0 1000, .lose 0, .client () 1000, .client () 1000, .client () 1000,
    .serverRecv 0 1000]

/-- Only data stands in for a lost ACK, so without data the transfer never ends. -/
theorem lost_handshakeAck_not_recoverable :
    ¬ ∀ (p : Params Unit) (past : List (Sys Unit)) (s : Sys Unit), Sys.Run p past s →
      (s.clients ()).state ≠ .done → s.server.state ≠ .done →
      (∃ file, ReadToEnd (p.input ()) file) → Sys.Recoverable p s := by
  intro hall
  have hc : ((silence.schedule silenceLost).2.clients ()).state = .finWait := by decide +kernel
  have hs : (silence.schedule silenceLost).2.server.state = .handshake := by decide +kernel
  have hnet : (silence.schedule silenceLost).2.net = [] := by decide +kernel
  have hrun := silence.schedule_run silenceLost
  have hlost : HandshakeAckLost silence (silence.schedule silenceLost).2 := by
    refine ⟨rfl, Or.inr hc, hs, ?_⟩
    rw [hnet]
    exact List.not_mem_nil
  exact hlost.stuck ⟨_, hrun⟩ (hall silence _ _ hrun (by rw [hc]; decide) (by rw [hs]; decide)
    ⟨[], [], rfl, rfl⟩)

end ReliableUdp
