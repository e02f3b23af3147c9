import ReliableUdp.Endpoint.StopSignal
import ReliableUdp.Session.Retransmission

namespace ReliableUdp

open Transition Filter

variable {p : Params Unit} {r : EndlessRun p} {a : Stage p} {S : Session (p.link ()).size}
  {m : Message} {i : ℕ} {e : Env (Node Unit)}

/-- A fair run whose session comes to rest at `a` while both parties run on and the client has not
come to TIME_WAIT. The proof that there is none goes through the stages. -/
structure Stalled (r : EndlessRun p) (a : Stage p) : Prop where
  fair : r.Fair
  rest : ∀ᶠ i in atTop, Joint p a (r.state i)
  client : ∀ i, ((r.state i).clients ()).state ≠ .done
  server : ∀ i, (r.state i).server.state ≠ .done
  never : ∀ i, ((r.state i).clients ()).state ≠ .timeWait

namespace Stalled

theorem client_still (ha : ¬ ∃ e, r.action i = .client e) :
    (r.state (i + 1)).clients = (r.state i).clients :=
  (r.next i).client_still (fun e he => ha ⟨e, he⟩)

theorem server_still (ha : ¬ ∃ e, r.action i = .server e) :
    (r.state (i + 1)).server = (r.state i).server :=
  (r.next i).server_still (fun e he => ha ⟨e, he⟩)

section Waits

variable (h : Stalled r a)
include h

theorem serverWaits : ∃ᶠ i in atTop, (r.state i).Listens .server := by
  have hturns : ∃ᶠ i in atTop, (∃ e, r.action i = .server e) ∧ (r.state i).Listens .server := by
    apply frequently_there h.fair.server
    · apply Eventually.of_forall
      intro i hturn hnot
      obtain ⟨e, ha⟩ := hturn
      have hacts := EndlessRun.serverActs ha
      rcases (r.reached i).server_waiting (h.server i) with hpc | hpc
      · refine ⟨retransmitIntervalMs, ?_⟩
        rw [hacts.server, Server.step_turn hacts.smooth (h.server i) hpc]
        rfl
      · exact absurd hpc hnot
    · apply Eventually.of_forall
      intro i hno hlistens
      rw [Sys.Listens, server_still hno]
      exact hlistens
  exact hturns.mono (fun _ hi => hi.2)

/-- Outside its transfer loop the client comes to its wait again and again. -/
theorem clientWaits (hout : ∀ᶠ i in atTop, ((r.state i).clients ()).state.Outside) :
    ∃ᶠ i in atTop, (∃ e, r.action i = .client e) ∧ (r.state i).Listens (.client ()) := by
  apply frequently_there h.fair.client
  · apply hout.mono
    intro i hst hturn hnot
    obtain ⟨e, ha⟩ := hturn
    have hacts := EndlessRun.clientActs ha
    rcases (r.reached i).client_waiting hst with hpc | hpc
    · rw [Sys.Listens, hacts.client]
      rcases hst with hst | hst | hst
      · exact ⟨_, by rw [Client.step_synWait hacts.smooth hst hpc]; rfl⟩
      · exact ⟨_, by rw [Client.step_sendsFin hacts.smooth hst hpc]; rfl⟩
      · exact ⟨_, by rw [Client.step_timeWait hacts.smooth hst hpc]; rfl⟩
    · exact absurd hpc hnot
  · apply Eventually.of_forall
    intro i hno hlistens
    rw [Sys.Listens, client_still hno]
    exact hlistens

/-- What the client sends again and again the server takes again and again. -/
theorem serverHears (hm : ∃ᶠ i in atTop, ⟨.client (), .server, m.bytes⟩ ∈ r.puts i)
    (hlen : m.payload.length ≤ maxPacketSize - headerSize) :
    ∃ᶠ i in atTop, ∃ ms e hd, r.ServerTakes i m ms e hd :=
  (h.fair.network _ hm h.serverWaits).mono (fun _ hi => EndlessRun.serverTakes hi hlen)

theorem clientHears (hm : ∃ᶠ i in atTop, ⟨.server, .client (), m.bytes⟩ ∈ r.puts i)
    (hwaits : ∃ᶠ i in atTop, (r.state i).Listens (.client ()))
    (hlen : m.payload.length ≤ maxPacketSize - headerSize) :
    ∃ᶠ i in atTop, ∃ ms e hd, r.ClientTakes i m ms e hd :=
  (h.fair.network _ hm hwaits).mono (fun _ hi => EndlessRun.clientTakes hi hlen)

end Waits

theorem sessions (h : Stalled r (some ⟨(), S⟩)) :
    ∀ᶠ i in atTop, InSession p S (r.state i) ∧ InSession p S (r.state (i + 1)) := by
  have hnow : ∀ᶠ i in atTop, InSession p S (r.state i) :=
    h.rest.mono (fun i hi => hi.inSession (r.reached i))
  exact hnow.and (eventually_next hnow)

section Opening

section Unreached

variable (h : Stalled r a)
  (hopening : ∀ᶠ i in atTop, Opening (p.isn ()) (p.input ()) .server ((r.state i).clients ()))
  (hquiet : ∀ᶠ i in atTop, ∀ e, r.action i = .client e → e.recvfrom = none)
include h hopening hquiet

/-- A client that nothing reaches stays in SYN_SENT. -/
theorem synSent : ∀ᶠ i in atTop, ((r.state i).clients ()).state = .synSent := by
  obtain ⟨n, hn⟩ := eventually_atTop.mp (hopening.and hquiet)
  obtain ⟨i, hi, e, ha⟩ := frequently_atTop.mp h.fair.client n
  have hstays (j : ℕ) (hj : n ≤ j) (hst : ((r.state j).clients ()).state = .synSent) :
      ((r.state (j + 1)).clients ()).state = .synSent := by
    by_cases hturn : ∃ e, r.action j = .client e
    · obtain ⟨e, ha⟩ := hturn
      have hacts := EndlessRun.clientActs ha
      rw [hacts.client]
      rcases (hn j hj).1.waiting (Or.inl hst) with hpc | ⟨ms, hpc⟩
      · rw [Client.step_synWait hacts.smooth hst hpc]
        exact hst
      · rw [Client.step_synRepeat hacts.smooth hst hpc
          (hacts.smooth.idle ((hn j hj).2 e ha))]
        rfl
    · rw [client_still hturn]
      exact hst
  apply eventually_of_kept (i := i + 1)
  · rcases (hn i hi).1.state_ne rfl with hst | hst | hst
    · have hacts := EndlessRun.clientActs ha
      have hpc : ((r.state i).clients ()).pc = .fsm := by
        cases (hn i hi).1.phase with
        | closed _ hpc _ => exact hpc
        | synSent hst' _ _ _ => exact absurd (hst.symm.trans hst') (by decide)
        | done hst' _ => exact absurd (hst.symm.trans hst') (by decide)
      rw [hacts.client, Client.step_opens hacts.smooth hst hpc]
      rfl
    · exact hstays i hi hst
    · exact absurd hst (h.client i)
  · exact fun j hj => hstays j (by omega)

/-- It sends its SYN again and again. -/
theorem repeatsSyn :
    ∃ᶠ i in atTop, ⟨.client (), .server, (synMessage (p.isn ())).bytes⟩ ∈ r.puts i := by
  have hsyn := h.synSent hopening hquiet
  have hwaits := h.clientWaits (hsyn.mono (fun _ hst => Or.inl hst))
  apply (hwaits.and_eventually (hopening.and (hquiet.and hsyn))).mono
  intro i hi
  obtain ⟨⟨⟨e, ha⟩, ms, hpc⟩, hop, hnone, hst⟩ := hi
  have hacts := EndlessRun.clientActs ha
  have hmem := EndlessRun.mem_puts_client ha
    (o := ((r.state i).clients ()).control e flagSyn)
    (by
      rw [Client.step_synRepeat hacts.smooth hst hpc (hacts.smooth.idle (hnone e ha))]
      exact List.mem_singleton_self _)
    (hacts.smooth.sendto _)
  simp only [Client.control, sendPacket, (hop.numbers hst).2, hop.peer] at hmem
  exact hmem

end Unreached

/-- The session begins. -/
theorem begins (h : Stalled r none) : False := by
  have hopening : ∀ᶠ i in atTop,
      Opening (p.isn ()) (p.input ()) .server ((r.state i).clients ()) := by
    apply h.rest.mono
    intro i hi
    exact (hi.client ()).resolve_right (fun ⟨_, hs, _⟩ => absurd hs (by simp))
  have hquiet : ∀ᶠ i in atTop, ∀ e, r.action i = .client e → e.recvfrom = none := by
    apply h.rest.mono
    intro i hi e ha
    obtain ⟨net, hr⟩ := (EndlessRun.clientActs ha).receives
    cases he : e.recvfrom with
    | none => rfl
    | some d =>
      cases hi with
      | idle _ _ _ hnet =>
        obtain ⟨j, hj⟩ := hnet _ (hr.source he)
        exact absurd (congrArg Datagram.dst hj) (by simp)
  have hidle : ∀ᶠ i in atTop, (r.state i).server.state = .listen := by
    apply h.rest.mono
    intro i hi
    have hserver := hi.server.resolve_right (fun ⟨_, _, hs, _⟩ => absurd hs (by simp))
    exact (hserver.state_ne rfl).resolve_right (h.server i)
  have hhears := h.serverHears (h.repeatsSyn hopening hquiet) (Nat.zero_le _)
  obtain ⟨i, ⟨ms, e, hd, ht⟩, hnow, hnext⟩ :=
    (hhears.and_eventually (hidle.and (eventually_next hidle))).exists
  rw [ht.acts.server, Server.step_admits ht.acts.smooth hnow ht.pc ht.selected ht.recv
    ht.read.flags] at hnext
  exact absurd hnext (by simp [Server.goto])

/-- The server's numbers have not been taken: the server has answered a SYN, and no more. -/
theorem handshaking (h : Stalled r (some ⟨(), S⟩)) (hacc : S.accepted = false) :
    ∀ᶠ i in atTop, (r.state i).server.state = .handshake ∧
      Opening (p.isn ()) (p.input ()) .server ((r.state i).clients ()) := by
  obtain ⟨hopened, _, hclosing, _⟩ := S.untouched hacc
  apply h.sessions.mono
  intro i hi
  have hin := hi.1
  constructor
  · cases hin.server with
    | handshake hp _ => exact hp.state
    | established hp _ => exact Bool.noConfusion (hopened.symm.trans hp.opened)
    | lastAck hp _ =>
      exact Bool.noConfusion (hclosing.symm.trans (S.closing_of_finSeen hp.finSeen))
    | done hst _ _ _ _ _ _ => exact absurd hst (h.server i)
  · apply hin.reached.opening
    cases hin.client.running (h.client i) with
    | opening hst _ => exact hst
    | established hst _ =>
      exact Bool.noConfusion (hacc.symm.trans (hin.client.accepted_of_running (Or.inl hst)))
    | finWait hst _ =>
      exact Bool.noConfusion
        (hacc.symm.trans (hin.client.accepted_of_running (Or.inr (Or.inl hst))))
    | timeWait hst _ => exact absurd hst (h.never i)

/-- Whatever reaches the client now is the SYN+ACK, and it is taken. -/
theorem hearsNothing (h : Stalled r (some ⟨(), S⟩)) (hacc : S.accepted = false) :
    ∀ᶠ i in atTop, ∀ e, r.action i = .client e → e.recvfrom = none := by
  have hshaking := h.handshaking hacc
  have hno (j : ℕ) : (r.state j).server.state ≠ .established := by
    intro hst
    have hpast : (r.state j).server.state.PastHandshake := by
      rw [hst]
      exact ServerState.past_established
    obtain ⟨i, hi, hs, _⟩ := ((EndlessRun.past_from hpast).and hshaking).exists
    exact hi.2 hs
  apply ((h.rest.and hshaking).and (eventually_next hshaking)).mono
  intro i hi e ha
  obtain ⟨⟨hjoint, _, hop⟩, _, hnext⟩ := hi
  have hacts := EndlessRun.clientActs ha
  obtain ⟨net, hr⟩ := hacts.receives
  cases he : e.recvfrom with
  | none => rfl
  | some d =>
    obtain ⟨⟨ms, hpc⟩, hsel⟩ := hr.taken (by simp [he])
    obtain ⟨_, _, hnet⟩ := hjoint.parties
    obtain ⟨m, ⟨hsrc, hm⟩, hdata⟩ := hears_server hnet hr d.1 d.2 he
    have hfrom : e.recvfrom = some (.server, m.bytes) := by rw [he, ← hsrc, ← hdata]
    have hst : ((r.state i).clients ()).state = .synSent := by
      cases hop.phase with
      | closed _ hpc' _ => exact absurd (hpc.symm.trans hpc') (by simp)
      | synSent hst _ _ _ => exact hst
      | done hst _ => exact absurd hst (h.client i)
    cases hm with
    | synAck =>
      obtain ⟨hd, hrecv, hread⟩ := (p.link ()).synAck.recv (Nat.zero_le _)
        ((r.state i).clients ()).serverAddr hfrom
      have hnum : p.isn () + 1 = (p.link ()).num 1 := (p.link ()).isn_succ
      have hid : hd.connId = (p.link ()).connId := hread.connId
      have hstep := Client.step_accepts hacts.smooth hst hpc hsel hrecv (by
        simp only [Client.TakesSynAck, (hop.numbers hst).2, hnum, hid]
        exact ⟨hread.flags, (p.link ()).connId_ne, hread.ackNum⟩)
      have hopen : ((r.state (i + 1)).clients ()).state = .established := by
        rw [hacts.client, hstep]
        rfl
      exact absurd (hnext.state_ne hopen) (by decide)
    | dataAck k hk => exact absurd (hr.source hfrom) (r.no_ack hno rfl (Nat.zero_le _) _ i)
    | finAck hfin =>
      have hclosing := S.closing_of_finSeen hfin
      rw [(S.untouched hacc).2.2.1] at hclosing
      exact Bool.noConfusion hclosing

/-- The client takes the server's numbers. -/
theorem accepts (h : Stalled r (some ⟨(), S⟩)) (hacc : S.accepted = false) : False := by
  have hshaking := h.handshaking hacc
  have hquiet := h.hearsNothing hacc
  have hopening := hshaking.mono (fun _ hi => hi.2)
  have hanswers : ∃ᶠ i in atTop,
      ⟨.server, .client (), (p.link ()).synAck.bytes⟩ ∈ r.puts i := by
    apply ((h.serverHears (h.repeatsSyn hopening hquiet) (Nat.zero_le _)).and_eventually
      (hshaking.and h.sessions)).mono
    intro i hi
    obtain ⟨⟨ms, e, hd, ht⟩, ⟨hs, _⟩, hin, _⟩ := hi
    have hshake := hin.server.handshake_of hs
    have hnum : p.isn () + 1 = (p.link ()).num 1 := (p.link ()).isn_succ
    have hseq : hd.seqNum = p.isn () := ht.read.seqNum
    have hstep := Server.step_answers ht.acts.smooth hs ht.pc ht.selected ht.recv (by
      simp only [hshake.connection, hseq, hnum]
      exact ⟨ht.read.flags, rfl⟩)
    have hmem := EndlessRun.mem_puts_server ht.action
      (o := Server.control { (r.state i).server with clientAddr := Node.client () } e
        (flagSyn ||| flagAck))
      (by rw [hstep]; exact List.mem_singleton_self _) (ht.acts.smooth.sendto _)
    simp only [Server.control, sendPacket, hshake.connection] at hmem
    exact hmem
  have hwaits := h.clientWaits ((h.synSent hopening hquiet).mono (fun _ hst => Or.inl hst))
  obtain ⟨i, ⟨ms, e, hd, ht⟩, hnone⟩ := ((h.clientHears hanswers
    (hwaits.mono (fun _ hi => hi.2)) (Nat.zero_le _)).and_eventually hquiet).exists
  have hrecv := ht.recv
  rw [recvPacket, hnone e ht.action] at hrecv
  exact absurd (congrArg Prod.snd hrecv) (by simp)

end Opening

section Closing

variable (h : Stalled r (some ⟨(), S⟩)) (hclosing : S.closing = true)
include h hclosing

theorem finWaiting : ∀ᶠ i in atTop, ((r.state i).clients ()).state = .finWait := by
  apply h.sessions.mono
  intro i hi
  cases hi.1.client.running (h.client i) with
  | opening _ hacc => rw [(S.untouched hacc).2.2.1] at hclosing; exact Bool.noConfusion hclosing
  | established _ hopen => rw [hopen] at hclosing; exact Bool.noConfusion hclosing
  | finWait hst _ => exact hst
  | timeWait hst _ => exact absurd hst (h.never i)

/-- Every turn of the client in FIN_WAIT sends the FIN. -/
theorem repeatsFin :
    ∃ᶠ i in atTop, ⟨.client (), .server, (p.link ()).fin.bytes⟩ ∈ r.puts i := by
  have hwaiting := h.finWaiting hclosing
  have hturns : ∃ᶠ i in atTop, (∃ e, r.action i = .client e) ∧
      ((r.state i).clients ()).pc = .fsm := by
    apply frequently_there h.fair.client
    · apply hwaiting.mono
      intro i hst hturn hnot
      obtain ⟨e, ha⟩ := hturn
      rcases (r.reached i).client_waiting (Or.inr (Or.inl hst)) with hpc | ⟨ms, hpc⟩
      · exact absurd hpc hnot
      · rw [(EndlessRun.clientActs ha).client, Client.step_select hpc]
        exact Client.resume_turns (Or.inr (Or.inl hst))
    · apply Eventually.of_forall
      intro i hno hpc
      rw [client_still hno]
      exact hpc
  apply (hturns.and_eventually (hwaiting.and h.sessions)).mono
  intro i hi
  obtain ⟨⟨⟨e, ha⟩, hpc⟩, hst, hin, _⟩ := hi
  have hacts := EndlessRun.clientActs ha
  have hmem := EndlessRun.mem_puts_client ha
    (o := ((r.state i).clients ()).control e flagFin)
    (by
      rw [Client.step_sendsFin hacts.smooth hst hpc]
      exact List.mem_singleton_self _)
    (hacts.smooth.sendto _)
  simp only [Client.control, sendPacket, (hin.client.finWait_of hst).connection,
    hin.client.peer] at hmem
  exact hmem

/-- The server takes the FIN. -/
theorem takesFin (hpast : ∀ᶠ i in atTop, (r.state i).server.state.PastHandshake)
    (hfin : S.finSeen = false) : False := by
  have hestablished : ∀ᶠ i in atTop, (r.state i).server.state = .established := by
    apply (hpast.and h.sessions).mono
    intro i hi
    cases hi.2.1.server with
    | handshake hp _ => exact absurd hp.state hi.1.2
    | established hp _ => exact hp.state
    | lastAck hp _ => exact Bool.noConfusion (hfin.symm.trans hp.finSeen)
    | done hst _ _ _ _ _ _ => exact absurd hst (h.server i)
  have hall := (S.delivered_of_closing hclosing).2.1
  have hhears := h.serverHears (h.repeatsFin hclosing) (Nat.zero_le _)
  obtain ⟨i, ⟨ms, e, hd, ht⟩, ⟨hst, hin, _⟩, hnext⟩ := (hhears.and_eventually
    ((hestablished.and h.sessions).and (eventually_next hestablished))).exists
  have hstep := Server.step_takesFin ht.acts.smooth hst ht.pc ht.selected ht.recv (by
    simp only [(hin.server.receiving hst).connection, hall]
    exact ⟨ht.read.flags, ht.read.connId, ht.read.seqNum⟩)
  rw [ht.acts.server, hstep] at hnext
  exact absurd hnext (by simp [Server.goto])

/-- The server has taken the FIN, and the client takes the FIN+ACK. -/
theorem takesFinAck (hfin : S.finSeen = true) : False := by
  have hlast : ∀ᶠ i in atTop, (r.state i).server.state = .lastAck := by
    apply h.sessions.mono
    intro i hi
    exact (hi.1.server.complete hfin).2.resolve_right (h.server i)
  have hanswers : ∃ᶠ i in atTop,
      ⟨.server, .client (), (p.link ()).finAck.bytes⟩ ∈ r.puts i := by
    apply ((h.serverHears (h.repeatsFin hclosing) (Nat.zero_le _)).and_eventually
      (hlast.and h.sessions)).mono
    intro i hi
    obtain ⟨⟨ms, e, hd, ht⟩, hst, hin, _⟩ := hi
    have hconn := (hin.server.closing_of hst).connection
    have hseq : hd.seqNum = (p.link ()).num (1 + (p.link ()).size) := ht.read.seqNum
    have hstep := Server.step_answersFin ht.acts.smooth hst ht.pc ht.selected ht.recv (by
      simp only [hconn, Link.serverConnection, hseq, Link.num_fin]
      exact ⟨ht.read.flags, ht.read.connId, trivial⟩)
    have hmem := EndlessRun.mem_puts_server ht.action
      (o := Server.control { (r.state i).server with clientAddr := Node.client () } e
        (flagFin ||| flagAck))
      (by rw [hstep]; exact List.mem_singleton_self _) (ht.acts.smooth.sendto _)
    simp only [Server.control, sendPacket, hconn] at hmem
    exact hmem
  have hwaiting := h.finWaiting hclosing
  have hwaits := h.clientWaits (hwaiting.mono (fun _ hst => Or.inr (Or.inl hst)))
  obtain ⟨i, ⟨ms, e, hd, ht⟩, ⟨hst, hin, _⟩, hnext⟩ := ((h.clientHears hanswers
    (hwaits.mono (fun _ hi => hi.2)) (Nat.zero_le _)).and_eventually
    ((hwaiting.and h.sessions).and (eventually_next hwaiting))).exists
  have hstep := Client.step_finishes ht.acts.smooth hst ht.pc ht.selected ht.recv (by
    simp only [(hin.client.finWait_of hst).connection, Link.connection, Link.num_fin]
    exact ⟨ht.read.flags, ht.read.connId, ht.read.ackNum⟩)
  rw [ht.acts.client, hstep] at hnext
  exact absurd hnext (by simp [Client.goto])

end Closing

section Transfer

/-- In its transfer loop, here and in the next moment. -/
structure InLoop (r : EndlessRun p) (S : Session (p.link ()).size) (i : ℕ) : Prop where
  session : InSession p S (r.state i)
  next : InSession p S (r.state (i + 1))
  client : ((r.state i).clients ()).Looping
  stays : ((r.state (i + 1)).clients ()).Looping

/-- The client sends the oldest unacknowledged chunk. -/
def Resends (r : EndlessRun p) (S : Session (p.link ()).size) (i : ℕ) : Prop :=
  ∃ e, r.action i = .client e ∧
    SendsOldest (p.link ()) S (((r.state i).clients ()).step (p.clientConfig ()) e).2

theorem timer_of {x : Transfer} (hx : ((r.state i).clients ()).xfer = some x) :
    r.timer i = x.gbn.windowTimerMs := by
  rw [EndlessRun.timer, Client.window, hx]

variable (h : Stalled r (some ⟨(), S⟩)) (hacc : S.accepted = true) (hopen : S.closing = false)
include h hacc hopen

theorem transfers : r.Transfers := by
  apply h.sessions.mono
  intro i hi
  cases hi.1.client.running (h.client i) with
  | opening _ hnot => exact Bool.noConfusion (hacc.symm.trans hnot)
  | established hst _ => exact hst
  | finWait _ hclosing => exact Bool.noConfusion (hopen.symm.trans hclosing)
  | timeWait hst _ => exact absurd hst (h.never i)

theorem loops : ∀ᶠ i in atTop, InLoop r S i := by
  have htrans : ∀ᶠ i in atTop, ((r.state i).clients ()).state = .established :=
    h.transfers hacc hopen
  obtain ⟨n, hn⟩ := eventually_atTop.mp (h.sessions.and (htrans.and (eventually_next htrans)))
  have hloops {e : Env (Node Unit)} (j : ℕ) (hj : n ≤ j) (ha : r.action j = .client e) :
      ((r.state (j + 1)).clients ()).Looping := by
    obtain ⟨⟨hin, _⟩, hst, hst'⟩ := hn j hj
    have hacts := EndlessRun.clientActs ha
    obtain ⟨_, ⟨hpc, _, _, hnone⟩ | ⟨hpc, x, hx, _⟩⟩ := hin.client.inState hst
    · rw [hacts.client, Client.step_enters hacts.smooth hst hpc]
      exact ⟨hst, Or.inl rfl, _, rfl⟩
    · have hstop : ((r.state (j + 1)).clients ()).Stopping := by
        rw [hacts.client]
        rcases hpc with hpc | ⟨ms, hpc⟩
        · rw [Client.step_transfer hpc hx]
          exact Client.transferRound_stopping hst
        · rw [Client.step_select hpc, Client.resume_established hst hx]
          exact Client.transferReady_stopping hst hx (Client.receives_transfer hpc hst hx e)
      cases hstop with
      | looping hlooping => exact hlooping
      | leaving hfin _ => exact absurd (hst'.symm.trans hfin) (by decide)
      | exited hdone => exact absurd hdone.state (h.client (j + 1))
  obtain ⟨i, hi, e, ha⟩ := frequently_atTop.mp h.fair.client n
  have hlooping : ∀ᶠ j in atTop, ((r.state j).clients ()).Looping := by
    apply eventually_of_kept (i := i + 1) (hloops i hi ha)
    intro j hj hlooping
    by_cases hturn : ∃ e, r.action j = .client e
    · obtain ⟨e, ha⟩ := hturn
      exact hloops j (by omega) ha
    · rw [client_still hturn]
      exact hlooping
  apply (h.sessions.and (hlooping.and (eventually_next hlooping))).mono
  intro j hj
  exact ⟨hj.1.1, hj.1.2, hj.2.1, hj.2.2⟩

variable (hread : ∃ file, ReadToEnd (p.input ()) file) (hroom : (p.link ()).Roomy)
include hread hroom

/-- The window is not empty: a round would fill it or end the transfer. -/
theorem outstanding : S.acked < S.sent := by
  have hrounds := h.fair.late (h.transfers hacc hopen) 0
  obtain ⟨i, ⟨e, ha, hpc, _⟩, hl⟩ := (hrounds.and_eventually (h.loops hacc hopen)).exists
  obtain ⟨x, hx⟩ := hl.client.xfer
  obtain ⟨htrans, hsending⟩ := hl.session.client.sending hl.client.state hx
  have hacts := EndlessRun.clientActs ha
  obtain ⟨y, file, sends, hround, hstep⟩ :=
    hsending.round htrans hread hroom hacts.smooth hpc hx
  have hnext := hl.stays.state
  rw [hacts.client, hstep] at hnext
  have hbusy : y.Busy := by
    intro hempty
    have heof : y.eofReached = true := hround.ready.resolve_right (fun hne => hne hempty)
    rw [Client.transferWait, if_pos ⟨heof, hempty⟩] at hnext
    exact absurd hnext (by simp [Client.transferDone, Client.goto])
  rcases Client.transferWait_window { (r.state i).clients () with file := file } y e with
    hfin | ⟨z, hz, hbase, htop⟩
  · exact absurd (hnext.symm.trans hfin) (by decide)
  · have hxfer : ((r.state (i + 1)).clients ()).xfer = some z := by rw [hacts.client, hstep, hz]
    obtain ⟨_, hz⟩ := hl.next.client.sending hl.stays.state hxfer
    apply hz.busy_iff.mp
    rw [Transfer.Busy, hbase, htop]
    exact hbusy

theorem busy (hl : InLoop r S i) {x : Transfer} (hx : ((r.state i).clients ()).xfer = some x) :
    x.Busy :=
  (hl.session.client.sending hl.client.state hx).2.busy_iff.mpr
    (h.outstanding hacc hopen hread hroom)

/-- A round that comes early leads to a wait. -/
theorem loopWaits : ∃ᶠ i in atTop, (r.state i).Listens (.client ()) := by
  have hearly := h.fair.early (h.transfers hacc hopen)
  apply (tendsto_add_atTop_nat 1).frequently
  apply (hearly.and_eventually (h.loops hacc hopen)).mono
  intro i hi
  obtain ⟨⟨e, ha, hpc, hnot⟩, hl⟩ := hi
  obtain ⟨x, hx⟩ := hl.client.xfer
  obtain ⟨htrans, hsending⟩ := hl.session.client.sending hl.client.state hx
  have hacts := EndlessRun.clientActs ha
  rw [Client.Overdue, Client.window, hx] at hnot
  rcases hsending.watches htrans hread hroom hacts.smooth hpc hx
    (h.busy hacc hopen hread hroom hl hx) with ⟨hover, _⟩ | ⟨_, z, ms, _, hselect, _⟩
  · rw [Transfer.startedMs] at hover
    split_ifs at hover with h0
    · rw [UInt64.sub_self] at hover
      exact absurd hover (by decide)
    · exact absurd ⟨h0, hover⟩ hnot
  · exact ⟨ms, by rw [hacts.client, hselect]⟩

/-- A round that does not send the window has started its timer, and finds time left. -/
theorem quietRound (hl : InLoop r S i) (ha : r.action i = .client e)
    (hpc : ((r.state i).clients ()).pc = .transfer) (hno : ¬ Resends r S i) :
    r.timer (i + 1) = (if r.timer i = 0 then e.nowMs else r.timer i) ∧
      ¬ UInt64.ofNat retransmitIntervalMs ≤ e.nowMs - r.timer (i + 1) := by
  obtain ⟨x, hx⟩ := hl.client.xfer
  obtain ⟨htrans, hsending⟩ := hl.session.client.sending hl.client.state hx
  have hacts := EndlessRun.clientActs ha
  rcases hsending.watches htrans hread hroom hacts.smooth hpc hx
    (h.busy hacc hopen hread hroom hl hx) with ⟨_, hsends⟩ | ⟨hwaits, z, _, hz, _, htimer⟩
  · exact absurd ⟨e, ha, hsends⟩ hno
  · rw [← hacts.client] at hz
    rw [timer_of hz, htimer, timer_of hx]
    exact ⟨rfl, hwaits⟩

theorem timerKept (hl : InLoop r S i) (hno : ¬ Resends r S i) (hruns : r.timer i ≠ 0) :
    r.timer (i + 1) = r.timer i := by
  by_cases hturn : ∃ e, r.action i = .client e
  · obtain ⟨e, ha⟩ := hturn
    rcases hl.client.pc with hpc | ⟨ms, hpc⟩
    · rw [(h.quietRound hacc hopen hread hroom hl ha hpc hno).1, if_neg hruns]
    · obtain ⟨x, hx⟩ := hl.client.xfer
      have hsending := (hl.session.client.sending hl.client.state hx).2
      have hacts := EndlessRun.clientActs ha
      rcases hsending.keepsTimer hl.client.state hacts.smooth hpc hx
        (h.busy hacc hopen hread hroom hl hx) with hsends | ⟨z, hz, hkept | hmoved⟩
      · exact absurd ⟨e, ha, hsends⟩ hno
      · rw [← hacts.client] at hz
        rw [timer_of hz, hkept, timer_of hx]
      · rw [← hacts.client] at hz
        have hacked := (hl.next.client.sending hl.stays.state hz).2.acked
        exact absurd (UInt32.toNat_inj.mp (hacked.trans hsending.acked.symm)) hmoved
  · rw [EndlessRun.timer, client_still hturn, EndlessRun.timer]

/-- The timer has to run out, unless the window is sent for another reason. -/
theorem resends : ∃ᶠ i in atTop, Resends r S i := by
  intro hnever
  obtain ⟨n, hn⟩ := eventually_atTop.mp (hnever.and (h.loops hacc hopen))
  have hlate := h.fair.late (h.transfers hacc hopen)
  obtain ⟨i, hi, e, ha, hpc, hover⟩ := frequently_atTop.mp (hlate 0) n
  have hruns : r.timer (i + 1) ≠ 0 := by
    rw [(h.quietRound hacc hopen hread hroom (hn i hi).2 ha hpc (hn i hi).1).1]
    split_ifs with h0
    · intro hnow
      rw [hnow] at hover
      exact absurd hover (by decide)
    · exact h0
  have hsame : ∀ᶠ j in atTop, r.timer j = r.timer (i + 1) := by
    apply eventually_of_kept (P := fun j => r.timer j = r.timer (i + 1)) rfl
    intro j hj heq
    obtain ⟨hno, hl⟩ := hn j (by omega)
    rw [h.timerKept hacc hopen hread hroom hl hno (by rw [heq]; exact hruns), heq]
  obtain ⟨j, ⟨e', ha', hpc', hover'⟩, hj, hno, hl⟩ := ((hlate (r.timer (i + 1))).and_eventually
    ((eventually_next hsame).and (hnever.and (h.loops hacc hopen)))).exists
  apply (h.quietRound hacc hopen hread hroom hl ha' hpc' hno).2
  rw [hj]
  exact hover'

/-- The packet at the front of the window arrives again and again. -/
theorem oldestArrives : ∃ chunk, (p.link ()).chunks[S.acked]? = some chunk ∧
    ∃ᶠ i in atTop, ∃ ms e hd, r.ServerTakes i ((p.link ()).data S.acked chunk) ms e hd := by
  have hsends := h.resends hacc hopen hread hroom
  obtain ⟨_, _, _, chunk, hchunk, _⟩ := hsends.exists
  refine ⟨chunk, hchunk, h.serverHears ?_ chunk.property.2⟩
  apply (hsends.and_eventually h.sessions).mono
  intro i hi
  obtain ⟨⟨e, ha, other, hother, o, ho, hdata, hsent⟩, _, hnext⟩ := hi
  obtain rfl : other = chunk := Option.some.inj (hother.symm.trans hchunk)
  have hgoes : GoesTo Client.serverAddr _
      (((r.state i).clients ()).step (p.clientConfig ()) e) := Client.step_goesTo
  have hdst : o.dst = .server := by
    rw [hgoes.2 o ho, ← hgoes.1, ← (EndlessRun.clientActs ha).client, hnext.client.peer]
  have hmem := EndlessRun.mem_puts_client ha ho hsent
  rw [hdst, hdata] at hmem
  exact hmem

/-- The server opens: if not by the ACK of the handshake, then by the first data packet. -/
theorem serverOpens : ∀ᶠ i in atTop, (r.state i).server.state = .established := by
  have hnotSeen : S.finSeen ≠ true := by
    intro hfin
    rw [S.closing_of_finSeen hfin] at hopen
    exact Bool.noConfusion hopen
  obtain ⟨chunk, hchunk, harrives⟩ := h.oldestArrives hacc hopen hread hroom
  obtain ⟨i, ⟨ms, e, hd, ht⟩, hin, _⟩ := (harrives.and_eventually h.sessions).exists
  have hpast : ∀ᶠ j in atTop, (r.state j).server.state.PastHandshake := by
    cases hin.server with
    | handshake hp _ =>
      have hfirst : S.acked = 0 := by
        have hle := S.acked_le
        have hnone := hp.delivered
        omega
      have hseq : hd.seqNum = (p.link ()).num (1 + S.acked) := ht.read.seqNum
      have hst := Server.step_opened ht.acts.smooth hp.state ht.pc ht.selected ht.recv (by
        simp only [hp.connection, hseq, hfirst]
        exact ⟨Or.inr ht.read.flags, ht.read.connId, ht.read.ackNum, rfl⟩)
      apply EndlessRun.past_from (i := i + 1)
      rw [ht.acts.server, hst]
      exact ServerState.past_established
    | established hp _ =>
      apply EndlessRun.past_from (i := i)
      rw [hp.state]
      exact ServerState.past_established
    | lastAck hp _ => exact absurd hp.finSeen hnotSeen
    | done hst _ _ _ _ _ _ => exact absurd hst (h.server i)
  apply (hpast.and h.sessions).mono
  intro j hj
  cases hj.2.1.server with
  | handshake hp _ => exact absurd hp.state hj.1.2
  | established hp _ => exact hp.state
  | lastAck hp _ => exact absurd hp.finSeen hnotSeen
  | done hst _ _ _ _ _ _ => exact absurd hst (h.server j)

/-- The packet at the front is not the one the server expects, or it would be delivered; so the
server answers it with the number it has got to. -/
theorem answers : S.acked < S.delivered ∧
    ∃ᶠ i in atTop, ⟨.server, .client (), ((p.link ()).dataAck S.delivered).bytes⟩ ∈ r.puts i := by
  have hserver := h.serverOpens hacc hopen hread hroom
  obtain ⟨chunk, _, harrives⟩ := h.oldestArrives hacc hopen hread hroom
  have hall : ∃ᶠ i in atTop, S.acked ≠ S.delivered ∧
      ⟨.server, .client (), ((p.link ()).dataAck S.delivered).bytes⟩ ∈ r.puts i := by
    apply (harrives.and_eventually
      (h.sessions.and (hserver.and (eventually_next hserver)))).mono
    intro i hi
    obtain ⟨⟨ms, e, hd, ht⟩, ⟨hin, hin'⟩, hst, hst'⟩ := hi
    have hconn := (hin.server.receiving hst).connection
    have hdata : hd.flags = flagData ∧ hd.connId = (r.state i).server.connection.connId := by
      rw [hconn]
      exact ⟨ht.read.flags, ht.read.connId⟩
    have hseq : hd.seqNum = (p.link ()).num (1 + S.acked) := ht.read.seqNum
    have hother : hd.seqNum ≠ (r.state i).server.connection.ackNum := by
      intro hfirst
      have hcounts :=
        Server.step_counts ht.acts.smooth hst ht.pc ht.selected ht.recv hdata hfirst
      rw [← ht.acts.server, (hin'.server.receiving hst').connection, hconn] at hcounts
      have htoNat := congrArg UInt32.toNat hcounts
      rw [UInt32.toNat_add, UInt32.toNat_one] at htoNat
      omega
    constructor
    · intro heq
      rw [hseq, heq, hconn] at hother
      exact hother rfl
    · have hmem := EndlessRun.mem_puts_server ht.action
        (o := ((r.state i).server.afterData (.client ()) hd).control e flagAck)
        (by
          rw [(Server.step_acksData ht.acts.smooth hst ht.pc ht.selected ht.recv hdata).2]
          exact List.mem_singleton_self _)
        (ht.acts.smooth.sendto _)
      simp only [Server.control, sendPacket, Server.afterData_other hother, hconn] at hmem
      exact hmem
  obtain ⟨_, hne, _⟩ := hall.exists
  exact ⟨Nat.lt_of_le_of_ne S.acked_le hne, hall.mono (fun _ hi => hi.2)⟩

/-- The acknowledgement moves the window. -/
theorem advances : False := by
  obtain ⟨hlt, hanswers⟩ := h.answers hacc hopen hread hroom
  obtain ⟨i, ⟨ms, e, hd, ht⟩, hl⟩ := ((h.clientHears hanswers
    (h.loopWaits hacc hopen hread hroom) (Nat.zero_le _)).and_eventually
    (h.loops hacc hopen)).exists
  obtain ⟨x, hx⟩ := hl.client.xfer
  obtain ⟨y, hy⟩ := hl.stays.xfer
  obtain ⟨htrans, hsending⟩ := hl.session.client.sending hl.client.state hx
  have hacked := hsending.acked
  have hnext := hsending.next
  have hnum := (p.link ()).num_toNat (k := 1 + S.delivered) (by
    have hfits := htrans.room
    have hle := S.delivered_le
    omega)
  have hack : hd.ackNum = (p.link ()).num (1 + S.delivered) := ht.read.ackNum
  have hstep := Client.step_hearsAck ht.acts.smooth hl.client.state hx ht.pc ht.selected ht.recv
    (by rw [htrans.connection]; exact ⟨ht.read.flags, ht.read.connId⟩)
  have hbase : ((r.state (i + 1)).clients ()).window.base = (p.link ()).num (1 + S.delivered) := by
    rw [ht.acts.client, hstep, hack]
    apply (Client.transferAck_takes hsending.represents _ _).2
    · rw [UInt32.lt_iff_toNat_lt]
      omega
    · have hle := S.delivered_le
      rw [UInt32.le_iff_toNat_le]
      omega
  have hmoved := (hl.next.client.sending hl.stays.state hy).2.acked
  rw [Client.window, hy] at hbase
  rw [hbase, hnum] at hmoved
  omega

end Transfer

end Stalled

end ReliableUdp
