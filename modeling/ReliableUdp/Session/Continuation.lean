import ReliableUdp.Endpoint.Smooth
import ReliableUdp.Session.Delivery

namespace ReliableUdp

open Transition

section Smooth

variable {ι : Type}

theorem Params.clientEnv_smooth (p : Params ι) (i : ι) (ms lastProgressMs : UInt64) :
    ({ p.clientEnv i ms with checkMs := lastProgressMs } : Env (Node ι)).Smooth (p.clientConfig i)
      lastProgressMs :=
  ⟨⟨fun _ => rfl, fun h => absurd h (Int.lt_irrefl 0), rfl, rfl⟩, rfl,
    progressTimeoutReached_self _ _, fun h => absurd h (Int.lt_irrefl 0), rfl⟩

theorem Params.serverEnv_smooth (p : Params ι) (ms lastProgressMs : UInt64) :
    ({ p.serverEnv ms with checkMs := lastProgressMs } : Env (Node ι)).Smooth p.serverConfig
      lastProgressMs :=
  ⟨⟨fun _ => rfl, fun h => absurd h (Int.lt_irrefl 0), rfl, rfl⟩, rfl,
    progressTimeoutReached_self _ _, fun h => absurd h (Int.lt_irrefl 0), rfl⟩

variable [DecidableEq ι]

/-- An activation of a party in which nothing fails; the network loses nothing. -/
inductive Sys.SmoothStep (p : Params ι) : Sys ι → Sys ι → Prop where
  | client (s : Sys ι) (i : ι) (e : Env (Node ι)) (net : List (Datagram ι))
      (hr : Receives (.client i) ((s.clients i).reads e) e s.net net)
      (hrand : e.rand 0 = p.clientRand i)
      (he : e.Smooth (p.clientConfig i) (s.clients i).lastProgressMs) :
      SmoothStep p s (s.stepClient p i e net)
  | server (s : Sys ι) (e : Env (Node ι)) (net : List (Datagram ι))
      (hr : Receives .server (s.server.reads e) e s.net net)
      (hrand : e.rand 0 = p.connRand ∧ e.rand 1 = p.seqRand)
      (he : e.Smooth p.serverConfig s.server.lastProgressMs) :
      SmoothStep p s (s.stepServer p e net)

theorem Sys.SmoothStep.step {p : Params ι} {s t : Sys ι} (h : Sys.SmoothStep p s t) :
    Sys.Step p s t := by
  cases h with
  | client i e net hr hrand he => exact .client s i e net hr hrand
  | server e net hr hrand he => exact .server s e net hr hrand (fun _ => he.fwrite)

theorem Env.Smooth.receiving {Addr : Type} {config : AppConfig} {ms : UInt64} {e : Env Addr}
    (h : e.Smooth config ms) (src : Addr) (data : List UInt8) :
    (e.receiving src data).Smooth config ms :=
  ⟨⟨h.sendto, fun hneg => absurd hneg (by simp [Env.receiving]), h.fclose, h.close⟩, h.running,
    h.patient, fun _ => rfl, h.fwrite⟩

/-- A client ends with `EX_OK` only behind TIME_WAIT. -/
theorem Sys.Run.sound {p : Params ι} {past : List (Sys ι)} {s : Sys ι} (h : Sys.Run p past s)
    (i : ι) : (s.clients i).Sound (∃ t ∈ past, (t.clients i).state = .timeWait) := by
  induction h with
  | start => exact .init _ _ _ _
  | @step past s s' hrun hs ih =>
    have hmono (h : ∃ t ∈ past, (t.clients i).state = .timeWait) :
        ∃ t ∈ s' :: past, (t.clients i).state = .timeWait := by
      obtain ⟨t, ht, hst⟩ := h
      exact ⟨t, List.mem_cons_of_mem _ ht, hst⟩
    have hkeep : (s.clients i).Sound (∃ t ∈ s' :: past, (t.clients i).state = .timeWait) :=
      ih.mono hmono
    cases hs with
    | client j e net hr hrand =>
      by_cases hij : i = j
      · subst hij
        simp only [Sys.stepClient, Function.update_self]
        exact hkeep.step (fun hst => ⟨s, List.mem_cons_of_mem _ hrun.mem_last, hst⟩) _ e
      · simp only [Sys.stepClient, Function.update_of_ne hij]
        exact hkeep
    | server e net hr hrand hw => exact hkeep
    | lose d hd => exact hkeep
    | duplicate d hd => exact hkeep

end Smooth

section Solo

variable {p : Params Unit} {s t : Sys Unit} {m : Message}

/-- Both parties have returned `EX_OK` and the whole input has been written. -/
structure Sys.Completed (p : Params Unit) (s : Sys Unit) : Prop where
  client : (s.clients ()).state = .done ∧ (s.clients ()).pc = .returned exOk
  server : s.server.state = .done ∧ s.server.pc = .returned exOk
  output : s.server.output = joinChunks (content (p.input ()))

/-- Some continuation in which nothing fails and nothing is lost completes the transfer. -/
abbrev Sys.Recoverable (p : Params Unit) (s : Sys Unit) : Prop :=
  CanReach (Sys.SmoothStep p) (Sys.Completed p) s

def Reached (p : Params Unit) (s : Sys Unit) : Prop := ∃ past, Sys.Run p past s

theorem Reached.smooth (h : Reached p s) (hs : Sys.SmoothStep p s t) : Reached p t := by
  obtain ⟨past, h⟩ := h
  exact ⟨_, h.step hs.step⟩

/-- A transfer that is complete has read its input to the end. -/
theorem Reached.readToEnd (h : Reached p s) (hdone : Sys.Completed p s) :
    ReadToEnd (p.input ()) (s.clients ()).file := by
  obtain ⟨past, hrun⟩ := h
  obtain ⟨t, ht, hst⟩ := (hrun.sound ()).returned hdone.client.2
  obtain ⟨a, ha, hpast⟩ := hrun.follows p.isn_injective
  obtain ⟨b, hb, hba⟩ := hpast t ht
  obtain ⟨S, rfl, hfin⟩ := hb.finSeen_of_timeWait hst
  obtain ⟨T, rfl, hle⟩ := Stage.Steps.le hba rfl
  exact (ha.joint.complete (hle.finSeen hfin)).1

theorem Sys.Recoverable.readToEnd (h : Sys.Recoverable p s) (hr : Reached p s) :
    ∃ file, ReadToEnd (p.input ()) file := by
  obtain ⟨t, hreached, hdone⟩ :=
    h.of_invariant (I := Reached p) (fun _ _ hr hs => hr.smooth hs) hr
  exact ⟨_, hreached.readToEnd hdone⟩

/-- The activation `e` of the client leads from `s` to `t`. -/
structure ClientMoves (p : Params Unit) (s t : Sys Unit) (e : Env (Node Unit)) : Prop where
  smooth : e.Smooth (p.clientConfig ()) (s.clients ()).lastProgressMs
  step : Sys.SmoothStep p s t
  reached : Reached p t
  client : t.clients () = ((s.clients ()).step (p.clientConfig ()) e).1
  server : t.server = s.server
  sent : ∀ o ∈ ((s.clients ()).step (p.clientConfig ()) e).2, o.sent = true →
    ⟨.client (), o.dst, o.data⟩ ∈ t.net

theorem ClientMoves.sends {e : Env (Node Unit)} (h : ClientMoves p s t e)
    {c : Client (Node Unit)} {o : Send (Node Unit)}
    (hstep : (s.clients ()).step (p.clientConfig ()) e = (c, [o])) (ho : o.sent = true) :
    ⟨.client (), o.dst, o.data⟩ ∈ t.net := by
  apply h.sent o _ ho
  rw [hstep]
  exact List.mem_singleton_self o

structure ServerMoves (p : Params Unit) (s t : Sys Unit) (e : Env (Node Unit)) : Prop where
  smooth : e.Smooth p.serverConfig s.server.lastProgressMs
  step : Sys.SmoothStep p s t
  reached : Reached p t
  clients : t.clients = s.clients
  server : t.server = (s.server.step p.serverConfig e).1
  sent : ∀ o ∈ (s.server.step p.serverConfig e).2, o.sent = true →
    ⟨.server, o.dst, o.data⟩ ∈ t.net

theorem ServerMoves.sends {e : Env (Node Unit)} (h : ServerMoves p s t e)
    {s' : Server (Node Unit)} {o : Send (Node Unit)}
    (hstep : s.server.step p.serverConfig e = (s', [o])) (ho : o.sent = true) :
    ⟨.server, o.dst, o.data⟩ ∈ t.net := by
  apply h.sent o _ ho
  rw [hstep]
  exact List.mem_singleton_self o

theorem clientMoves (hr : Reached p s) {e : Env (Node Unit)} {net : List (Datagram Unit)}
    (he : e.Smooth (p.clientConfig ()) (s.clients ()).lastProgressMs)
    (hrecv : Receives (.client ()) ((s.clients ()).reads e) e s.net net)
    (hrand : e.rand 0 = p.clientRand ()) : ClientMoves p s (s.stepClient p () e net) e := by
  have hstep : Sys.SmoothStep p s (s.stepClient p () e net) := .client s () e net hrecv hrand he
  have hself : (s.stepClient p () e net).clients () =
      ((s.clients ()).step (p.clientConfig ()) e).1 := by
    simp [Sys.stepClient]
  refine ⟨he, hstep, hr.smooth hstep, hself, rfl, ?_⟩
  intro o ho hsent
  exact List.mem_append_left _ (mem_emitted.mpr ⟨o, ho, hsent, rfl⟩)

theorem serverMoves (hr : Reached p s) {e : Env (Node Unit)} {net : List (Datagram Unit)}
    (he : e.Smooth p.serverConfig s.server.lastProgressMs)
    (hrecv : Receives .server (s.server.reads e) e s.net net)
    (hrand : e.rand 0 = p.connRand ∧ e.rand 1 = p.seqRand) :
    ServerMoves p s (s.stepServer p e net) e := by
  have hstep : Sys.SmoothStep p s (s.stepServer p e net) := .server s e net hrecv hrand he
  refine ⟨he, hstep, hr.smooth hstep, rfl, rfl, ?_⟩
  intro o ho hsent
  exact List.mem_append_left _ (mem_emitted.mpr ⟨o, ho, hsent, rfl⟩)

/-- The client runs with nothing arriving, at the time `ms`. -/
theorem Reached.clientTurn (hr : Reached p s) (ms : UInt64) :
    ∃ e t, ClientMoves p s t e ∧ e.selectResult = 0 ∧ e.nowMs = ms ∧ e.fillMs = ms ∧
      e.restartMs = ms ∧ e.rand 0 = p.clientRand () ∧ ∀ d ∈ s.net, d ∈ t.net := by
  refine ⟨_, _, clientMoves hr (p.clientEnv_smooth () ms _) (.nothing rfl) rfl, rfl, rfl, rfl, rfl,
    rfl, ?_⟩
  intro d hd
  exact List.mem_append_right _ hd

theorem Reached.serverTurn (hr : Reached p s) : ∃ e t, ServerMoves p s t e ∧
    e.selectResult = 0 ∧ ∀ d ∈ s.net, d ∈ t.net := by
  refine ⟨_, _, serverMoves hr (p.serverEnv_smooth 1 _) (.nothing rfl) ⟨rfl, rfl⟩, rfl, ?_⟩
  intro d hd
  exact List.mem_append_right _ hd

/-- A reached state of the session `S`. -/
structure InSession (p : Params Unit) (S : Session (p.link ()).size) (s : Sys Unit) : Prop where
  reached : Reached p s
  client : ClientAt (p.link ()) S .server (s.clients ())
  server : ServerAt (p.link ()) p.wholeWrites S s.server
  peer : s.server.clientAddr = .client ()

theorem Reached.joint (h : Reached p s) : ∃ a, Joint p a s := by
  obtain ⟨past, h⟩ := h
  obtain ⟨a, ha, _⟩ := h.follows p.isn_injective
  exact ⟨a, ha.joint⟩

theorem Joint.inSession {S : Session (p.link ()).size} (hr : Reached p s)
    (h : Joint p (some ⟨(), S⟩) s) : InSession p S s := by
  cases h with
  | admitted _ _ _ hclient _ hserver hpeer _ =>
    obtain ⟨_, hpeer⟩ := hpeer
    exact ⟨hr, hclient, hserver, hpeer⟩

/-- Until a session begins both parties wait for one. -/
theorem Reached.cases (h : Reached p s) :
    (Opening (p.isn ()) (p.input ()) .server (s.clients ()) ∧ IdleServer s.server) ∨
    ∃ S, InSession p S s := by
  obtain ⟨a, ha⟩ := h.joint
  rcases ha.server with hidle | ⟨_, S, rfl, _⟩
  · rcases ha.client () with hopening | ⟨S, rfl, _⟩
    · exact Or.inl ⟨hopening, hidle⟩
    · exact Or.inr ⟨S, ha.inSession h⟩
  · exact Or.inr ⟨S, ha.inSession h⟩

theorem Reached.session (h : Reached p s) (hl : s.server.state ≠ .listen)
    (hd : s.server.state ≠ .done) : ∃ S, InSession p S s := by
  rcases h.cases with ⟨_, hidle⟩ | hin
  · rcases hidle.state_ne rfl with hs | hs
    · exact absurd hs hl
    · exact absurd hs hd
  · exact hin

theorem ServerAt.waiting {L : Link} {whole : Bool} {S : Session L.size} {Addr : Type}
    {s : Server Addr} (h : ServerAt L whole S s) (hd : s.state ≠ .done) : s.pc.Waiting := by
  cases h with
  | handshake _ hpc => exact hpc
  | established _ hpc => exact hpc
  | lastAck _ hpc => exact hpc
  | done hs _ _ _ _ _ _ => exact absurd hs hd

theorem Reached.server_waiting (h : Reached p s) (hd : s.server.state ≠ .done) :
    s.server.pc.Waiting := by
  rcases h.cases with ⟨_, hidle⟩ | ⟨S, hin⟩
  · cases hidle with
    | listen _ hpc _ _ _ => exact hpc
    | done hs _ _ => exact absurd hs hd
  · exact hin.server.waiting hd

/-- A client outside its transfer loop that has sent its SYN and not come to its end. -/
abbrev ClientState.Outside (state : ClientState) : Prop :=
  state = .synSent ∨ state = .finWait ∨ state = .timeWait

theorem Opening.waiting {isn : UInt32} {input : InputFile} {Addr : Type} {addr : Addr}
    {c : Client Addr} (h : Opening isn input addr c) (hs : c.state.Outside) : c.pc.Waiting := by
  cases h.phase with
  | closed hst _ _ => exact absurd hs (by rw [hst]; decide)
  | synSent _ hpc _ _ => exact hpc
  | done hst _ => exact absurd hs (by rw [hst]; decide)

theorem Reached.client_waiting (h : Reached p s) (hs : (s.clients ()).state.Outside) :
    (s.clients ()).pc.Waiting := by
  rcases h.cases with ⟨hopening, _⟩ | ⟨S, hin⟩
  · exact hopening.waiting hs
  · cases hin.client.phase with
    | opening _ ho => exact ho.waiting hs
    | entering ht _ _ _ _ => exact absurd hs (by rw [ht.state]; decide)
    | transferring ht _ _ _ _ => exact absurd hs (by rw [ht.state]; decide)
    | finWait _ hpc => exact hpc
    | timeWait _ hpc => exact hpc
    | done hst _ _ _ _ _ _ => exact absurd hs (by rw [hst]; decide)

/-- From `s` the server has come to its `select`; nothing else has changed, and no datagram got
lost. -/
structure ServerWaits (p : Params Unit) (s t : Sys Unit) : Prop where
  reached : Reached p t
  clients : t.clients = s.clients
  server : ∃ ms, t.server = s.server.selecting ms
  net : ∀ d ∈ s.net, d ∈ t.net

structure ClientWaits (p : Params Unit) (s t : Sys Unit) : Prop where
  reached : Reached p t
  client : ∃ ms, t.clients () = (s.clients ()).selecting ms
  server : t.server = s.server
  net : ∀ d ∈ s.net, d ∈ t.net

theorem Reached.serverWaits (hr : Reached p s) (hd : s.server.state ≠ .done) :
    CanReach (Sys.SmoothStep p) (ServerWaits p s) s := by
  rcases hr.server_waiting hd with hpc | ⟨ms, hpc⟩
  · obtain ⟨e, t, hm, _, hnet⟩ := hr.serverTurn
    have hstep := Server.step_turn hm.smooth hd hpc
    refine .next hm.step (.now ⟨hm.reached, hm.clients, ⟨retransmitIntervalMs, ?_⟩, hnet⟩)
    rw [hm.server, hstep]
  · exact .now ⟨hr, rfl, ⟨ms, (Server.selecting_self hpc).symm⟩, fun _ hd => hd⟩

theorem Reached.clientWaits (hr : Reached p s) (hs : (s.clients ()).state.Outside) :
    CanReach (Sys.SmoothStep p) (ClientWaits p s) s := by
  rcases hr.client_waiting hs with hpc | ⟨ms, hpc⟩
  · obtain ⟨e, t, hm, _, _, _, _, _, hnet⟩ := hr.clientTurn 1
    have hselect : ∃ ms, ((s.clients ()).step (p.clientConfig ()) e).1 =
        (s.clients ()).selecting ms := by
      rcases hs with hs | hs | hs
      · exact ⟨_, by rw [Client.step_synWait hm.smooth hs hpc]⟩
      · exact ⟨_, by rw [Client.step_sendsFin hm.smooth hs hpc]⟩
      · exact ⟨_, by rw [Client.step_timeWait hm.smooth hs hpc]⟩
    refine .next hm.step (.now ⟨hm.reached, ?_, hm.server, hnet⟩)
    rw [hm.client]
    exact hselect
  · exact .now ⟨hr, ⟨ms, (Client.selecting_self hpc).symm⟩, rfl, fun _ hd => hd⟩

theorem Params.exists_serverEnv (p : Params Unit) (lastProgressMs : UInt64) (data : List UInt8) :
    ∃ e : Env (Node Unit), e.Smooth p.serverConfig lastProgressMs ∧ 0 < e.selectResult ∧
      (e.rand 0 = p.connRand ∧ e.rand 1 = p.seqRand) ∧
      e.recvfrom = some (.client (), data) :=
  ⟨_, (p.serverEnv_smooth 1 lastProgressMs).receiving (.client ()) data, Int.one_pos, ⟨rfl, rfl⟩,
    rfl⟩

theorem Params.exists_clientEnv (p : Params Unit) (lastProgressMs : UInt64) (data : List UInt8) :
    ∃ e : Env (Node Unit), e.Smooth (p.clientConfig ()) lastProgressMs ∧ 0 < e.selectResult ∧
      e.rand 0 = p.clientRand () ∧ e.recvfrom = some (.server, data) :=
  ⟨_, (p.clientEnv_smooth () 1 lastProgressMs).receiving .server data, Int.one_pos, rfl, rfl⟩

/-- From `s` the server comes to its `select`, is handed `m` there and gets to `t`. -/
structure ServerHears (p : Params Unit) (s : Sys Unit) (m : Message) (t : Sys Unit) (ms : Nat)
    (e : Env (Node Unit)) (h : RDTHeader) : Prop where
  reached : Reached p t
  clients : t.clients = s.clients
  smooth : e.Smooth p.serverConfig s.server.lastProgressMs
  selected : 0 < e.selectResult
  rand : e.rand 0 = p.connRand ∧ e.rand 1 = p.seqRand
  recv : recvPacket e s.server.clientAddr = (.client (), .ok (h, m.payload))
  read : m.Read h m.payload
  server : t.server = ((s.server.selecting ms).step p.serverConfig e).1
  sent : ∀ o ∈ ((s.server.selecting ms).step p.serverConfig e).2, o.sent = true →
    ⟨.server, o.dst, o.data⟩ ∈ t.net

theorem ServerHears.sends {ms : Nat} {e : Env (Node Unit)} {h : RDTHeader}
    (hs : ServerHears p s m t ms e h) {o : Send (Node Unit)}
    (hout : ((s.server.selecting ms).step p.serverConfig e).2 = [o]) (ho : o.sent = true) :
    ⟨.server, o.dst, o.data⟩ ∈ t.net := by
  apply hs.sent o _ ho
  rw [hout]
  exact List.mem_singleton_self o

structure ClientHears (p : Params Unit) (s : Sys Unit) (m : Message) (t : Sys Unit) (ms : Nat)
    (e : Env (Node Unit)) (h : RDTHeader) : Prop where
  reached : Reached p t
  server : t.server = s.server
  smooth : e.Smooth (p.clientConfig ()) (s.clients ()).lastProgressMs
  selected : 0 < e.selectResult
  recv : recvPacket e (s.clients ()).serverAddr = (.server, .ok (h, m.payload))
  read : m.Read h m.payload
  client : t.clients () =
    (((s.clients ()).selecting ms).step (p.clientConfig ()) e).1
  sent : ∀ o ∈ (((s.clients ()).selecting ms).step (p.clientConfig ()) e).2,
    o.sent = true → ⟨.client (), o.dst, o.data⟩ ∈ t.net

theorem ClientHears.sends {ms : Nat} {e : Env (Node Unit)} {h : RDTHeader}
    (hc : ClientHears p s m t ms e h) {o : Send (Node Unit)}
    (hout : (((s.clients ()).selecting ms).step (p.clientConfig ()) e).2 = [o])
    (ho : o.sent = true) : ⟨.client (), o.dst, o.data⟩ ∈ t.net := by
  apply hc.sent o _ ho
  rw [hout]
  exact List.mem_singleton_self o

theorem Reached.serverHears (hr : Reached p s) (hd : s.server.state ≠ .done)
    (hm : ⟨.client (), .server, m.bytes⟩ ∈ s.net)
    (hlen : m.payload.length ≤ maxPacketSize - headerSize) :
    CanReach (Sys.SmoothStep p) (fun t => ∃ ms e h, ServerHears p s m t ms e h) s := by
  apply (hr.serverWaits hd).trans
  intro s₁ hw
  obtain ⟨ms, hserver⟩ := hw.server
  obtain ⟨e, he, hsel, hrand, hfrom⟩ := p.exists_serverEnv s₁.server.lastProgressMs m.bytes
  obtain ⟨h, hrecv, hread⟩ := m.recv hlen s₁.server.clientAddr hfrom
  have hmoves := serverMoves hw.reached he
    (.datagram ⟨⟨ms, congrArg Server.pc hserver⟩, hsel⟩ _ (hw.net _ hm) rfl hfrom) hrand
  refine .next hmoves.step (.now ⟨ms, e, h, hmoves.reached, hmoves.clients.trans hw.clients, ?_,
    hsel, hrand, ?_, hread, ?_, ?_⟩)
  · rw [hserver] at he
    exact he
  · rw [hserver] at hrecv
    exact hrecv
  · rw [← hserver]
    exact hmoves.server
  · rw [← hserver]
    exact hmoves.sent

/-- A client that waits in `select` is handed a datagram of the server. -/
theorem Reached.clientHearsNow (hr : Reached p s) {ms : Nat}
    (hpc : (s.clients ()).pc = .select ms)
    (hm : ⟨.server, .client (), m.bytes⟩ ∈ s.net)
    (hlen : m.payload.length ≤ maxPacketSize - headerSize) :
    CanReach (Sys.SmoothStep p) (fun t => ∃ e h, ClientHears p s m t ms e h) s := by
  obtain ⟨e, he, hsel, hrand, hfrom⟩ := p.exists_clientEnv (s.clients ()).lastProgressMs m.bytes
  obtain ⟨h, hrecv, hread⟩ := m.recv hlen (s.clients ()).serverAddr hfrom
  have hmoves := clientMoves hr he (.datagram ⟨⟨ms, hpc⟩, hsel⟩ _ hm rfl hfrom) hrand
  refine .next hmoves.step (.now ⟨e, h, hmoves.reached, hmoves.server, he, hsel, hrecv, hread,
    ?_, ?_⟩)
  · rw [Client.selecting_self hpc]
    exact hmoves.client
  · rw [Client.selecting_self hpc]
    exact hmoves.sent

theorem Reached.clientHears (hr : Reached p s) (hs : (s.clients ()).state.Outside)
    (hm : ⟨.server, .client (), m.bytes⟩ ∈ s.net)
    (hlen : m.payload.length ≤ maxPacketSize - headerSize) :
    CanReach (Sys.SmoothStep p) (fun t => ∃ ms e h, ClientHears p s m t ms e h) s := by
  apply (hr.clientWaits hs).trans
  intro s₁ hw
  obtain ⟨ms, hclient⟩ := hw.client
  apply (hw.reached.clientHearsNow (congrArg Client.pc hclient) (hw.net _ hm) hlen).trans
  intro t hstage
  obtain ⟨e, h, ht⟩ := hstage
  have hsmooth := ht.smooth
  have hrecv := ht.recv
  have hnext := ht.client
  have hsent := ht.sent
  rw [hclient] at hsmooth hrecv hnext hsent
  exact .now ⟨ms, e, h, ht.reached, ht.server.trans hw.server, hsmooth, ht.selected, hrecv,
    ht.read, hnext, hsent⟩

end Solo

end ReliableUdp
