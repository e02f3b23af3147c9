import ReliableUdp.Session.Continuation

namespace ReliableUdp

section Syn

variable {ι : Type} {p : Params ι}

/-- The SYN of a client. -/
def Params.syn (p : Params ι) (i : ι) : Datagram ι :=
  ⟨.client i, .server, (synMessage (p.isn i)).bytes⟩

/-- The answer to a SYN with the number `isn`. -/
def synAckMessage (p : Params ι) (isn : UInt32) : Message :=
  ⟨p.serverSeq, isn + 1, p.connId, flagSyn ||| flagAck, []⟩

/-- The client has sent its SYN and waits for the answer. -/
structure Client.Knocks (isn : UInt32) (c : Client (Node ι)) : Prop where
  state : c.state = .synSent
  pc : c.pc = .select retransmitIntervalMs
  connection : c.connection = ⟨isn, 0, 0⟩

/-- The server answers a SYN with the number `isn`, whoever sends it. -/
structure Server.Answers (p : Params ι) (isn : UInt32) (s : Server (Node ι)) : Prop where
  state : s.state = .listen ∨
    s.state = .handshake ∧ s.connection = ⟨p.serverSeq, isn + 1, p.connId⟩
  pc : s.pc = .fsm

theorem Server.answersSyn {s : Server (Node ι)} {isn : UInt32} {ms : Nat} {t : UInt64}
    {e : Env (Node ι)} {k : ι} {h : RDTHeader} {payload : List UInt8}
    (hs : s.state = .listen ∨
      s.state = .handshake ∧ s.connection = ⟨p.serverSeq, isn + 1, p.connId⟩)
    (he : e.Smooth p.serverConfig t) (hrand : e.rand 0 = p.connRand ∧ e.rand 1 = p.seqRand)
    (hsel : 0 < e.selectResult)
    (hrecv : recvPacket e s.clientAddr = (.client k, .ok (h, payload)))
    (hread : (synMessage isn).Read h payload) :
    ∃ next : Server (Node ι), ∃ o : Send (Node ι),
      (s.selecting ms).step p.serverConfig e = (next, [o]) ∧ next.Answers p isn ∧
      o.sent = true ∧ o.dst = .client k ∧ o.data = (synAckMessage p isn).bytes := by
  rcases hs with hs | ⟨hs, hconn⟩
  · have hstep := step_admits (s := s.selecting ms) he hs rfl hsel hrecv hread.flags
    refine ⟨_, _, hstep, ⟨Or.inr ⟨rfl, ?_⟩, rfl⟩, he.sendto _, rfl, ?_⟩
    · simp only [goto, marked, afterSyn, hread.seqNum, hrand]
      rfl
    · simp only [control, afterSyn, hread.seqNum, hrand]
      rfl
  · have hsyn : h.flags = flagSyn ∧ h.seqNum + 1 = s.connection.ackNum := by
      rw [hconn, hread.flags, hread.seqNum]
      exact ⟨rfl, rfl⟩
    have hstep := step_answers (s := s.selecting ms) he hs rfl hsel hrecv hsyn
    refine ⟨_, _, hstep, ⟨Or.inr ⟨rfl, hconn⟩, rfl⟩, he.sendto _, rfl, ?_⟩
    simp only [control, selecting, hconn]
    rfl

end Syn

section Isolation

variable {ι : Type} [DecidableEq ι] {p : Params ι} {past : List (Sys ι)} {s : Sys ι}

/-- The clients do not get into each other's way. -/
structure Isolated (p : Params ι) (past : List (Sys ι)) (s : Sys ι) : Prop where
  output : s.server.output = [] ∨ ∃ i, s.server.output <+: joinChunks (content (p.input i))
  completed : ∀ i, (∃ t ∈ past, (t.clients i).state = .timeWait) →
    s.server.output = joinChunks (content (p.input i))
  /-- the identifier of a client is zero until it takes a SYN+ACK -/
  single : ∀ i j, (∃ t ∈ past, (t.clients i).connection.connId ≠ 0) →
    (∃ t ∈ past, (t.clients j).connection.connId ≠ 0) → i = j

/-- Different initial sequence numbers keep the clients apart. -/
theorem Sys.Run.isolated (h : Sys.Run p past s) (hinj : Function.Injective p.isn) :
    Isolated p past s := by
  obtain ⟨a, ha, hpast⟩ := h.follows hinj
  have hadmitted (i : ι) (hc : ∃ t ∈ past, (t.clients i).connection.connId ≠ 0) :
      ∃ T, a = some ⟨i, T⟩ := by
    obtain ⟨t, ht, hc⟩ := hc
    obtain ⟨b, hb, hba⟩ := hpast t ht
    obtain ⟨S, rfl, _⟩ := hb.accepted_of_connId hc
    obtain ⟨T, hT, _⟩ := Stage.Steps.le hba rfl
    exact ⟨T, hT⟩
  refine ⟨?_, ?_, ?_⟩
  · rcases ha.joint.server with hserver | ⟨w, S, _, hserver⟩
    · exact Or.inl hserver.output_nil
    · exact Or.inr ⟨w, hserver.output_prefix⟩
  · intro i hearlier
    obtain ⟨t, ht, hs⟩ := hearlier
    obtain ⟨b, hb, hba⟩ := hpast t ht
    obtain ⟨S, rfl, hfin⟩ := hb.finSeen_of_timeWait hs
    obtain ⟨T, rfl, hle⟩ := Stage.Steps.le hba rfl
    exact (ha.joint.complete (hle.finSeen hfin)).2.1
  · intro i j hi hj
    obtain ⟨T, rfl⟩ := hadmitted i hi
    obtain ⟨U, hU⟩ := hadmitted j hj
    exact congrArg Sigma.fst (Option.some.inj hU)

/-- A client that has just started sends its SYN. -/
theorem Sys.Run.knocks (h : Sys.Run p past s) {i : ι} (hi : s.clients i = p.init.clients i) :
    ∃ past t, Sys.Run p past t ∧ (t.clients i).Knocks (p.isn i) ∧ p.syn i ∈ t.net ∧
      t.server = s.server ∧ (∀ k, k ≠ i → t.clients k = s.clients k) ∧ ∀ d ∈ s.net, d ∈ t.net := by
  have hcalm := p.clientEnv_smooth i 1 (p.clientStartMs i)
  generalize he : ({ p.clientEnv i 1 with checkMs := p.clientStartMs i } : Env (Node ι)) = e
    at hcalm
  have hrand : e.rand 0 = p.clientRand i := by rw [← he]; rfl
  have hnone : e.recvfrom = none := by rw [← he]; rfl
  have hopens := Client.step_opens (c := p.init.clients i) hcalm rfl rfl
  have hwaits := Client.step_synWait (c := { p.init.clients i with
    connection := ⟨UInt32.ofNat (e.rand 0 % moduler), 0, 0⟩ }.goto .synSent) hcalm rfl rfl
  have hrun := h.step (.client s i e s.net (.nothing hnone) hrand)
  have hfirst : (s.stepClient p i e s.net).clients i = _ := Function.update_self i _ _
  rw [hi, hopens] at hfirst
  refine ⟨_, _, hrun.step (.client _ i e _ (.nothing hnone) hrand), ?_, ?_, rfl, ?_, ?_⟩
  · have hsecond : ((s.stepClient p i e s.net).stepClient p i e
        (s.stepClient p i e s.net).net).clients i = _ := Function.update_self i _ _
    rw [hsecond, hfirst, hwaits]
    refine ⟨rfl, rfl, ?_⟩
    rw [hrand]
    rfl
  · refine List.mem_append_right _ (List.mem_append_left _ ?_)
    rw [hi, hopens]
    refine mem_emitted.mpr ⟨_, List.mem_singleton_self _, hcalm.sendto _, ?_⟩
    rw [hrand]
    rfl
  · intro k hk
    exact (Function.update_of_ne hk _ _).trans (Function.update_of_ne hk _ _)
  · intro d hd
    exact List.mem_append_right _ (List.mem_append_right _ hd)

/-- The server answers such a SYN. -/
theorem Sys.Run.admits (h : Sys.Run p past s) {isn : UInt32} (hs : s.server.Answers p isn) {k : ι}
    (hk : p.isn k = isn) (hsyn : p.syn k ∈ s.net) :
    ∃ past t, Sys.Run p past t ∧ t.server.Answers p isn ∧
      ⟨.server, .client k, (synAckMessage p isn).bytes⟩ ∈ t.net ∧ t.clients = s.clients ∧
      ∀ d ∈ s.net, d ≠ p.syn k → d ∈ t.net := by
  obtain ⟨hstate, hpc⟩ := hs
  have hcalm := p.serverEnv_smooth 1 s.server.lastProgressMs
  generalize he : ({ p.serverEnv 1 with checkMs := s.server.lastProgressMs } : Env (Node ι)) = e
    at hcalm
  have hrand : e.rand 0 = p.connRand ∧ e.rand 1 = p.seqRand := by rw [← he]; exact ⟨rfl, rfl⟩
  have hnone : e.recvfrom = none := by rw [← he]; rfl
  have hne : s.server.state ≠ .done := by
    rcases hstate with hst | ⟨hst, _⟩
    · rw [hst]; decide
    · rw [hst]; decide
  have hturn := Server.step_turn hcalm hne hpc
  have hrun := h.step (.server s e s.net (.nothing hnone) hrand (fun _ => hcalm.fwrite))
  -- the turn has no output, and then the SYN is taken
  have hsel : (s.stepServer p e s.net).server = s.server.selecting retransmitIntervalMs :=
    congrArg Prod.fst hturn
  have hnet : (s.stepServer p e s.net).net = s.net := by
    rw [stepServer, hturn]
    rfl
  have hcalm' := hcalm.receiving (.client k) (synMessage (p.isn k)).bytes
  have hfrom : (e.receiving (.client k) (synMessage (p.isn k)).bytes).recvfrom =
      some (.client k, (synMessage (p.isn k)).bytes) := rfl
  obtain ⟨hd, hrecv, hread⟩ := (synMessage (p.isn k)).recv (Nat.zero_le _) s.server.clientAddr hfrom
  have hrun' := hrun.step (.server _ (e.receiving (.client k) (synMessage (p.isn k)).bytes)
    ((s.stepServer p e s.net).net.erase (p.syn k)) (.datagram ⟨⟨retransmitIntervalMs, by
      rw [hsel]; rfl⟩, Int.one_pos⟩ (p.syn k) (by rw [hnet]; exact hsyn) rfl rfl) hrand
      (fun _ => hcalm'.fwrite))
  obtain ⟨next, o, hstep, hnext, hsent, hdst, hdata⟩ :=
    Server.answersSyn hstate hcalm' hrand Int.one_pos hrecv (hk ▸ hread)
  refine ⟨_, _, hrun', ?_, ?_, rfl, ?_⟩
  · rw [stepServer, hsel, hstep]
    exact hnext
  · apply List.mem_append_left
    rw [hsel, hstep]
    exact mem_emitted.mpr ⟨o, List.mem_singleton_self o, hsent, by rw [hdst, hdata]⟩
  · intro d hd hne
    apply List.mem_append_right
    rw [hnet]
    exact (List.mem_erase_of_ne hne).mpr hd

/-- A client that takes the answer has the identifier of the session. -/
theorem Sys.Run.accepts (h : Sys.Run p past s) {k : ι} (hc : (s.clients k).Knocks (p.isn k))
    (hnet : ⟨.server, .client k, (synAckMessage p (p.isn k)).bytes⟩ ∈ s.net) :
    ∃ past t, Sys.Run p past t ∧ (t.clients k).connection.connId = p.connId ∧
      (∀ l, l ≠ k → t.clients l = s.clients l) ∧
      ∀ d ∈ s.net, d.dst ≠ .client k → d ∈ t.net := by
  have hcalm := (p.clientEnv_smooth k 1 (s.clients k).lastProgressMs).receiving .server
    (synAckMessage p (p.isn k)).bytes
  generalize he : ({ p.clientEnv k 1 with checkMs := (s.clients k).lastProgressMs } :
    Env (Node ι)).receiving .server (synAckMessage p (p.isn k)).bytes = e at hcalm
  have hrand : e.rand 0 = p.clientRand k := by rw [← he]; rfl
  have hfrom : e.recvfrom = some (.server, (synAckMessage p (p.isn k)).bytes) := by
    rw [← he]; rfl
  have hsel : 0 < e.selectResult := by rw [← he]; exact Int.one_pos
  obtain ⟨hd, hrecv, hread⟩ := (synAckMessage p (p.isn k)).recv (Nat.zero_le _)
    (s.clients k).serverAddr hfrom
  have htake : (s.clients k).TakesSynAck hd := by
    rw [Client.TakesSynAck, hread.flags, hread.connId, hread.ackNum, hc.connection]
    exact ⟨rfl, p.connId_ne, rfl⟩
  have hstep := Client.step_accepts hcalm hc.state hc.pc hsel hrecv htake
  refine ⟨_, _, h.step (.client s k e _ (.datagram ⟨⟨_, hc.pc⟩, hsel⟩ _ hnet rfl hfrom) hrand),
    ?_, fun l hl => Function.update_of_ne hl _ _, ?_⟩
  · have hnext : (s.stepClient p k e (s.net.erase
        ⟨.server, .client k, (synAckMessage p (p.isn k)).bytes⟩)).clients k = _ :=
      Function.update_self k _ _
    rw [hnext, hstep]
    exact hread.connId
  · intro d hd hdst
    apply List.mem_append_right
    refine (List.mem_erase_of_ne ?_).mpr hd
    intro heq
    rw [heq] at hdst
    exact hdst rfl

/-- Two clients that draw the same number can both be admitted. -/
theorem both_admitted {i j : ι} (hij : i ≠ j) (hisn : p.isn i = p.isn j) :
    ∃ past s, Sys.Run p past s ∧ (s.clients i).connection.connId = p.connId ∧
      (s.clients j).connection.connId = p.connId := by
  have hji : j ≠ i := fun h => hij h.symm
  have h0 : Sys.Run p [p.init] p.init := .start
  obtain ⟨_, s1, h1, hi1, hsyn1, hs1, hc1, _⟩ := h0.knocks (i := i) rfl
  obtain ⟨_, s2, h2, hj2, hsyn2, hs2, hc2, hn2⟩ := h1.knocks (i := j) (hc1 j hji)
  rw [← hc2 i hij] at hi1
  have hlisten : s2.server.Answers p (p.isn i) := by
    rw [hs2, hs1]
    exact ⟨Or.inl rfl, rfl⟩
  obtain ⟨_, s3, h3, hs3, ha3, hc3, hn3⟩ := h2.admits hlisten rfl (hn2 _ hsyn1)
  have hsyn3 : p.syn j ∈ s3.net := hn3 _ hsyn2 (by simp [Params.syn, hji])
  obtain ⟨_, s4, h4, hs4, ha4, hc4, hn4⟩ := h3.admits hs3 hisn.symm hsyn3
  have hsynAck : ⟨.server, .client i, (synAckMessage p (p.isn i)).bytes⟩ ∈ s4.net :=
    hn4 _ ha3 (by simp [Params.syn])
  obtain ⟨_, s5, h5, hi5, hc5, hn5⟩ := h4.accepts (k := i) (by rw [hc4, hc3]; exact hi1) hsynAck
  obtain ⟨_, s6, h6, hj6, hc6, _⟩ := h5.accepts (k := j)
    (by rw [hc5 j hji, hc4, hc3]; exact hj2) (by
      rw [← hisn]
      exact hn5 _ ha4 (by simp [hji]))
  exact ⟨_, s6, h6, by rw [hc6 i hij]; exact hi5, hj6⟩

/-- The clients are kept apart in every run exactly if they draw different initial sequence
numbers. -/
theorem isolated_iff_injective (p : Params ι) :
    (∀ past s, Sys.Run p past s → Isolated p past s) ↔ Function.Injective p.isn := by
  constructor
  · intro hall i j hisn
    by_contra hij
    obtain ⟨past, s, hrun, hi, hj⟩ := both_admitted hij hisn
    have hne {k : ι} (hk : (s.clients k).connection.connId = p.connId) :
        ∃ t ∈ past, (t.clients k).connection.connId ≠ 0 :=
      ⟨s, hrun.mem_last, by rw [hk]; exact p.connId_ne⟩
    exact hij ((hall past s hrun).single i j (hne hi) (hne hj))
  · intro hinj past s hrun
    exact hrun.isolated hinj

end Isolation

/-- Two clients that draw the same initial sequence number. -/
def twins : Params Bool where
  clientConfig _ := ⟨10, none, none⟩
  serverConfig := ⟨10, none, none⟩
  input i := if i then [.bytes ⟨[66], by decide⟩, .bytes ⟨[67], by decide⟩]
    else [.bytes ⟨[65], by decide⟩]
  clientStartMs _ := 1000
  serverStartMs := 1000
  clientRand _ := 17
  connRand := 41
  seqRand := 500
  clientAddr := .server
  wholeWrites := true

/-- The same two clients with different initial sequence numbers. -/
def strangers : Params Bool := { twins with clientRand := fun i => if i then 18 else 17 }

/-- Both send a SYN; the first one is admitted and gets its chunk across. -/
def strangersApart : List (Event Bool) :=
  [.client false 1000, .client true 1000, .server 1000, .serverRecv 1 1000, .server 1000,
    .serverRecv 1 1000, .client false 1000, .clientRecv false 0 1000, .server 1000,
    .serverRecv 0 1000, .client false 1000, .client false 1000, .server 1000, .serverRecv 0 1000]

theorem isolated_iff_injective_strangers :
    (strangers.schedule strangersApart).2.server.output = [65] ∧
    Isolated strangers (strangers.schedule strangersApart).1
      (strangers.schedule strangersApart).2 := by
  have hinj : Function.Injective strangers.isn := by
    intro i j h
    cases i with
    | false =>
      cases j with
      | false => rfl
      | true => exact absurd h (by decide)
    | true =>
      cases j with
      | false => exact absurd h (by decide)
      | true => rfl
  exact ⟨by decide +kernel, (isolated_iff_injective strangers).mpr hinj _ _
    (strangers.schedule_run strangersApart)⟩

/-- Both take the SYN+ACK; the server writes the chunk of the first client, then the second chunk
of the other. -/
def twinsMixed : List (Event Bool) :=
  [.client false 1000, .client true 1000, .server 1000, .serverRecv 1 1000, .server 1000,
    .serverRecv 1 1000, .client false 1000, .client true 1000, .clientRecv false 1 1000,
    .clientRecv true 1 1000, .server 1000, .serverRecv 1 1000, .client false 1000,
    .client false 1000, .client true 1000, .client true 1000, .server 1000, .serverRecv 2 1000,
    .server 1000, .serverRecv 2 1000]

theorem twins_not_isolated :
    ¬ ∀ (p : Params Bool) (past : List (Sys Bool)) (s : Sys Bool), Sys.Run p past s →
      Isolated p past s := by
  intro hall
  have hout : (twins.schedule twinsMixed).2.server.output = [65, 67] := by decide +kernel
  rcases (hall twins _ _ (twins.schedule_run twinsMixed)).output with h | ⟨i, h⟩
  · rw [hout] at h
    exact absurd h (by decide)
  · rw [hout] at h
    cases i with
    | false => exact absurd h (by decide)
    | true => exact absurd h (by decide)

end ReliableUdp
