import ReliableUdp.Endpoint.ServerLedger

namespace ReliableUdp

open Machine

variable {Addr : Type}

/-- No operation fails; `select` comes back with an error only when a signal interrupts it. -/
structure Env.Flawless (e : Env Addr) : Prop where
  sendto : ∀ seq, e.sendto seq = true
  interrupted : e.selectResult < 0 → e.stopRequested = true
  fclose : e.fclose = true
  close : e.close = true

namespace Server

variable {config : AppConfig} {s : Server Addr} {e : Env Addr}

/-- A running server keeps its exit code. -/
def Keeps (s : Server Addr) (next : Server Addr × List (Send Addr)) : Prop :=
  next.1.state = .done ∨ next.1.exitCode = s.exitCode ∧ next.1.pc.Waiting

theorem Keeps.goto {s' : Server Addr} {sends : List (Send Addr)} (h : s'.exitCode = s.exitCode)
    (state : ServerState) : s.Keeps (s'.goto state, sends) :=
  Or.inr ⟨h, Or.inl rfl⟩

theorem Keeps.reply {s' next : Server Addr} {flags : UInt8} (h : next.exitCode = s.exitCode)
    (hpc : next.pc = .fsm) : s.Keeps (s'.reply e flags next) := by
  rw [Server.reply]
  split_ifs
  · exact Or.inr ⟨h, Or.inl hpc⟩
  · exact Or.inl rfl

theorem Keeps.receive
    {handle : Server Addr → RDTHeader → List UInt8 → Server Addr × List (Send Addr)}
    (hh : ∀ a h payload, s.Keeps (handle { s with clientAddr := a } h payload)) :
    s.Keeps (s.receive e handle) := by
  rw [Server.receive]
  cases (recvPacket e s.clientAddr).2 with
  | error code => exact .goto rfl _
  | ok received => exact hh _ _ _

theorem Keeps.ready
    {handle : Server Addr → RDTHeader → List UInt8 → Server Addr × List (Send Addr)}
    (hh : ∀ a h payload, s.Keeps (handle { s with clientAddr := a } h payload)) :
    s.Keeps (s.ready config e handle) := by
  rw [Server.ready]
  split_ifs
  · exact Or.inl rfl
  · exact .goto rfl _
  · exact Or.inl rfl
  · exact .receive hh

theorem lastAckPacket_keeps (a : Addr) (h : RDTHeader) :
    s.Keeps ({ s with clientAddr := a }.lastAckPacket e h) := by
  rw [lastAckPacket]
  split_ifs
  · exact .reply rfl rfl
  · exact .goto rfl _
  · exact .goto rfl _

theorem establishedPacket_keeps (a : Addr) (h : RDTHeader) (payload : List UInt8) :
    s.Keeps ({ s with clientAddr := a }.establishedPacket e h payload) := by
  rw [establishedPacket]
  split_ifs
  · exact .reply rfl rfl
  · rw [Server.dataPacket]
    dsimp only
    split_ifs
    · exact Or.inl rfl
    · exact .reply rfl rfl
    · exact .reply rfl rfl
    · exact .reply rfl rfl
  · exact .goto rfl _

theorem step_keeps (hs : s.state ≠ .done) (hpc : s.pc.Waiting) : s.Keeps (s.step config e) := by
  rcases hpc with hpc | ⟨ms, hpc⟩
  · rw [step_fsm hpc, runServer_running hs, enter]
    split_ifs
    · exact Or.inl rfl
    · exact Or.inl rfl
    · exact Or.inr ⟨rfl, Or.inr ⟨_, rfl⟩⟩
  · rw [step_select hpc]
    cases hst : s.state with
    | done => exact absurd hst hs
    | listen =>
      rw [resume_listen hst]
      apply Keeps.ready
      intro a h payload
      rw [listenPacket]
      split_ifs
      · exact .reply rfl rfl
      · exact .goto rfl _
    | handshake =>
      rw [resume_handshake hst]
      apply Keeps.ready
      intro a h payload
      rw [handshakePacket]
      split_ifs
      · exact .reply rfl rfl
      · exact .goto rfl _
      · exact .goto rfl _
      · exact .goto rfl _
    | established =>
      rw [resume_established hst]
      exact .ready (fun a h payload => establishedPacket_keeps a h payload)
    | lastAck =>
      rw [resume_lastAck hst, lastAckReady]
      dsimp only
      split_ifs
      · exact Or.inl rfl
      · exact .goto rfl _
      · exact Or.inl rfl
      · exact Or.inl rfl
      · exact Or.inl rfl
      · exact .receive (fun a h _ => lastAckPacket_keeps a h)

theorem goto_waiting (s : Server Addr) (state : ServerState) : (s.goto state).pc.Waiting :=
  Or.inl rfl

theorem fail_waiting (s : Server Addr) (code : Int) : (s.fail code).pc.Waiting := Or.inl rfl

theorem reply_waiting {flags : UInt8} {next : Server Addr} (h : next.pc.Waiting) :
    (s.reply e flags next).1.pc.Waiting := by
  rw [reply]
  split_ifs
  · exact h
  · exact fail_waiting s exOsErr

theorem ready_waiting
    {handle : Server Addr → RDTHeader → List UInt8 → Server Addr × List (Send Addr)}
    (hh : ∀ s h payload, (handle s h payload).1.pc.Waiting) :
    (s.ready config e handle).1.pc.Waiting := by
  rw [ready, receive]
  dsimp only
  split_ifs
  · exact fail_waiting s exProtocol
  · exact goto_waiting s s.state
  · exact fail_waiting s exOsErr
  · cases (recvPacket e s.clientAddr).2 with
    | error code => exact goto_waiting _ _
    | ok received => exact hh _ _ _

theorem establishedPacket_waiting (s : Server Addr) (h : RDTHeader) (payload : List UInt8) :
    (s.establishedPacket e h payload).1.pc.Waiting := by
  rw [establishedPacket, dataPacket]
  dsimp only
  split_ifs
  · exact reply_waiting (goto_waiting _ _)
  · exact fail_waiting _ _
  · exact reply_waiting (goto_waiting _ _)
  · exact reply_waiting (goto_waiting _ _)
  · exact reply_waiting (goto_waiting _ _)
  · exact goto_waiting _ _

theorem lastAckReady_waiting : (s.lastAckReady config e).1.pc.Waiting := by
  rw [lastAckReady]
  dsimp only
  split_ifs
  · exact fail_waiting s exOk
  · exact goto_waiting s .lastAck
  · exact fail_waiting s exOk
  · exact fail_waiting s exOk
  · exact fail_waiting s exOsErr
  · rw [receive]
    cases (recvPacket e s.clientAddr).2 with
    | error code => exact goto_waiting _ _
    | ok received =>
      dsimp only
      rw [lastAckPacket]
      split_ifs
      · exact reply_waiting (goto_waiting _ _)
      · exact goto_waiting _ _
      · exact goto_waiting _ _

/-- The handlers do not return from `run_server`. -/
theorem step_waiting (hs : s.state ≠ .done) (hpc : s.pc.Waiting) :
    (s.step config e).1.pc.Waiting := by
  rcases hpc with hpc | ⟨ms, hpc⟩
  · rw [step_fsm hpc, runServer_running hs, enter]
    split_ifs
    · exact fail_waiting s exSoftware
    · exact fail_waiting s exProtocol
    · exact Or.inr ⟨_, rfl⟩
  · rw [step_select hpc]
    cases hst : s.state with
    | done => exact absurd hst hs
    | listen =>
      rw [resume_listen hst]
      apply ready_waiting
      intro s h _
      rw [listenPacket]
      split_ifs
      · exact reply_waiting (goto_waiting _ _)
      · exact goto_waiting _ _
    | handshake =>
      rw [resume_handshake hst]
      apply ready_waiting
      intro s h _
      rw [handshakePacket]
      split_ifs
      · exact reply_waiting (goto_waiting _ _)
      · exact goto_waiting _ _
      · exact goto_waiting _ _
      · exact goto_waiting _ _
    | established =>
      rw [resume_established hst]
      exact ready_waiting establishedPacket_waiting
    | lastAck =>
      rw [resume_lastAck hst]
      exact lastAckReady_waiting

/-- In LAST_ACK with the exit code still `EX_OK`. -/
structure Closes (s : Server Addr) : Prop where
  state : s.state = .lastAck
  exit : s.exitCode = exOk
  pc : s.pc.Waiting

/-- The server has come to its end with the exit code `code`. -/
structure Ended (s : Server Addr) (code : Int) : Prop where
  state : s.state = .done
  exit : s.exitCode = code
  pc : s.pc = .fsm ∨ s.pc = .returned code

/-- At its end, or with the exit code still `EX_OK`. -/
def OnTrack (s : Server Addr) : Prop := s.state = .done ∨ s.exitCode = exOk ∧ s.pc.Waiting

theorem OnTrack.step (h : s.OnTrack) (e : Env Addr) : (s.step config e).1.OnTrack := by
  by_cases hd : s.state = .done
  · exact Or.inl (step_done config hd e).1
  · rcases h with h | ⟨hexit, hpc⟩
    · exact absurd h hd
    · rcases step_keeps hd hpc with hn | ⟨hn, hpc'⟩
      · exact Or.inl hn
      · exact Or.inr ⟨hn.trans hexit, hpc'⟩

theorem closes_of_lastAck {clientAddr : Addr} {startMs : UInt64} {es : List (Env Addr)}
    (h : (after (step config) (init clientAddr startMs) es).state = .lastAck) :
    (after (step config) (init clientAddr startMs) es).Closes := by
  have hkeep : (after (step config) (init clientAddr startMs) es).OnTrack :=
    after_invariant (P := OnTrack) (fun s e hs => hs.step e) (Or.inr ⟨rfl, Or.inl rfl⟩) es
  rcases hkeep with hd | ⟨hexit, hpc⟩
  · exact absurd (hd.symm.trans h) (by decide)
  · exact ⟨h, hexit, hpc⟩

/-- A turn of the loop in LAST_ACK meets no signal and no expired watchdog before it waits. -/
def Undisturbed (config : AppConfig) (s : Server Addr) (e : Env Addr) : Prop :=
  s.state = .lastAck → s.pc = .fsm → e.stopRequested = false ∧ s.expired config e = false

theorem Closes.lastAckReady (h : s.Closes) (he : e.Flawless) :
    (s.lastAckReady config e).1.Closes ∨ (s.lastAckReady config e).1.Ended exOk := by
  have hsent (s' : Server Addr) (flags : UInt8) : (s'.control e flags).sent = true :=
    he.sendto _
  rw [Server.lastAckReady]
  dsimp only
  split_ifs with h0 hexp hfin hneg hstop
  · exact Or.inr ⟨rfl, rfl, Or.inl rfl⟩
  · exact Or.inl ⟨rfl, h.exit, Or.inl rfl⟩
  · exact absurd (hsent s _) hfin
  · exact Or.inr ⟨rfl, rfl, Or.inl rfl⟩
  · rw [waitForPacket_neg] at hneg
    exact absurd (he.interrupted hneg) hstop
  · rw [Server.receive]
    cases (recvPacket e s.clientAddr).2 with
    | error code => exact Or.inl ⟨h.state, h.exit, Or.inl rfl⟩
    | ok received =>
      dsimp only
      rw [lastAckPacket]
      split_ifs
      · rw [Server.reply, if_pos (hsent _ _)]
        exact Or.inl ⟨rfl, h.exit, Or.inl rfl⟩
      · exact Or.inr ⟨rfl, h.exit, Or.inl rfl⟩
      · exact Or.inl ⟨rfl, h.exit, Or.inl rfl⟩

theorem Closes.undisturbed (h : s.Closes) (he : e.Flawless) (hu : s.Undisturbed config e) :
    (s.step config e).1.Closes ∨ (s.step config e).1.Ended exOk := by
  rcases h.pc with hpc | ⟨ms, hpc⟩
  · obtain ⟨hstop, hexp⟩ := hu h.state hpc
    rw [step_fsm hpc, runServer_running (by rw [h.state]; decide), enter, hstop, hexp]
    exact Or.inl ⟨h.state, h.exit, Or.inr ⟨_, rfl⟩⟩
  · rw [step_select hpc, resume_lastAck h.state]
    exact h.lastAckReady he

/-- The checks at the top choose other exit codes than those behind `select`. -/
theorem Closes.disturbed (h : s.Closes) (hu : ¬ s.Undisturbed config e) :
    ∃ code, code ≠ exOk ∧ (s.step config e).1.Ended code := by
  simp only [Undisturbed, Classical.not_imp] at hu
  obtain ⟨_, hpc, hchecks⟩ := hu
  rw [step_fsm hpc, runServer_running (by rw [h.state]; decide), enter]
  split_ifs with hstop hexp
  · exact ⟨exSoftware, by decide, rfl, rfl, Or.inl rfl⟩
  · exact ⟨exProtocol, by decide, rfl, rfl, Or.inl rfl⟩
  · rw [Bool.not_eq_true] at hstop hexp
    exact absurd ⟨hstop, hexp⟩ hchecks

theorem Ended.goesOn (config : AppConfig) {code : Int} (h : s.Ended code) (he : e.Flawless) :
    (s.step config e).1.Ended code ∧ (s.step config e).1.pc = .returned code := by
  rcases h.pc with hpc | hpc
  · have hcleanup : (s.cleanup config e).exitCode = code := by
      simp [cleanup, he.fclose, he.close, h.exit]
    rw [step_fsm hpc, runServer_done h.state]
    exact ⟨⟨h.state, hcleanup, Or.inr (congrArg ServerPc.returned hcleanup)⟩,
      congrArg ServerPc.returned hcleanup⟩
  · rw [step_returned hpc]
    exact ⟨h, hpc⟩

theorem Closes.turnExpired (h : s.Closes) (hpc : s.pc = .fsm)
    (hx : progressTimeoutReached s.lastProgressMs config.timeout e.checkMs = true) :
    ∃ code, (s.step config e).1.Ended code := by
  have hexp : s.expired config e = true := hx
  rw [step_fsm hpc, runServer_running (by rw [h.state]; decide), enter, if_pos hexp]
  split_ifs
  · exact ⟨_, rfl, rfl, Or.inl rfl⟩
  · exact ⟨_, rfl, rfl, Or.inl rfl⟩

theorem Closes.waitExpired (h : s.Closes) {ms : Nat} (hpc : s.pc = .select ms) (he : e.Flawless)
    (hx : progressTimeoutReached s.lastProgressMs config.timeout e.checkMs = true) :
    (∃ code, (s.step config e).1.Ended code) ∨
      (s.step config e).1.Closes ∧ (s.step config e).1.pc = .fsm ∧
        (s.step config e).1.lastProgressMs = s.lastProgressMs := by
  have hexp : s.expired config e = true := hx
  rw [step_select hpc, resume_lastAck h.state, Server.lastAckReady, if_pos hexp]
  split_ifs with h0 hneg hstop
  · exact Or.inl ⟨_, rfl, rfl, Or.inl rfl⟩
  · exact Or.inl ⟨_, rfl, rfl, Or.inl rfl⟩
  · exact Or.inl ⟨_, rfl, rfl, Or.inl rfl⟩
  · rw [Server.receive]
    cases (recvPacket e s.clientAddr).2 with
    | error code => exact Or.inr ⟨⟨h.state, h.exit, Or.inl rfl⟩, rfl, rfl⟩
    | ok received =>
      have hsent : (Server.control { s with clientAddr := (recvPacket e s.clientAddr).1 } e
          (flagFin ||| flagAck)).sent = true := he.sendto _
      dsimp only
      rw [lastAckPacket]
      split_ifs
      · rw [Server.reply, if_pos hsent]
        exact Or.inr ⟨⟨rfl, h.exit, Or.inl rfl⟩, rfl, rfl⟩
      · exact Or.inl ⟨_, rfl, rfl, Or.inl rfl⟩
      · exact Or.inr ⟨⟨rfl, h.exit, Or.inl rfl⟩, rfl, rfl⟩

/-- In LAST_ACK an expired watchdog is seen within two activations. -/
theorem Closes.expires (h : s.Closes) {e₁ e₂ : Env Addr} (he₁ : e₁.Flawless) (he₂ : e₂.Flawless)
    (hx₁ : progressTimeoutReached s.lastProgressMs config.timeout e₁.checkMs = true)
    (hx₂ : progressTimeoutReached s.lastProgressMs config.timeout e₂.checkMs = true) :
    ∃ code, (after (Server.step config) s [e₁, e₂]).Ended code := by
  rcases h.pc with hpc | ⟨ms, hpc⟩
  · obtain ⟨code, hended⟩ := h.turnExpired hpc hx₁
    exact ⟨code, (hended.goesOn config he₂).1⟩
  · rcases h.waitExpired hpc he₁ hx₁ with ⟨code, hended⟩ | ⟨hnext, hpc', hms⟩
    · exact ⟨code, (hended.goesOn config he₂).1⟩
    · exact hnext.turnExpired hpc' (by rw [hms]; exact hx₂)

/-- How a server that has entered LAST_ACK ends. -/
theorem exits (config : AppConfig) :
    Exits (Server.step config : Server Addr → Env Addr → _) (Undisturbed config) Env.Flawless
      Closes Ended (fun s code => s.pc = .returned code) exOk where
  works s e hs he hu := hs.undisturbed he hu
  fails s e hs _ hu := hs.disturbed hu
  calm s e code hs _ := fun hst => absurd (hs.state.symm.trans hst) (by decide)
  stays s e code hs he := hs.goesOn config he
  busy s code hs hpc := by
    have hwait := hs.pc
    rw [hpc] at hwait
    exact absurd hwait (by simp [ServerPc.Waiting])
  value s code code' hs hpc := by
    rcases hs.pc with hfsm | hret
    · rw [hfsm] at hpc
      exact absurd hpc (by simp)
    · rw [hret] at hpc
      exact (ServerPc.returned.inj hpc).symm

end Server

namespace Client

variable {config : AppConfig} {c : Client Addr} {e : Env Addr} {x : Transfer}

/-- A running client keeps its exit code; it ends with `EX_OK` only from TIME_WAIT. -/
inductive Keeps (c : Client Addr) (next : Client Addr × List (Send Addr)) : Prop where
  | ended (state : next.1.state = .done) (pc : next.1.pc = .fsm)
      (well : next.1.exitCode = exOk → c.state = .timeWait)
  | running (state : next.1.state ≠ .done) (exit : next.1.exitCode = c.exitCode)
      (pc : ∀ code, next.1.pc ≠ .returned code)
      (wait : next.1.state = .timeWait → next.1.pc.Waiting)

theorem Keeps.fail {c' : Client Addr} {sends : List (Send Addr)} {code : Int}
    (h : code ≠ exOk ∨ c.state = .timeWait) : c.Keeps (c'.fail code, sends) := by
  refine .ended rfl rfl ?_
  intro hcode
  exact h.resolve_left (fun hne => hne hcode)

theorem Keeps.goto {c' : Client Addr} {sends : List (Send Addr)} {state : ClientState}
    (h : c'.exitCode = c.exitCode) (hs : state ≠ .done) : c.Keeps (c'.goto state, sends) :=
  .running hs h (by simp [Client.goto]) (fun _ => Or.inl rfl)

/-- The handler goes on in the state it is in. -/
theorem Keeps.stay {c' : Client Addr} {sends : List (Send Addr)} (h : c'.exitCode = c.exitCode)
    (hd : c'.state ≠ .done) (hs : c'.state ≠ .timeWait) (hpc : ∀ code, c'.pc ≠ .returned code) :
    c.Keeps (c', sends) :=
  .running hd h hpc (fun hn => absurd hn hs)

theorem Keeps.receive {handle : Client Addr → RDTHeader → Client Addr × List (Send Addr)}
    (hs : c.state ≠ .done) (hh : ∀ a h, c.Keeps (handle { c with serverAddr := a } h)) :
    c.Keeps (c.receive e handle) := by
  rw [Client.receive]
  cases (recvPacket e c.serverAddr).2 with
  | error code => exact .goto rfl hs
  | ok received => exact hh _ _

theorem runClient_keeps (hs : c.state ≠ .done) : c.Keeps (c.runClient config e) := by
  cases hst : c.state with
  | done => exact absurd hst hs
  | closed =>
    rw [runClient_closed hst, handleClosed]
    split_ifs
    · exact .fail (Or.inl (by decide))
    · exact .goto rfl (by decide)
    · exact .fail (Or.inl (by decide))
  | synSent =>
    rw [runClient_synSent hst, handleSynSent]
    split_ifs
    · exact .fail (Or.inl (by decide))
    · exact .fail (Or.inl (by decide))
    · exact .stay rfl hs (by simp [hst]) (by simp)
  | established =>
    rw [runClient_established hst, handleEstablished]
    split_ifs
    · exact .fail (Or.inl (by decide))
    · exact .fail (Or.inl (by decide))
    · exact .stay rfl hs (by simp [hst]) (by simp)
  | finWait =>
    rw [runClient_finWait hst, handleFinWait]
    dsimp only
    split_ifs
    · exact .fail (Or.inl (by decide))
    · exact .fail (Or.inl (by decide))
    · exact .stay rfl hs (by simp [hst]) (by simp)
    · exact .fail (Or.inl (by decide))
  | timeWait =>
    rw [runClient_timeWait hst]
    split_ifs
    · exact .fail (Or.inl (by decide))
    · exact .running hs rfl (by simp) (fun _ => Or.inr ⟨_, rfl⟩)

theorem transferWait_keeps (hd : c.state ≠ .done) (hs : c.state ≠ .timeWait) :
    c.Keeps (c.transferWait x e) := by
  rw [transferWait]
  split_ifs
  · exact .goto rfl (by decide)
  · cases c.transferTimer_move x e with
    | empty hnext =>
      rw [hnext]
      exact .stay rfl hd hs (by simp)
    | resends timer hnext =>
      rw [hnext]
      exact .stay rfl hd hs (by simp)
    | waits timer ms hnext =>
      rw [hnext]
      exact .stay rfl hd hs (by simp)

theorem Keeps.prepend {c' : Client Addr} {next : Client Addr × List (Send Addr)}
    (h : c'.Keeps next) (hexit : c'.exitCode = c.exitCode) (hs : c'.state = c.state)
    (sends : List (Send Addr)) : c.Keeps (next.1, sends ++ next.2) := by
  cases h with
  | ended state pc well => exact .ended state pc (fun hcode => hs.symm.trans (well hcode))
  | running state exit pc wait => exact .running state (exit.trans hexit) pc wait

theorem transferRound_keeps (hd : c.state ≠ .done) (hs : c.state ≠ .timeWait) :
    c.Keeps (c.transferRound config x e) := by
  rw [transferRound]
  dsimp only
  split_ifs
  · exact .fail (Or.inl (by decide))
  · exact .fail (Or.inl (by decide))
  · apply Keeps.prepend
    · exact transferWait_keeps hd hs
    · rfl
    · rfl
  · exact transferWait_keeps hd hs
  · exact .goto rfl (by decide)

theorem transferReady_keeps (hd : c.state ≠ .done) (hs : c.state ≠ .timeWait) :
    c.Keeps (c.transferReady x e) := by
  rw [transferReady]
  dsimp only
  split_ifs
  · exact .stay rfl hd hs (by simp)
  · exact .fail (Or.inl (by decide))
  · cases (recvPacket e c.serverAddr).2 with
    | error code => exact .stay rfl hd hs (by simp)
    | ok received =>
      dsimp only
      split_ifs
      · rw [transferAck]
        dsimp only
        split_ifs <;> exact .stay rfl hd hs (by simp)
      · exact .stay rfl hd hs (by simp)

theorem resume_keeps (hs : c.state ≠ .done) {ms : Nat} (hpc : c.pc = .select ms) :
    c.Keeps (c.resume config e) := by
  cases hst : c.state with
  | done => exact absurd hst hs
  | closed =>
    simp only [resume, hst]
    exact .stay rfl hs (by simp [hst]) (by simp [hpc])
  | synSent =>
    rw [resume_synSent hst, synSentReady]
    dsimp only
    split_ifs
    · exact .fail (Or.inl (by decide))
    · exact .goto rfl (by decide)
    · exact .fail (Or.inl (by decide))
    · exact .fail (Or.inl (by decide))
    · apply Keeps.receive hs
      intro a h
      rw [synSentPacket]
      dsimp only
      split_ifs
      · exact .goto rfl (by decide)
      · exact .fail (Or.inl (by decide))
      · exact .goto rfl (by decide)
  | established =>
    cases hx : c.xfer with
    | none =>
      simp only [resume, hst, hx]
      exact .stay rfl hs (by simp [hst]) (by simp [hpc])
    | some x =>
      rw [resume_established hst hx]
      exact transferReady_keeps hs (by simp [hst])
  | finWait =>
    rw [resume_finWait hst, finWaitReady]
    split_ifs
    · exact .fail (Or.inl (by decide))
    · exact .goto rfl (by decide)
    · exact .fail (Or.inl (by decide))
    · apply Keeps.receive hs
      intro a h
      rw [finWaitPacket]
      dsimp only
      split_ifs
      · exact .goto rfl (by decide)
      · exact .fail (Or.inl (by decide))
      · exact .goto rfl (by decide)
  | timeWait =>
    rw [resume_timeWait hst, timeWaitReady]
    split_ifs
    · exact .ended rfl rfl (fun _ => hst)
    · exact .fail (Or.inr hst)
    · exact .fail (Or.inr hst)
    · apply Keeps.receive hs
      intro a h
      rw [timeWaitPacket]
      dsimp only
      split_ifs
      · exact .goto rfl (by decide)
      · exact .fail (Or.inr hst)
      · exact .goto rfl (by decide)

/-- A client at its end; the exit code is `EX_OK` only if `p` holds, and it is what is returned. -/
structure Exited (c : Client Addr) (p : Prop) : Prop where
  state : c.state = .done
  pc : c.pc = .fsm ∨ c.pc = .returned c.exitCode
  well : c.exitCode = exOk → p

/-- A client whose loop goes on. -/
structure Runs (c : Client Addr) : Prop where
  state : c.state ≠ .done
  exit : c.exitCode = exOk
  pc : ∀ code, c.pc ≠ .returned code
  wait : c.state = .timeWait → c.pc.Waiting

theorem Runs.step (h : c.Runs) (config : AppConfig) (e : Env Addr) :
    (c.step config e).1.Runs ∨ (c.step config e).1.Exited (c.state = .timeWait) := by
  have hkeeps {next : Client Addr × List (Send Addr)} (hn : c.Keeps next) :
      next.1.Runs ∨ next.1.Exited (c.state = .timeWait) := by
    cases hn with
    | ended state pc well => exact Or.inr ⟨state, Or.inl pc, well⟩
    | running state exit pc wait => exact Or.inl ⟨state, exit.trans h.exit, pc, wait⟩
  cases hpc : c.pc with
  | fsm =>
    rw [step_fsm hpc]
    exact hkeeps (runClient_keeps h.state)
  | returned code => exact absurd hpc (h.pc code)
  | select ms =>
    rw [step_select hpc]
    exact hkeeps (resume_keeps h.state hpc)
  | transfer =>
    have hs : c.state ≠ .timeWait := by
      intro hs
      have hp := h.wait hs
      rw [hpc] at hp
      exact absurd hp (by simp [ClientPc.Waiting])
    cases hx : c.xfer with
    | none =>
      simp only [Client.step, hpc, hx]
      exact Or.inl h
    | some x =>
      rw [step_transfer hpc hx]
      exact hkeeps (transferRound_keeps h.state hs)

theorem Exited.step {p : Prop} (h : c.Exited p) (config : AppConfig) (e : Env Addr) :
    (c.step config e).1.Exited p := by
  rcases h.pc with hpc | hpc
  · rw [step_fsm hpc, runClient_done h.state]
    refine ⟨h.state, Or.inr rfl, ?_⟩
    intro hcode
    apply h.well
    simp only [cleanup] at hcode
    split_ifs at hcode
    · exact absurd hcode (by decide)
    · exact absurd hcode (by decide)
    · exact hcode
  · rw [step_returned hpc]
    exact h

/-- The loop goes on, or it has ended, with `EX_OK` only if `p` holds. -/
def Sound (c : Client Addr) (p : Prop) : Prop := c.Runs ∨ c.Exited p

theorem Sound.mono {p q : Prop} (h : c.Sound p) (hpq : p → q) : c.Sound q :=
  h.imp id (fun hexited => ⟨hexited.state, hexited.pc, fun hcode => hpq (hexited.well hcode)⟩)

theorem Sound.step {p : Prop} (h : c.Sound p) (hs : c.state = .timeWait → p)
    (config : AppConfig) (e : Env Addr) : (c.step config e).1.Sound p := by
  rcases h with hruns | hexited
  · rcases hruns.step config e with hnext | hnext
    · exact Or.inl hnext
    · exact Sound.mono (Or.inr hnext) hs
  · exact Or.inr (hexited.step config e)

theorem Sound.init (serverAddr : Addr) (startMs : UInt64) (file : InputFile) (p : Prop) :
    (Client.init serverAddr startMs file).Sound p :=
  Or.inl ⟨by simp [Client.init], rfl, by simp [Client.init], nofun⟩

/-- What has been returned is `EX_OK` only if `p` holds. -/
theorem Sound.returned {p : Prop} (h : c.Sound p) (hpc : c.pc = .returned exOk) : p := by
  rcases h with hruns | hexited
  · exact absurd hpc (hruns.pc exOk)
  · apply hexited.well
    rcases hexited.pc with hfsm | hret
    · rw [hfsm] at hpc
      exact absurd hpc (by simp)
    · rw [hret] at hpc
      exact ClientPc.returned.inj hpc

/-- In TIME_WAIT with the exit code still `EX_OK`. -/
structure Closes (c : Client Addr) : Prop where
  state : c.state = .timeWait
  exit : c.exitCode = exOk
  pc : c.pc.Waiting

/-- The client has come to its end with the exit code `code`. -/
structure Ended (c : Client Addr) (code : Int) : Prop where
  state : c.state = .done
  exit : c.exitCode = code
  pc : c.pc = .fsm ∨ c.pc = .returned code

theorem closes_of_timeWait {serverAddr : Addr} {startMs : UInt64} {file : InputFile}
    {es : List (Env Addr)}
    (h : (after (step config) (init serverAddr startMs file) es).state = .timeWait) :
    (after (step config) (init serverAddr startMs file) es).Closes := by
  have hsound : (after (step config) (init serverAddr startMs file) es).Sound True :=
    after_invariant (P := (Sound · True))
      (fun c e hc => hc.step (fun _ => trivial) config e) (.init serverAddr startMs file True) es
  rcases hsound with hruns | hexited
  · exact ⟨h, hruns.exit, hruns.wait h⟩
  · exact absurd (hexited.state.symm.trans h) (by decide)

/-- A turn of the loop in TIME_WAIT meets no signal before it waits. -/
def Undisturbed (c : Client Addr) (e : Env Addr) : Prop :=
  c.state = .timeWait → c.pc = .fsm → e.stopRequested = false

theorem Closes.timeWaitReady (h : c.Closes) (he : e.Flawless) :
    (c.timeWaitReady e).1.Closes ∨ (c.timeWaitReady e).1.Ended exOk := by
  have hsent (c' : Client Addr) (flags : UInt8) : (c'.control e flags).sent = true :=
    he.sendto _
  rw [Client.timeWaitReady]
  split_ifs with h0 hneg hstop
  · exact Or.inr ⟨rfl, h.exit, Or.inl rfl⟩
  · exact Or.inr ⟨rfl, rfl, Or.inl rfl⟩
  · rw [waitForPacket_neg] at hneg
    exact absurd (he.interrupted hneg) hstop
  · rw [Client.receive]
    cases (recvPacket e c.serverAddr).2 with
    | error code => exact Or.inl ⟨h.state, h.exit, Or.inl rfl⟩
    | ok received =>
      dsimp only
      rw [timeWaitPacket]
      dsimp only
      split_ifs with htake hack
      · exact Or.inl ⟨rfl, h.exit, Or.inl rfl⟩
      · exact absurd (hsent _ _) hack
      · exact Or.inl ⟨rfl, h.exit, Or.inl rfl⟩

theorem Closes.undisturbed (h : c.Closes) (he : e.Flawless) (hu : c.Undisturbed e) :
    (c.step config e).1.Closes ∨ (c.step config e).1.Ended exOk := by
  rcases h.pc with hpc | ⟨ms, hpc⟩
  · rw [step_fsm hpc, runClient_timeWait h.state, hu h.state hpc]
    exact Or.inl ⟨h.state, h.exit, Or.inr ⟨_, rfl⟩⟩
  · rw [step_select hpc, resume_timeWait h.state]
    exact h.timeWaitReady he

theorem Closes.disturbed (h : c.Closes) (hu : ¬ c.Undisturbed e) :
    ∃ code, code ≠ exOk ∧ (c.step config e).1.Ended code := by
  simp only [Undisturbed, Classical.not_imp, Bool.not_eq_false] at hu
  obtain ⟨_, hpc, hstop⟩ := hu
  rw [step_fsm hpc, runClient_timeWait h.state, if_pos hstop]
  exact ⟨exSoftware, by decide, rfl, rfl, Or.inl rfl⟩

theorem Ended.goesOn (config : AppConfig) {code : Int} (h : c.Ended code) (he : e.Flawless) :
    (c.step config e).1.Ended code ∧ (c.step config e).1.pc = .returned code := by
  rcases h.pc with hpc | hpc
  · have hcleanup : (c.cleanup config e).exitCode = code := by
      simp [cleanup, he.fclose, he.close, h.exit]
    rw [step_fsm hpc, runClient_done h.state]
    exact ⟨⟨h.state, hcleanup, Or.inr (congrArg ClientPc.returned hcleanup)⟩,
      congrArg ClientPc.returned hcleanup⟩
  · rw [step_returned hpc]
    exact ⟨h, hpc⟩

theorem Closes.waitEnds (h : c.Closes) {ms : Nat} (hpc : c.pc = .select ms)
    (hx : e.selectResult ≤ 0) : ∃ code, (c.step config e).1.Ended code := by
  rw [step_select hpc, resume_timeWait h.state, Client.timeWaitReady]
  split_ifs with h0 hneg hstop
  · exact ⟨_, rfl, rfl, Or.inl rfl⟩
  · exact ⟨_, rfl, rfl, Or.inl rfl⟩
  · exact ⟨_, rfl, rfl, Or.inl rfl⟩
  · exact absurd (pos_of_waitForPacket h0 hneg) (by omega)

/-- In TIME_WAIT a client that hears nothing ends within two activations. -/
theorem Closes.expires (h : c.Closes) {e₁ e₂ : Env Addr} (he₂ : e₂.Flawless)
    (hx₁ : e₁.selectResult ≤ 0) (hx₂ : e₂.selectResult ≤ 0) :
    ∃ code, (after (Client.step config) c [e₁, e₂]).Ended code := by
  rcases h.pc with hpc | ⟨ms, hpc⟩
  · by_cases hstop : e₁.stopRequested = true
    · have hended : (c.step config e₁).1.Ended exSoftware := by
        rw [step_fsm hpc, runClient_timeWait h.state, if_pos hstop]
        exact ⟨rfl, rfl, Or.inl rfl⟩
      exact ⟨exSoftware, (hended.goesOn config he₂).1⟩
    · have hnext : (c.step config e₁).1.Closes ∧ ∃ ms, (c.step config e₁).1.pc = .select ms := by
        rw [step_fsm hpc, runClient_timeWait h.state, if_neg hstop]
        exact ⟨⟨h.state, h.exit, Or.inr ⟨_, rfl⟩⟩, _, rfl⟩
      obtain ⟨hcloses, ms, hpc'⟩ := hnext
      exact hcloses.waitEnds hpc' hx₂
  · obtain ⟨code, hended⟩ : ∃ code, (c.step config e₁).1.Ended code := h.waitEnds hpc hx₁
    exact ⟨code, (hended.goesOn config he₂).1⟩

/-- How a client that has entered TIME_WAIT ends. -/
theorem exits (config : AppConfig) :
    Exits (Client.step config : Client Addr → Env Addr → _) Undisturbed Env.Flawless
      Closes Ended (fun c code => c.pc = .returned code) exOk where
  works c e hc he hu := hc.undisturbed he hu
  fails c e hc _ hu := hc.disturbed hu
  calm c e code hc _ := fun hst => absurd (hc.state.symm.trans hst) (by decide)
  stays c e code hc he := hc.goesOn config he
  busy c code hc hpc := by
    have hwait := hc.pc
    rw [hpc] at hwait
    exact absurd hwait (by simp [ClientPc.Waiting])
  value c code code' hc hpc := by
    rcases hc.pc with hfsm | hret
    · rw [hfsm] at hpc
      exact absurd hpc (by simp)
    · rw [hret] at hpc
      exact (ClientPc.returned.inj hpc).symm

end Client

/-- Some run of the server leads to `s`. -/
def Server.Reachable (config : AppConfig) (s : Server Addr) : Prop :=
  ∃ clientAddr startMs es, s = after (Server.step config) (Server.init clientAddr startMs) es

def Client.Reachable (config : AppConfig) (c : Client Addr) : Prop :=
  ∃ serverAddr startMs file es,
    c = after (Client.step config) (Client.init serverAddr startMs file) es

/-- A party whose work is done returns `EX_OK` exactly if no turn of its loop meets the signal or
the expired watchdog before it waits. It does return: the server once its watchdog has expired, the
client once nothing arrives any more. -/
theorem exit_code_iff (config : AppConfig) :
    (∀ s : Server Addr, s.Reachable config → s.state = .lastAck →
      ∀ es : List (Env Addr), (∀ e ∈ es, e.Flawless) →
      (∀ code, (after (Server.step config) s es).pc = .returned code →
        (code = exOk ↔ Always (Server.step config) (Server.Undisturbed config) s es)) ∧
      ∀ e₁ e₂ e₃ : Env Addr, e₁.Flawless → e₂.Flawless → e₃.Flawless →
        (after (Server.step config) s es).expired config e₁ = true →
        (after (Server.step config) s es).expired config e₂ = true →
        ∃ code, (after (Server.step config) s (es ++ [e₁, e₂, e₃])).pc = .returned code) ∧
    (∀ c : Client Addr, c.Reachable config → c.state = .timeWait →
      ∀ es : List (Env Addr), (∀ e ∈ es, e.Flawless) →
      (∀ code, (after (Client.step config) c es).pc = .returned code →
        (code = exOk ↔ Always (Client.step config) Client.Undisturbed c es)) ∧
      ∀ e₁ e₂ e₃ : Env Addr, e₁.Flawless → e₂.Flawless → e₃.Flawless →
        e₁.selectResult ≤ 0 → e₂.selectResult ≤ 0 →
        ∃ code, (after (Client.step config) c (es ++ [e₁, e₂, e₃])).pc = .returned code) := by
  constructor
  · intro s hreach hst es hes
    obtain ⟨clientAddr, startMs, pre, rfl⟩ := hreach
    have hcloses := Server.closes_of_lastAck hst
    constructor
    · intro code hcode
      exact (Server.exits config).good_iff hcloses es hes hcode
    · intro e₁ e₂ e₃ he₁ he₂ he₃ hx₁ hx₂
      exact (Server.exits config).returns hcloses es [e₁, e₂] hes (by simp [he₁, he₂]) he₃
        (fun h => h.expires he₁ he₂ hx₁ hx₂)
  · intro c hreach hst es hes
    obtain ⟨serverAddr, startMs, file, pre, rfl⟩ := hreach
    have hcloses := Client.closes_of_timeWait hst
    constructor
    · intro code hcode
      exact (Client.exits config).good_iff hcloses es hes hcode
    · intro e₁ e₂ e₃ he₁ he₂ he₃ hx₁ hx₂
      exact (Client.exits config).returns hcloses es [e₁, e₂] hes (by simp [he₁, he₂]) he₃
        (fun h => h.expires he₂ hx₁ hx₂)

theorem Env.calm_flawless (ms : UInt64) : (Env.calm Addr ms).Flawless := by
  refine ⟨fun _ => rfl, ?_, rfl, rfl⟩
  intro h
  exact absurd h (Int.lt_irrefl 0)

/-- The handshake and a FIN. -/
def closingTraffic : List (Env Nat) :=
  [.calm Nat 1000, straySyn, .calm Nat 1000, .arrival 1 (encode 1 1 1 flagAck []) 1000,
    .calm Nat 1000, .arrival 1 (encode 1 1 1 flagFin []) 1000]

/-- The final ACK is waited for and arrives, then the server cleans up. -/
def finalTraffic : List (Env Nat) :=
  [.calm Nat 1000, .arrival 1 (encode 2 1 1 flagAck []) 1000, .calm Nat 1000]

theorem exit_code_iff_final_ack :
    (after (Server.step strayConfig) (Server.init 0 1000)
      (closingTraffic ++ finalTraffic)).pc = .returned exOk ∧
    Always (Server.step strayConfig) (Server.Undisturbed strayConfig)
      (after (Server.step strayConfig) (Server.init 0 1000) closingTraffic) finalTraffic := by
  have hflawless : ∀ e ∈ finalTraffic, e.Flawless := by
    intro e he
    rcases List.mem_cons.mp he with rfl | he
    · exact Env.calm_flawless 1000
    · rcases List.mem_cons.mp he with rfl | he
      · exact ⟨fun _ => rfl, fun h => absurd h (by decide), rfl, rfl⟩
      · rw [List.mem_singleton.mp he]
        exact Env.calm_flawless 1000
  have hret : (after (Server.step strayConfig) (after (Server.step strayConfig)
      (Server.init 0 1000) closingTraffic) finalTraffic).pc = .returned exOk := by
    decide +kernel
  refine ⟨by rw [after_append]; exact hret, ?_⟩
  exact (((exit_code_iff strayConfig).1 _ ⟨0, 1000, closingTraffic, rfl⟩ (by decide +kernel)
    finalTraffic hflawless).1 exOk hret).mp rfl

/-- The watchdog expires in LAST_ACK; a turn of the loop sees it first, and the exit code is
`EX_PROTOCOL`. -/
theorem completed_transfer_fails :
    ¬ ∀ (s : Server Nat) (es : List (Env Nat)) (code : Int), s.Reachable strayConfig →
      s.state = .lastAck → (∀ e ∈ es, e.Flawless) →
      (after (Server.step strayConfig) s es).pc = .returned code → code = exOk := by
  intro hall
  have hcode : exProtocol = exOk := by
    refine hall (after (Server.step strayConfig) (Server.init 0 1000) closingTraffic)
      [.calm Nat 6000, .calm Nat 6000] exProtocol ⟨0, 1000, closingTraffic, rfl⟩
      (by decide +kernel) ?_ (by decide +kernel)
    intro e he
    rcases List.mem_cons.mp he with rfl | he
    · exact Env.calm_flawless 6000
    · rw [List.mem_singleton.mp he]
      exact Env.calm_flawless 6000
  exact absurd hcode (by decide)

end ReliableUdp
