import ReliableUdp.Endpoint.ClientWatchdog
import ReliableUdp.Endpoint.ExitCode

namespace ReliableUdp

open Machine

variable {Addr : Type}

namespace Server

/-- What an activation of the server meets when it sets the exit code. -/
inductive Explains (config : AppConfig) (s : Server Addr) (e : Env Addr)
    (sends : List (Send Addr)) : Int → Prop where
  | finished (h : s.state = .lastAck) : Explains config s e sends exOk
  | stopped (h : e.stopRequested = true) : Explains config s e sends exSoftware
  | stalled (h : s.expired config e = true) : Explains config s e sends exProtocol
  | unwritten (h : s.state = .established) (payload : List UInt8)
      (short : written e payload < payload.length) : Explains config s e sends exIoErr
  | unclosedFile (h : s.state = .done) (named : usesDefaultStream config.outputFile = false)
      (fclose : e.fclose = false) : Explains config s e sends exIoErr
  | unsent (o : Send Addr) (ho : o ∈ sends) (h : o.sent = false) : Explains config s e sends exOsErr
  | interrupted (h : e.selectResult < 0) : Explains config s e sends exOsErr
  | unclosedSocket (h : s.state = .done) (close : e.close = false) :
      Explains config s e sends exOsErr

/-- Success is explained by LAST_ACK only. -/
theorem Explains.closing {config : AppConfig} {s : Server Addr} {e : Env Addr}
    {sends : List (Send Addr)} {code : Int} (h : s.Explains config e sends code)
    (hcode : code = 0) : s.state = .lastAck := by
  cases h with
  | finished h => exact h
  | _ => exact absurd hcode (by decide)

/-- The loop goes on with its exit code, or it is left with one that is explained. -/
inductive Explained (config : AppConfig) (s : Server Addr) (e : Env Addr)
    (next : Server Addr × List (Send Addr)) : Prop where
  | running (state : next.1.state ≠ .done) (pc : next.1.pc.Waiting)
      (exit : next.1.exitCode = s.exitCode)
  | ended (state : next.1.state = .done) (pc : next.1.pc = .fsm)
      (why : s.Explains config e next.2 next.1.exitCode)

variable {config : AppConfig} {s : Server Addr} {e : Env Addr}

theorem Explained.goto {s' : Server Addr} {sends : List (Send Addr)} {state : ServerState}
    (hs : state ≠ .done) (h : s'.exitCode = s.exitCode) :
    s.Explained config e (s'.goto state, sends) :=
  .running hs (Or.inl rfl) h

theorem Explained.fail {s' : Server Addr} {sends : List (Send Addr)} {code : Int}
    (h : s.Explains config e sends code) : s.Explained config e (s'.fail code, sends) :=
  .ended rfl rfl h

theorem Explained.reply {s' next : Server Addr} {flags : UInt8}
    (hs : next.state ≠ .done) (hpc : next.pc = .fsm) (h : next.exitCode = s.exitCode) :
    s.Explained config e (s'.reply e flags next) := by
  rw [Server.reply]
  split_ifs with hsent
  · exact .running hs (Or.inl hpc) h
  · exact .fail (.unsent _ List.mem_cons_self (Bool.eq_false_iff.mpr hsent))

theorem Explained.receive (hs : s.state ≠ .done)
    {handle : Server Addr → RDTHeader → List UInt8 → Server Addr × List (Send Addr)}
    (hh : ∀ a h payload, s.Explained config e (handle { s with clientAddr := a } h payload)) :
    s.Explained config e (s.receive e handle) := by
  rw [Server.receive]
  cases (recvPacket e s.clientAddr).2 with
  | error code => exact .goto hs rfl
  | ok received => exact hh _ _ _

theorem Explained.ready (hs : s.state ≠ .done)
    {handle : Server Addr → RDTHeader → List UInt8 → Server Addr × List (Send Addr)}
    (hh : ∀ a h payload, s.Explained config e (handle { s with clientAddr := a } h payload)) :
    s.Explained config e (s.ready config e handle) := by
  rw [Server.ready]
  split_ifs with h0 hexp hneg
  · exact .fail (.stalled hexp)
  · exact .goto hs rfl
  · exact .fail (.interrupted ((waitForPacket_neg _).mp hneg))
  · exact .receive hs hh

theorem listenPacket_explained (a : Addr) (h : RDTHeader) :
    s.Explained config e ({ s with clientAddr := a }.listenPacket e h) := by
  rw [listenPacket]
  split_ifs
  · exact .reply (by simp [Server.goto]) rfl rfl
  · exact .goto (by decide) rfl

theorem handshakePacket_explained (a : Addr) (h : RDTHeader) :
    s.Explained config e ({ s with clientAddr := a }.handshakePacket e h) := by
  rw [handshakePacket]
  split_ifs
  · exact .reply (by simp [Server.goto]) rfl rfl
  · exact .goto (by decide) rfl
  · exact .goto (by decide) rfl
  · exact .goto (by decide) rfl

theorem establishedPacket_explained (hs : s.state = .established) (a : Addr) (h : RDTHeader)
    (payload : List UInt8) :
    s.Explained config e ({ s with clientAddr := a }.establishedPacket e h payload) := by
  rw [establishedPacket, dataPacket]
  dsimp only
  split_ifs with hfin hdata hnext hshort
  · exact .reply (by simp [Server.goto]) rfl rfl
  · exact .fail (.unwritten hs payload (lt_of_le_of_ne (written_le e payload) hshort))
  · exact .reply (by simp [Server.goto]) rfl rfl
  · exact .reply (by simp [Server.goto]) rfl rfl
  · exact .reply (by simp [Server.goto]) rfl rfl
  · exact .goto (by decide) rfl

theorem lastAckPacket_explained (hs : s.state = .lastAck) (hexit : s.exitCode = exOk) (a : Addr)
    (h : RDTHeader) : s.Explained config e ({ s with clientAddr := a }.lastAckPacket e h) := by
  rw [lastAckPacket]
  split_ifs
  · exact .reply (by simp [Server.goto]) rfl rfl
  · refine .ended rfl rfl ?_
    simp only [Server.goto, marked, hexit]
    exact .finished hs
  · exact .goto (by decide) rfl

theorem step_explained (hs : s.state ≠ .done) (hpc : s.pc.Waiting) (hexit : s.exitCode = exOk) :
    s.Explained config e (s.step config e) := by
  rcases hpc with hpc | ⟨ms, hpc⟩
  · rw [step_fsm hpc, runServer_running hs, enter]
    split_ifs with hstop hexp
    · exact .fail (.stopped hstop)
    · exact .fail (.stalled hexp)
    · exact .running hs (Or.inr ⟨_, rfl⟩) rfl
  · rw [step_select hpc]
    cases hst : s.state with
    | done => exact absurd hst hs
    | listen =>
      rw [resume_listen hst]
      exact .ready hs (fun a h _ => listenPacket_explained a h)
    | handshake =>
      rw [resume_handshake hst]
      exact .ready hs (fun a h _ => handshakePacket_explained a h)
    | established =>
      rw [resume_established hst]
      exact .ready hs (fun a h payload => establishedPacket_explained hst a h payload)
    | lastAck =>
      rw [resume_lastAck hst, lastAckReady]
      dsimp only
      split_ifs with h0 hexp hsent hneg hstop
      · exact .fail (.finished hst)
      · exact .goto (by decide) rfl
      · exact .fail (.finished hst)
      · exact .fail (.finished hst)
      · exact .fail (.interrupted ((waitForPacket_neg _).mp hneg))
      · exact .receive hs (fun a h _ => lastAckPacket_explained hst hexit a h)

/-- The loop of the server goes on. -/
structure Going (s : Server Addr) : Prop where
  state : s.state ≠ .done
  pc : s.pc.Waiting
  exit : s.exitCode = exOk

/-- The loop has been left; what it was left with is returned, if it has been already. -/
structure Gone (s : Server Addr) (code : Int) : Prop where
  state : s.state = .done
  pc : s.pc = .fsm ∨ s.pc = .returned code
  exit : s.exitCode = code

theorem Going.step (h : s.Going) (config : AppConfig) (e : Env Addr) :
    (s.step config e).1.Going ∨ ∃ code, (s.step config e).1.Gone code ∧
      s.Explains config e (s.step config e).2 code := by
  have hstep : s.Explained config e (s.step config e) := step_explained h.state h.pc h.exit
  cases hstep with
  | running state pc exit => exact Or.inl ⟨state, pc, exit.trans h.exit⟩
  | ended state pc why => exact Or.inr ⟨_, ⟨state, Or.inl pc, rfl⟩, why⟩

theorem Gone.step {code : Int} (h : s.Gone code) (config : AppConfig) (e : Env Addr) :
    (s.step config e).1.Gone code ∨ ∃ w, (s.step config e).1.Gone w ∧
      s.Explains config e (s.step config e).2 w := by
  rcases h.pc with hpc | hpc
  · rw [step_fsm hpc, runServer_done h.state]
    by_cases hclose : e.close = true
    · by_cases hfile : (!usesDefaultStream config.outputFile && !e.fclose) = true
      · right
        simp only [Bool.and_eq_true, Bool.not_eq_true'] at hfile
        exact ⟨exIoErr,
          ⟨h.state, by simp [cleanup, hfile, hclose], by simp [cleanup, hfile, hclose]⟩,
          .unclosedFile h.state hfile.1 hfile.2⟩
      · left
        exact ⟨h.state, by simp [cleanup, hfile, hclose, h.exit],
          by simp [cleanup, hfile, hclose, h.exit]⟩
    · right
      rw [Bool.not_eq_true] at hclose
      exact ⟨exOsErr, ⟨h.state, by simp [cleanup, hclose], by simp [cleanup, hclose]⟩,
        .unclosedSocket h.state hclose⟩
  · rw [step_returned hpc]
    exact Or.inl h

/-- The code that the server returns is explained by the activation that has set it for good. -/
theorem returned_explained {clientAddr : Addr} {startMs : UInt64} {es : List (Env Addr)}
    {code : Int} (h : (after (step config) (init clientAddr startMs) es).pc = .returned code) :
    ∃ pre e post, es = pre ++ e :: post ∧
      (after (step config) (init clientAddr startMs) pre).Explains config e
        (step config (after (step config) (init clientAddr startMs) pre) e).2 code ∧
      ∀ mid rest, post = mid ++ rest →
        (after (step config) (init clientAddr startMs) (pre ++ e :: mid)).Gone code := by
  have hstart : (init clientAddr startMs).Going := ⟨by simp [init], Or.inl rfl, rfl⟩
  rcases ended_explained (fun s e (hs : Going s) => hs.step config e)
    (fun s e v (hs : Gone s v) => hs.step config e) hstart es with hgoing | ⟨v, hgone, hwhy⟩
  · rcases hgoing.pc with hpc | ⟨ms, hpc⟩
    · exact absurd (h.symm.trans hpc) (by simp)
    · exact absurd (h.symm.trans hpc) (by simp)
  · rcases hgone.pc with hpc | hpc
    · exact absurd (h.symm.trans hpc) (by simp)
    · rw [ServerPc.returned.inj (h.symm.trans hpc)]
      exact hwhy

end Server

namespace Client

/-- What an activation of the client meets when it sets the exit code. A DATA packet that cannot be
sent is no reason to end. -/
inductive Explains (config : AppConfig) (c : Client Addr) (e : Env Addr)
    (sends : List (Send Addr)) : Int → Prop where
  | finished (h : c.state = .timeWait) : Explains config c e sends exOk
  | stopped (h : e.stopRequested = true) : Explains config c e sends exSoftware
  | stalled (h : c.expired config e = true) (hs : c.state ≠ .timeWait) :
      Explains config c e sends exProtocol
  | unread (h : c.state = .established) (chunks : List Chunk) (rest : InputFile)
      (file : c.file = chunks.map .bytes ++ .error :: rest) : Explains config c e sends exIoErr
  | unclosedFile (h : c.state = .done) (named : usesDefaultStream config.inputFile = false)
      (fclose : e.fclose = false) : Explains config c e sends exIoErr
  | unsent (o : Send Addr) (ho : o ∈ sends) (h : o.sent = false) (hs : c.state ≠ .established) :
      Explains config c e sends exOsErr
  | interrupted (h : e.selectResult < 0) : Explains config c e sends exOsErr
  | unclosedSocket (h : c.state = .done) (close : e.close = false) :
      Explains config c e sends exOsErr

/-- Success is explained by TIME_WAIT only. -/
theorem Explains.closing {config : AppConfig} {c : Client Addr} {e : Env Addr}
    {sends : List (Send Addr)} {code : Int} (h : c.Explains config e sends code)
    (hcode : code = 0) : c.state = .timeWait := by
  cases h with
  | finished h => exact h
  | _ => exact absurd hcode (by decide)

/-- If the loop is left, then with an exit code that is explained. -/
def Explained (config : AppConfig) (c : Client Addr) (e : Env Addr)
    (next : Client Addr × List (Send Addr)) : Prop :=
  next.1.state = .done → c.Explains config e next.2 next.1.exitCode

section Explained

variable {config : AppConfig} {c : Client Addr} {e : Env Addr} {x : Transfer}

theorem Explained.goesOn {next : Client Addr × List (Send Addr)} (h : next.1.state ≠ .done) :
    c.Explained config e next :=
  fun hdone => absurd hdone h

theorem Explained.fail {c' : Client Addr} {sends : List (Send Addr)} {code : Int}
    (h : c.Explains config e sends code) : c.Explained config e (c'.fail code, sends) :=
  fun _ => h

/-- A control packet that ends the client when it cannot be sent. -/
theorem Explained.control {c' next : Client Addr} {o : Send Addr} (hs : c.state ≠ .established)
    (h : next.state ≠ .done) : c.Explained config e
      (if o.sent = true then (next, [o]) else (c'.fail exOsErr, [o])) := by
  split_ifs with hsent
  · exact .goesOn h
  · exact .fail (.unsent o List.mem_cons_self (Bool.eq_false_iff.mpr hsent) hs)

theorem Explained.receive (hs : c.state ≠ .done)
    {handle : Client Addr → RDTHeader → Client Addr × List (Send Addr)}
    (hh : ∀ a h, c.Explained config e (handle { c with serverAddr := a } h)) :
    c.Explained config e (c.receive e handle) := by
  rw [Client.receive]
  cases (recvPacket e c.serverAddr).2 with
  | error code => exact .goesOn hs
  | ok received => exact hh _ _

theorem runClient_explained (hs : c.state ≠ .done) :
    c.Explained config e (c.runClient config e) := by
  cases hst : c.state with
  | done => exact absurd hst hs
  | closed =>
    rw [runClient_closed hst, handleClosed]
    split_ifs with hstop hsent
    · exact .fail (.stopped hstop)
    · exact .goesOn (by simp [Client.goto])
    · exact .fail (.unsent _ List.mem_cons_self (Bool.eq_false_iff.mpr hsent) (by simp [hst]))
  | synSent =>
    rw [runClient_synSent hst, handleSynSent]
    split_ifs with hstop hexp
    · exact .fail (.stopped hstop)
    · exact .fail (.stalled hexp (by simp [hst]))
    · exact .goesOn hs
  | established =>
    rw [runClient_established hst, handleEstablished]
    split_ifs with hstop hexp
    · exact .fail (.stopped hstop)
    · exact .fail (.stalled hexp (by simp [hst]))
    · exact .goesOn hs
  | finWait =>
    rw [runClient_finWait hst, handleFinWait]
    dsimp only
    split_ifs with hstop hexp hsent
    · exact .fail (.stopped hstop)
    · exact .fail (.stalled hexp (by simp [hst]))
    · exact .goesOn hs
    · exact .fail (.unsent _ List.mem_cons_self (Bool.eq_false_iff.mpr hsent) (by simp [hst]))
  | timeWait =>
    rw [runClient_timeWait hst]
    split_ifs with hstop
    · exact .fail (.stopped hstop)
    · exact .goesOn hs

/-- The fill fails because a read has failed. -/
theorem fillLoop_error (addr : Addr) (connection : ConnectionState) (n : Nat)
    (state : GBNSenderState) (file : InputFile)
    (h : (fillLoop e addr connection n state file).result < 0) :
    ∃ (chunks : List Chunk) (rest : InputFile), file = chunks.map .bytes ++ .error :: rest := by
  induction n generalizing state file with
  | zero => exact absurd h (Int.lt_irrefl 0)
  | succ n ih =>
    cases file with
    | nil => exact absurd h (by simp [fillLoop, readChunk])
    | cons outcome rest =>
      cases outcome with
      | eof => exact absurd h (by simp [fillLoop, readChunk])
      | error => exact ⟨[], rest, rfl⟩
      | bytes chunk =>
        obtain ⟨chunks, rest', hrest⟩ :=
          ih (advance (fillSlot e connection state chunk)) rest h
        refine ⟨chunk :: chunks, rest', ?_⟩
        rw [hrest]
        rfl

theorem transferWait_state (hs : c.state ≠ .done) : (c.transferWait x e).1.state ≠ .done := by
  rw [transferWait]
  split_ifs
  · simp [transferDone, Client.goto]
  · cases c.transferTimer_move x e with
    | empty hnext =>
      rw [hnext]
      exact hs
    | resends timer hnext =>
      rw [hnext]
      exact hs
    | waits timer ms hnext =>
      rw [hnext]
      exact hs

theorem transferRound_explained (hs : c.state = .established) :
    c.Explained config e (c.transferRound config x e) := by
  have hne : c.state ≠ .done := by simp [hs]
  rw [transferRound]
  by_cases hloop : x.eofReached = false ∨ x.gbn.base < x.gbn.nextseqnum
  · rw [if_neg (not_not.mpr hloop)]
    by_cases hexp : c.expired config e = true
    · rw [if_pos hexp]
      exact .fail (.stalled hexp (by simp [hs]))
    · rw [if_neg hexp]
      by_cases heof : x.eofReached = false
      · rw [if_pos heof]
        by_cases hneg : (gbnFillAndSendWindow e c.serverAddr c.connection x.gbn c.file).result < 0
        · obtain ⟨chunks, rest, hfile⟩ := fillLoop_error _ _ _ _ _ hneg
          simp only [if_pos hneg]
          exact .fail (.unread hs chunks rest hfile)
        · simp only [if_neg hneg]
          exact .goesOn (transferWait_state hne)
      · rw [if_neg heof]
        exact .goesOn (transferWait_state hne)
  · rw [if_pos hloop]
    exact .goesOn (by simp [transferDone, Client.goto])

theorem transferReady_explained (hs : c.state = .established) :
    c.Explained config e (c.transferReady x e) := by
  have hne : c.state ≠ .done := by simp [hs]
  rw [transferReady]
  dsimp only
  split_ifs with h0 hneg
  · exact .goesOn hne
  · exact .fail (.interrupted ((waitForPacket_neg _).mp hneg))
  · cases (recvPacket e c.serverAddr).2 with
    | error code => exact .goesOn hne
    | ok received =>
      dsimp only
      split_ifs
      · apply Explained.goesOn
        rw [transferAck]
        dsimp only
        split_ifs <;> exact hne
      · exact .goesOn hne

theorem resume_explained (hs : c.state ≠ .done) (hexit : c.exitCode = exOk) :
    c.Explained config e (c.resume config e) := by
  cases hst : c.state with
  | done => exact absurd hst hs
  | closed =>
    simp only [resume, hst]
    exact .goesOn hs
  | synSent =>
    have hne : c.state ≠ .established := by simp [hst]
    rw [resume_synSent hst, synSentReady]
    dsimp only
    split_ifs with h0 hexp hsent hneg
    · exact .fail (.stalled hexp (by simp [hst]))
    · exact .goesOn (by simp [Client.goto])
    · exact .fail (.unsent _ List.mem_cons_self (Bool.eq_false_iff.mpr hsent) hne)
    · exact .fail (.interrupted ((waitForPacket_neg _).mp hneg))
    · apply Explained.receive hs
      intro a h
      rw [synSentPacket]
      split_ifs
      · exact .control hne (by simp [Client.goto])
      · exact .goesOn (by simp [Client.goto])
  | established =>
    cases hx : c.xfer with
    | none =>
      simp only [resume, hst, hx]
      exact .goesOn hs
    | some x =>
      rw [resume_established hst hx]
      exact transferReady_explained hst
  | finWait =>
    have hne : c.state ≠ .established := by simp [hst]
    rw [resume_finWait hst, finWaitReady]
    split_ifs with h0 hexp hneg
    · exact .fail (.stalled hexp (by simp [hst]))
    · exact .goesOn (by simp [Client.goto])
    · exact .fail (.interrupted ((waitForPacket_neg _).mp hneg))
    · apply Explained.receive hs
      intro a h
      rw [finWaitPacket]
      split_ifs
      · exact .control hne (by simp [Client.goto])
      · exact .goesOn (by simp [Client.goto])
  | timeWait =>
    have hne : c.state ≠ .established := by simp [hst]
    rw [resume_timeWait hst, timeWaitReady]
    split_ifs with h0 hneg hstop
    · intro _
      simp only [Client.goto, hexit]
      exact .finished hst
    · exact .fail (.finished hst)
    · exact .fail (.interrupted ((waitForPacket_neg _).mp hneg))
    · apply Explained.receive hs
      intro a h
      rw [timeWaitPacket]
      split_ifs
      · exact .control hne (by simp [Client.goto])
      · exact .goesOn (by simp [Client.goto])

theorem step_explained {input : InputFile} {acks : Nat} (h : c.Runs) (hp : Paced input acks c) :
    c.Explained config e (c.step config e) := by
  cases hpc : c.pc with
  | fsm =>
    rw [step_fsm hpc]
    exact runClient_explained h.state
  | returned code => exact absurd hpc (h.pc code)
  | select ms =>
    rw [step_select hpc]
    exact resume_explained h.state h.exit
  | transfer =>
    cases hp with
    | opening _ hno _ _ _ _ => exact absurd hpc hno
    | behind _ hno _ _ => exact absurd hpc hno
    | running hs _ x _ hx _ =>
      rw [step_transfer hpc hx]
      exact transferRound_explained hs

end Explained

/-- The loop of the client goes on. -/
structure Going (input : InputFile) (c : Client Addr) : Prop where
  runs : c.Runs
  paced : ∃ acks, Paced input acks c

/-- The loop has been left; what it was left with is returned, if it has been already. -/
structure Gone (c : Client Addr) (code : Int) : Prop where
  state : c.state = .done
  pc : c.pc = .fsm ∨ c.pc = .returned code
  exit : c.exitCode = code

variable {config : AppConfig} {c : Client Addr}

theorem Going.step {input : InputFile} (h : Going input c) (config : AppConfig) (e : Env Addr) :
    Going input (c.step config e).1 ∨ ∃ code, (c.step config e).1.Gone code ∧
      c.Explains config e (c.step config e).2 code := by
  obtain ⟨acks, hp⟩ := h.paced
  rcases h.runs.step config e with hruns | hexited
  · exact Or.inl ⟨hruns, _, hp.next config e⟩
  · exact Or.inr ⟨_, ⟨hexited.state, hexited.pc, rfl⟩, step_explained h.runs hp hexited.state⟩

theorem Gone.step {code : Int} (h : c.Gone code) (config : AppConfig) (e : Env Addr) :
    (c.step config e).1.Gone code ∨ ∃ w, (c.step config e).1.Gone w ∧
      c.Explains config e (c.step config e).2 w := by
  rcases h.pc with hpc | hpc
  · rw [step_fsm hpc, runClient_done h.state]
    by_cases hclose : e.close = true
    · by_cases hfile : (!usesDefaultStream config.inputFile && !e.fclose) = true
      · right
        simp only [Bool.and_eq_true, Bool.not_eq_true'] at hfile
        exact ⟨exIoErr,
          ⟨h.state, by simp [cleanup, hfile, hclose], by simp [cleanup, hfile, hclose]⟩,
          .unclosedFile h.state hfile.1 hfile.2⟩
      · left
        exact ⟨h.state, by simp [cleanup, hfile, hclose, h.exit],
          by simp [cleanup, hfile, hclose, h.exit]⟩
    · right
      rw [Bool.not_eq_true] at hclose
      exact ⟨exOsErr, ⟨h.state, by simp [cleanup, hclose], by simp [cleanup, hclose]⟩,
        .unclosedSocket h.state hclose⟩
  · rw [step_returned hpc]
    exact Or.inl h

/-- The code that the client returns is explained by the activation that has set it for good. -/
theorem returned_explained {serverAddr : Addr} {startMs : UInt64} {input : InputFile}
    {es : List (Env Addr)} {code : Int}
    (h : (after (step config) (init serverAddr startMs input) es).pc = .returned code) :
    ∃ pre e post, es = pre ++ e :: post ∧
      (after (step config) (init serverAddr startMs input) pre).Explains config e
        (step config (after (step config) (init serverAddr startMs input) pre) e).2 code ∧
      ∀ mid rest, post = mid ++ rest →
        (after (step config) (init serverAddr startMs input) (pre ++ e :: mid)).Gone code := by
  have hstart : Going input (init serverAddr startMs input) :=
    ⟨⟨by simp [init], rfl, by simp [init], nofun⟩, 0, Paced.init serverAddr startMs input⟩
  rcases ended_explained (fun c e (hc : Going input c) => hc.step config e)
    (fun c e v (hc : Gone c v) => hc.step config e) hstart es with hgoing | ⟨v, hgone, hwhy⟩
  · exact absurd h (hgoing.runs.pc code)
  · rcases hgone.pc with hpc | hpc
    · exact absurd (h.symm.trans hpc) (by simp)
    · rw [ClientPc.returned.inj (h.symm.trans hpc)]
      exact hwhy

end Client

end ReliableUdp
