import ReliableUdp.Endpoint.PeerAddress
import ReliableUdp.Sender.Runs

namespace ReliableUdp

open Machine

variable {Addr : Type}

/-- The order in which `run_client` goes through its states. -/
def ClientState.rank : ClientState → Nat
  | .closed => 0
  | .synSent => 1
  | .established => 2
  | .finWait => 3
  | .timeWait => 4
  | .done => 5

namespace Client

/-- The header of the packet that an activation takes from the socket. -/
def taken (c : Client Addr) (e : Env Addr) : Option RDTHeader :=
  if c.receives e = true then (recvPacket e c.serverAddr).2.toOption.map Prod.fst else none

/-- The packets that make the handlers call `mark_progress`. -/
def Counts (c : Client Addr) (e : Env Addr) (h : RDTHeader) : Prop :=
  c.state = .synSent ∧ c.TakesSynAck h ∨
  c.state = .established ∧ c.IsAck h ∧
    (c.xfer.any (fun x => (gbnProcessAck x.gbn h.ackNum).2)) = true ∨
  c.state = .finWait ∧ c.TakesFinAck h ∨
  c.state = .timeWait ∧ c.TakesFinAckAgain h ∧ e.sendto c.connection.seqNum = true

instance (c : Client Addr) (e : Env Addr) (h : RDTHeader) : Decidable (c.Counts e h) :=
  inferInstanceAs (Decidable (_ ∨ _ ∨ _ ∨ _))

/-- The activation updates `last_progress_ms`: with some reading of the clock it changes. -/
def Updates (config : AppConfig) (c : Client Addr) (e : Env Addr) : Prop :=
  ∃ ms, (c.step config { e with markMs := ms }).1.lastProgressMs ≠ c.lastProgressMs

/-- How many chunks of `input` the client has read, each of which
`gbn_fill_and_send_window` sends as it reads it. -/
def chunksSent (input : InputFile) (c : Client Addr) : Nat :=
  (chunksOf input).length - (chunksOf c.file).length

/-- What one activation does to `last_progress_ms`. -/
def Watched (c : Client Addr) (e : Env Addr) (next : Client Addr) : Prop :=
  (∀ h, c.taken e = some h → ¬ c.Counts e h) ∧ next.lastProgressMs = c.lastProgressMs ∨
  ∃ h, c.taken e = some h ∧ c.Counts e h ∧
    next.lastProgressMs = markProgress c.lastProgressMs e.markMs

variable {config : AppConfig} {c : Client Addr} {e : Env Addr} {x : Transfer}

theorem taken_of_not_receives (h : c.receives e = false) : c.taken e = none := by
  rw [taken, h]
  rfl

theorem receives_of_taken {h : RDTHeader} (ht : c.taken e = some h) : c.receives e = true := by
  cases hr : c.receives e with
  | true => rfl
  | false =>
    rw [taken_of_not_receives hr] at ht
    exact absurd ht (by simp)

theorem Watched.idle (hr : c.receives e = false) {next : Client Addr}
    (h : next.lastProgressMs = c.lastProgressMs) : c.Watched e next := by
  refine Or.inl ⟨?_, h⟩
  intro hd ht
  rw [taken_of_not_receives hr] at ht
  exact absurd ht (by simp)

/-- A packet has been read; it counts or not. -/
theorem Watched.packet {h : RDTHeader} (ht : c.taken e = some h) {next : Client Addr}
    (hn : next.lastProgressMs =
      if c.Counts e h then markProgress c.lastProgressMs e.markMs else c.lastProgressMs) :
    c.Watched e next := by
  by_cases hc : c.Counts e h
  · rw [if_pos hc] at hn
    exact Or.inr ⟨h, ht, hc, hn⟩
  · rw [if_neg hc] at hn
    refine Or.inl ⟨?_, hn⟩
    intro h' ht'
    rw [← Option.some.inj (ht.symm.trans ht')]
    exact hc

/-- Reading from the socket and, unless the datagram is malformed, handling its header. -/
theorem Watched.receive (hr : c.receives e = true)
    {handle : Client Addr → RDTHeader → Client Addr × List (Send Addr)}
    (hh : ∀ a h, (handle { c with serverAddr := a } h).1.lastProgressMs =
      if c.Counts e h then markProgress c.lastProgressMs e.markMs else c.lastProgressMs) :
    c.Watched e (c.receive e handle).1 := by
  rw [Client.receive]
  cases hrecv : (recvPacket e c.serverAddr).2 with
  | error code =>
    refine Or.inl ⟨?_, rfl⟩
    intro h ht
    rw [taken, if_pos hr, hrecv] at ht
    exact absurd ht (by simp [Except.toOption])
  | ok received =>
    refine Watched.packet (h := received.1) ?_ (hh _ _)
    rw [taken, if_pos hr, hrecv]
    rfl

/-- The `select` of a handler. -/
theorem Watched.select {r : Int} {x y z : Client Addr × List (Send Addr)}
    (hidle : ¬ r > 0 → c.Watched e x.1 ∧ c.Watched e y.1) (hz : r > 0 → c.Watched e z.1) :
    c.Watched e (if waitForPacket r = 0 then x else if waitForPacket r < 0 then y else z).1 := by
  split_ifs with h0 hneg
  · rw [waitForPacket_eq_zero] at h0
    exact (hidle (by omega)).1
  · rw [waitForPacket_neg] at hneg
    exact (hidle (by omega)).2
  · exact hz (pos_of_waitForPacket h0 hneg)

theorem counts_synSent (hs : c.state = .synSent) (h : RDTHeader) :
    c.Counts e h ↔ c.TakesSynAck h := by
  simp [Counts, hs]

theorem counts_established (hs : c.state = .established) (hx : c.xfer = some x) (h : RDTHeader) :
    c.Counts e h ↔ c.IsAck h ∧ (gbnProcessAck x.gbn h.ackNum).2 = true := by
  simp [Counts, hs, hx]

theorem counts_finWait (hs : c.state = .finWait) (h : RDTHeader) :
    c.Counts e h ↔ c.TakesFinAck h := by
  simp [Counts, hs]

theorem counts_timeWait (hs : c.state = .timeWait) (h : RDTHeader) :
    c.Counts e h ↔ c.TakesFinAckAgain h ∧ e.sendto c.connection.seqNum = true := by
  simp [Counts, hs]

theorem synSentReady_watched (hs : c.state = .synSent)
    (hr : c.receives e = decide (e.selectResult > 0)) :
    c.Watched e (c.synSentReady config e).1 := by
  rw [synSentReady]
  refine .select ?_ ?_
  · intro hpos
    have hno : c.receives e = false := by
      rw [hr]
      exact decide_eq_false hpos
    refine ⟨.idle hno ?_, .idle hno rfl⟩
    dsimp only
    split_ifs <;> rfl
  · intro hpos
    refine .receive (by rw [hr]; exact decide_eq_true hpos) ?_
    intro a h
    rw [synSentPacket]
    by_cases ht : c.TakesSynAck h
    · rw [if_pos (by exact ht), if_pos ((counts_synSent hs h).mpr ht)]
      dsimp only
      split_ifs <;> rfl
    · rw [if_neg (by exact ht), if_neg (fun hc => ht ((counts_synSent hs h).mp hc))]
      rfl

theorem finWaitReady_watched (hs : c.state = .finWait)
    (hr : c.receives e = decide (e.selectResult > 0)) :
    c.Watched e (c.finWaitReady config e).1 := by
  rw [finWaitReady]
  refine .select ?_ ?_
  · intro hpos
    have hno : c.receives e = false := by
      rw [hr]
      exact decide_eq_false hpos
    refine ⟨.idle hno ?_, .idle hno rfl⟩
    split_ifs <;> rfl
  · intro hpos
    refine .receive (by rw [hr]; exact decide_eq_true hpos) ?_
    intro a h
    rw [finWaitPacket]
    by_cases ht : c.TakesFinAck h
    · rw [if_pos (by exact ht), if_pos ((counts_finWait hs h).mpr ht)]
      dsimp only
      split_ifs <;> rfl
    · rw [if_neg (by exact ht), if_neg (fun hc => ht ((counts_finWait hs h).mp hc))]
      rfl

theorem timeWaitReady_watched (hs : c.state = .timeWait)
    (hr : c.receives e = decide (e.selectResult > 0)) :
    c.Watched e (c.timeWaitReady e).1 := by
  rw [timeWaitReady]
  refine .select ?_ ?_
  · intro hpos
    have hno : c.receives e = false := by
      rw [hr]
      exact decide_eq_false hpos
    refine ⟨.idle hno rfl, .idle hno ?_⟩
    split_ifs <;> rfl
  · intro hpos
    refine .receive (by rw [hr]; exact decide_eq_true hpos) ?_
    intro a h
    rw [timeWaitPacket]
    by_cases ht : c.TakesFinAckAgain h
    · rw [if_pos (by exact ht)]
      dsimp only
      by_cases hsent : e.sendto c.connection.seqNum = true
      · rw [if_pos ((counts_timeWait hs h).mpr ⟨ht, hsent⟩), if_pos (by exact hsent)]
        rfl
      · rw [if_neg (fun hc => hsent ((counts_timeWait hs h).mp hc).2), if_neg (by exact hsent)]
        rfl
    · rw [if_neg (by exact ht), if_neg (fun hc => ht ((counts_timeWait hs h).mp hc).1)]
      rfl

/-- The client at the top of its transfer loop, with a new peer address. -/
def looping (c : Client Addr) (addr : Addr) : Client Addr :=
  { c with serverAddr := addr, pc := .transfer }

/-- What a round of the transfer loop does behind its `select`: it takes an ACK, or it goes on or
fails with everything as it was. -/
inductive ReadyMove (c : Client Addr) (x : Transfer) (e : Env Addr)
    (next : Client Addr × List (Send Addr)) : Prop where
  | ack (addr : Addr) (h : RDTHeader) (taken : c.taken e = some h) (isAck : c.IsAck h)
      (next : next = (c.looping addr).transferAck x e h.ackNum)
  | idle (none : ∀ h, c.taken e = some h → ¬ c.IsAck h)
      (next : next = (c.fail exOsErr, []) ∨ ∃ addr, next = (c.looping addr, []))

theorem transferReady_move (hr : c.receives e = decide (e.selectResult > 0)) :
    c.ReadyMove x e (c.transferReady x e) := by
  have hidle (hpos : ¬ e.selectResult > 0) (h : RDTHeader) (ht : c.taken e = some h) :
      ¬ c.IsAck h := by
    rw [taken_of_not_receives (by rw [hr]; exact decide_eq_false hpos)] at ht
    exact absurd ht (by simp)
  rw [transferReady]
  split_ifs with h0 hneg
  · rw [waitForPacket_eq_zero] at h0
    exact .idle (hidle (by omega)) (Or.inr ⟨c.serverAddr, rfl⟩)
  · rw [waitForPacket_neg] at hneg
    exact .idle (hidle (by omega)) (Or.inl rfl)
  · have hpos := pos_of_waitForPacket h0 hneg
    have htaken : c.taken e = (recvPacket e c.serverAddr).2.toOption.map Prod.fst := by
      rw [taken, hr, if_pos (decide_eq_true hpos)]
    dsimp only
    cases hrecv : (recvPacket e c.serverAddr).2 with
    | error code =>
      refine .idle ?_ (Or.inr ⟨_, rfl⟩)
      intro h ht
      rw [htaken, hrecv] at ht
      exact absurd ht (by simp [Except.toOption])
    | ok received =>
      have ht : c.taken e = some received.1 := by
        rw [htaken, hrecv]
        rfl
      dsimp only
      split_ifs with hack
      · exact .ack _ received.1 ht hack rfl
      · refine .idle ?_ (Or.inr ⟨_, rfl⟩)
        intro h ht'
        rw [← Option.some.inj (ht.symm.trans ht')]
        exact hack

theorem transferAck_lastProgress (ack : UInt32) :
    (c.transferAck x e ack).1.lastProgressMs =
      if (gbnProcessAck x.gbn ack).2 = true then markProgress c.lastProgressMs e.markMs
      else c.lastProgressMs := by
  rw [transferAck]
  dsimp only
  split_ifs <;> rfl

theorem transferTimer_lastProgress : (c.transferTimer x e).1.lastProgressMs = c.lastProgressMs := by
  cases c.transferTimer_move x e with
  | empty hnext => rw [hnext]
  | resends timer hnext => rw [hnext]
  | waits timer ms hnext => rw [hnext]

theorem transferWait_lastProgress : (c.transferWait x e).1.lastProgressMs = c.lastProgressMs := by
  rw [transferWait]
  split_ifs
  · rfl
  · exact transferTimer_lastProgress

theorem transferRound_lastProgress :
    (c.transferRound config x e).1.lastProgressMs = c.lastProgressMs := by
  rw [transferRound]
  dsimp only
  split_ifs
  · rfl
  · rfl
  · exact transferWait_lastProgress
  · exact transferWait_lastProgress
  · rfl

theorem runClient_lastProgress : (c.runClient config e).1.lastProgressMs = c.lastProgressMs := by
  cases hs : c.state with
  | done => rw [runClient_done hs]; rfl
  | closed =>
    rw [runClient_closed hs, handleClosed]
    split_ifs <;> rfl
  | synSent =>
    rw [runClient_synSent hs, handleSynSent]
    split_ifs <;> rfl
  | established =>
    rw [runClient_established hs, handleEstablished]
    split_ifs <;> rfl
  | finWait =>
    rw [runClient_finWait hs, handleFinWait]
    dsimp only
    split_ifs <;> rfl
  | timeWait =>
    rw [runClient_timeWait hs]
    split_ifs <;> rfl

theorem transferReady_watched (hs : c.state = .established) (hx : c.xfer = some x)
    (hr : c.receives e = decide (e.selectResult > 0)) :
    c.Watched e (c.transferReady x e).1 := by
  cases transferReady_move (x := x) hr with
  | ack addr h ht hack hnext =>
    rw [hnext]
    refine .packet ht ?_
    rw [transferAck_lastProgress]
    by_cases hnew : (gbnProcessAck x.gbn h.ackNum).2 = true
    · rw [if_pos hnew, if_pos ((counts_established hs hx h).mpr ⟨hack, hnew⟩)]
      rfl
    · rw [if_neg hnew, if_neg (fun hc => hnew ((counts_established hs hx h).mp hc).2)]
      rfl
  | idle hno hnext =>
    refine Or.inl ⟨fun h ht hc => hno h ht ((counts_established hs hx h).mp hc).1, ?_⟩
    rcases hnext with hnext | ⟨addr, hnext⟩
    · rw [hnext]
      rfl
    · rw [hnext]
      rfl

/-- Every activation: `last_progress_ms` is set to the clock exactly for a packet that counts. -/
theorem step_watched : c.Watched e (c.step config e).1 := by
  cases hpc : c.pc with
  | fsm =>
    rw [step_fsm hpc]
    exact .idle (by simp [receives, hpc]) runClient_lastProgress
  | returned code =>
    rw [step_returned hpc]
    exact .idle (by simp [receives, hpc]) rfl
  | transfer =>
    have hr : c.receives e = false := by simp [receives, hpc]
    cases hx : c.xfer with
    | none =>
      simp only [step, hpc, hx]
      exact .idle hr rfl
    | some x =>
      rw [step_transfer hpc hx]
      exact .idle hr transferRound_lastProgress
  | select ms =>
    rw [step_select hpc]
    cases hs : c.state with
    | closed =>
      simp only [resume, hs]
      exact .idle (by simp [receives, hpc, hs]) rfl
    | done =>
      simp only [resume, hs]
      exact .idle (by simp [receives, hpc, hs]) rfl
    | synSent =>
      rw [resume_synSent hs]
      exact synSentReady_watched hs (by simp only [receives, hpc, hs])
    | finWait =>
      rw [resume_finWait hs]
      exact finWaitReady_watched hs (by simp only [receives, hpc, hs])
    | timeWait =>
      rw [resume_timeWait hs]
      exact timeWaitReady_watched hs (by simp only [receives, hpc, hs])
    | established =>
      cases hx : c.xfer with
      | none =>
        simp only [resume, hs, hx]
        exact .idle (by simp [receives, hpc, hs, hx]) rfl
      | some x =>
        rw [resume_established hs hx]
        exact transferReady_watched hs hx (receives_transfer hpc hs hx e)

theorem updates_iff : c.Updates config e ↔ ∃ h, c.taken e = some h ∧ c.Counts e h := by
  constructor
  · intro hup
    obtain ⟨ms, hne⟩ := hup
    have hmove : c.Watched { e with markMs := ms } (c.step config { e with markMs := ms }).1 :=
      step_watched
    rcases hmove with ⟨_, hkept⟩ | ⟨h, ht, hc, _⟩
    · exact absurd hkept hne
    · exact ⟨h, ht, hc⟩
  · intro hcounted
    obtain ⟨h, ht, hc⟩ := hcounted
    obtain ⟨ms, hms⟩ := exists_markProgress_ne c.lastProgressMs
    refine ⟨ms, ?_⟩
    have hmove : c.Watched { e with markMs := ms } (c.step config { e with markMs := ms }).1 :=
      step_watched
    rcases hmove with ⟨hno, _⟩ | ⟨_, _, _, hmarked⟩
    · exact absurd hc (hno h ht)
    · rw [hmarked]
      exact hms

instance : Decidable (c.Updates config e) :=
  decidable_of_iff ((c.taken e).any (fun h => decide (c.Counts e h)) = true) <| by
    rw [updates_iff, Option.any_eq_true]
    simp

theorem Updates.receives (h : c.Updates config e) : c.receives e = true := by
  obtain ⟨_, ht, _⟩ := updates_iff.mp h
  exact receives_of_taken ht

/-- The client goes no state back and leaves the transfer alone. -/
structure Onward (c : Client Addr) (next : Client Addr × List (Send Addr)) : Prop where
  rank : c.state.rank ≤ next.1.state.rank
  file : next.1.file = c.file
  xfer : next.1.xfer = c.xfer
  pc : next.1.pc ≠ .transfer
  entered : next.1.state ≠ c.state → next.1.pc = .fsm

theorem rank_le_done (state : ClientState) : state.rank ≤ ClientState.done.rank := by
  cases state <;> decide

theorem Onward.fail {c' : Client Addr} {sends : List (Send Addr)} {code : Int}
    (hf : c'.file = c.file) (hx : c'.xfer = c.xfer) : c.Onward (c'.fail code, sends) :=
  ⟨rank_le_done c.state, hf, hx, by simp [Client.fail], fun _ => rfl⟩

theorem Onward.goto {c' : Client Addr} {sends : List (Send Addr)} {state : ClientState}
    (hf : c'.file = c.file) (hx : c'.xfer = c.xfer) (h : c.state.rank ≤ state.rank) :
    c.Onward (c'.goto state, sends) :=
  ⟨h, hf, hx, by simp [Client.goto], fun _ => rfl⟩

theorem Onward.stay {pc : ClientPc} {code : Int} {sends : List (Send Addr)}
    (hpc : pc ≠ .transfer) : c.Onward ({ c with pc := pc, exitCode := code }, sends) :=
  ⟨Nat.le_refl _, rfl, rfl, hpc, fun h => absurd rfl h⟩

theorem Onward.receive {handle : Client Addr → RDTHeader → Client Addr × List (Send Addr)}
    (hh : ∀ a h, c.Onward (handle { c with serverAddr := a } h)) :
    c.Onward (c.receive e handle) := by
  rw [Client.receive]
  cases (recvPacket e c.serverAddr).2 with
  | error code => exact .goto rfl rfl (Nat.le_refl _)
  | ok received => exact hh _ _

theorem runClient_onward (hs : c.state ≠ .established) : c.Onward (c.runClient config e) := by
  cases hst : c.state with
  | established => exact absurd hst hs
  | done =>
    rw [runClient_done hst]
    exact .stay (by simp)
  | closed =>
    rw [runClient_closed hst, handleClosed]
    split_ifs
    · exact .fail rfl rfl
    · exact .goto rfl rfl (by rw [hst]; decide)
    · exact .fail rfl rfl
  | synSent =>
    rw [runClient_synSent hst, handleSynSent]
    split_ifs
    · exact .fail rfl rfl
    · exact .fail rfl rfl
    · exact .stay (by simp)
  | finWait =>
    rw [runClient_finWait hst, handleFinWait]
    dsimp only
    split_ifs
    · exact .fail rfl rfl
    · exact .fail rfl rfl
    · exact .stay (by simp)
    · exact .fail rfl rfl
  | timeWait =>
    rw [runClient_timeWait hst]
    split_ifs
    · exact .fail rfl rfl
    · exact .stay (by simp)

theorem synSentReady_onward (hs : c.state = .synSent) : c.Onward (c.synSentReady config e) := by
  rw [synSentReady]
  dsimp only
  split_ifs
  · exact .fail rfl rfl
  · exact .goto rfl rfl (by rw [hs])
  · exact .fail rfl rfl
  · exact .fail rfl rfl
  · apply Onward.receive
    intro a h
    rw [synSentPacket]
    dsimp only
    split_ifs
    · exact .goto rfl rfl (by rw [hs]; decide)
    · exact .fail rfl rfl
    · exact .goto rfl rfl (by rw [hs])

theorem finWaitReady_onward (hs : c.state = .finWait) : c.Onward (c.finWaitReady config e) := by
  rw [finWaitReady]
  split_ifs
  · exact .fail rfl rfl
  · exact .goto rfl rfl (by rw [hs])
  · exact .fail rfl rfl
  · apply Onward.receive
    intro a h
    rw [finWaitPacket]
    dsimp only
    split_ifs
    · exact .goto rfl rfl (by rw [hs]; decide)
    · exact .fail rfl rfl
    · exact .goto rfl rfl (by rw [hs])

theorem timeWaitReady_onward (hs : c.state = .timeWait) : c.Onward (c.timeWaitReady e) := by
  rw [timeWaitReady]
  split_ifs
  · exact .goto rfl rfl (rank_le_done _)
  · exact .fail rfl rfl
  · exact .fail rfl rfl
  · apply Onward.receive
    intro a h
    rw [timeWaitPacket]
    dsimp only
    split_ifs
    · exact .goto rfl rfl (by rw [hs])
    · exact .fail rfl rfl
    · exact .goto rfl rfl (by rw [hs])

/-- Outside ESTABLISHED. -/
theorem step_onward (hs : c.state ≠ .established) (hpc : c.pc ≠ .transfer) :
    c.Onward (c.step config e) := by
  cases hp : c.pc with
  | transfer => exact absurd hp hpc
  | returned code =>
    rw [step_returned hp]
    exact .stay hpc
  | fsm =>
    rw [step_fsm hp]
    exact runClient_onward hs
  | select ms =>
    rw [step_select hp]
    cases hst : c.state with
    | established => exact absurd hst hs
    | closed =>
      simp only [resume, hst]
      exact .stay hpc
    | done =>
      simp only [resume, hst]
      exact .stay hpc
    | synSent =>
      rw [resume_synSent hst]
      exact synSentReady_onward hst
    | finWait =>
      rw [resume_finWait hst]
      exact finWaitReady_onward hst
    | timeWait =>
      rw [resume_timeWait hst]
      exact timeWaitReady_onward hst

/-- A window whose `base` was moved by `acks` ACKs; it stands for the chunks read so far. -/
structure Paces (input : InputFile) (acks : Nat) (c : Client Addr) (gbn : GBNSenderState)
    (sent : List Chunk) : Prop where
  represents : gbn.Represents c.connection.seqNum.toNat c.connection sent
  read : chunksOf input = sent ++ chunksOf c.file
  acked : c.connection.seqNum.toNat + acks ≤ gbn.base.toNat

/-- A client in whose ESTABLISHED state `acks` ACKs have moved `base`. -/
inductive Paced (input : InputFile) (acks : Nat) (c : Client Addr) : Prop where
  | opening (state : c.state.rank ≤ 2) (pc : c.pc ≠ .transfer)
      (entered : c.state = .established → c.pc = .fsm) (xfer : c.xfer = none)
      (file : c.file = input) (zero : acks = 0)
  | running (state : c.state = .established) (pc : c.pc = .transfer ∨ ∃ ms, c.pc = .select ms)
      (x : Transfer) (sent : List Chunk) (xfer : c.xfer = some x)
      (paces : Paces input acks c x.gbn sent)
  | behind (state : 3 ≤ c.state.rank) (pc : c.pc ≠ .transfer)
      (ordered : ∀ x, c.xfer = some x → x.gbn.base ≤ x.gbn.nextseqnum)
      (bound : acks ≤ c.chunksSent input)

variable {input : InputFile} {acks : Nat} {sent : List Chunk}

theorem Paces.ordered (h : Paces input acks c x.gbn sent) : x.gbn.base ≤ x.gbn.nextseqnum :=
  UInt32.le_iff_toNat_le.mpr h.represents.upper

theorem Paces.chunksSent (h : Paces input acks c x.gbn sent) :
    c.chunksSent input = sent.length := by
  rw [Client.chunksSent, h.read, List.length_append, Nat.add_sub_cancel]

theorem Paces.bound (h : Paces input acks c x.gbn sent) : acks ≤ c.chunksSent input := by
  have hnext := h.represents.next
  have hupper := h.represents.upper
  have hacked := h.acked
  rw [h.chunksSent]
  omega

/-- Only what the window stands for matters. -/
theorem Paces.congr (h : Paces input acks c x.gbn sent) {c' : Client Addr} {x' : Transfer}
    (hc : c'.connection = c.connection) (hf : c'.file = c.file) {timer : UInt64}
    (hx : x'.gbn = { x.gbn with windowTimerMs := timer }) : Paces input acks c' x'.gbn sent := by
  refine ⟨?_, ?_, ?_⟩
  · rw [hc, hx]
    exact h.represents.timer timer
  · rw [hf]
    exact h.read
  · rw [hc, hx]
    exact h.acked

/-- What a round does to a client that takes no new ACK in it. -/
structure Rests (input : InputFile) (acks : Nat) (base : UInt32)
    (next : Client Addr × List (Send Addr)) : Prop where
  paced : Paced input acks next.1
  rank : 2 ≤ next.1.state.rank
  base : ∀ x', next.1.xfer = some x' → x'.gbn.base = base

theorem Paces.leave (h : Paces input acks c x.gbn sent) {c' : Client Addr}
    {sends : List (Send Addr)} (hs : 3 ≤ c'.state.rank) (hpc : c'.pc ≠ .transfer)
    (hf : c'.file = c.file) (hx : c'.xfer = some x) : Rests input acks x.gbn.base (c', sends) := by
  refine ⟨?_, (by decide : 2 ≤ 3).trans hs, ?_⟩
  · refine .behind hs hpc ?_ ?_
    · intro x' hx'
      rw [← Option.some.inj (hx.symm.trans hx')]
      exact h.ordered
    · have hb := h.bound
      rw [Client.chunksSent] at hb ⊢
      rw [hf]
      exact hb
  · intro x' hx'
    rw [← Option.some.inj (hx.symm.trans hx')]

theorem Paces.fail (h : Paces input acks c x.gbn sent) {c' : Client Addr} {sends : List (Send Addr)}
    {code : Int} (hf : c'.file = c.file) (hx : c'.xfer = some x) :
    Rests input acks x.gbn.base (c'.fail code, sends) :=
  h.leave (by decide : 3 ≤ ClientState.done.rank) (by simp [Client.fail]) hf hx

theorem Paces.goOn (h : Paces input acks c x.gbn sent) (hs : c.state = .established)
    {c' : Client Addr} {x' : Transfer} {sends : List (Send Addr)} {timer : UInt64}
    (hs' : c'.state = c.state) (hpc : c'.pc = .transfer ∨ ∃ ms, c'.pc = .select ms)
    (hc : c'.connection = c.connection) (hf : c'.file = c.file) (hx : c'.xfer = some x')
    (hg : x'.gbn = { x.gbn with windowTimerMs := timer }) :
    Rests input acks x.gbn.base (c', sends) := by
  refine ⟨?_, by rw [hs', hs]; exact Nat.le_refl 2, ?_⟩
  · exact .running (hs'.trans hs) hpc x' sent hx (h.congr hc hf hg)
  · intro x'' hx'
    rw [← Option.some.inj (hx.symm.trans hx'), hg]

theorem Paces.transferTimer (h : Paces input acks c x.gbn sent) (hs : c.state = .established) :
    Rests input acks x.gbn.base (c.transferTimer x e) := by
  cases c.transferTimer_move x e with
  | empty hnext =>
    rw [hnext]
    exact h.goOn hs rfl (Or.inr ⟨_, rfl⟩) rfl rfl rfl rfl
  | resends timer hnext =>
    obtain ⟨timer', ht⟩ := gbnRetransmitWindow_state e c.serverAddr
      { x.gbn with windowTimerMs := timer }
    rw [hnext]
    exact h.goOn hs rfl (Or.inl rfl) rfl rfl rfl ht
  | waits timer ms hnext =>
    rw [hnext]
    exact h.goOn hs rfl (Or.inr ⟨_, rfl⟩) rfl rfl rfl rfl

theorem Paces.transferDone (h : Paces input acks c x.gbn sent) (sends : List (Send Addr)) :
    Rests input acks x.gbn.base (c.transferDone x, sends) :=
  h.leave (Nat.le_refl 3) (by simp [Client.transferDone, Client.goto]) rfl rfl

theorem Paces.transferWait (h : Paces input acks c x.gbn sent) (hs : c.state = .established) :
    Rests input acks x.gbn.base (c.transferWait x e) := by
  rw [Client.transferWait]
  split_ifs
  · exact h.transferDone []
  · exact h.transferTimer hs

/-- Reading more chunks. -/
theorem Paces.fill (h : Paces input acks c x.gbn sent) (e : Env Addr) (addr : Addr) :
    ∃ chunks, Paces input acks
      { c with file := (gbnFillAndSendWindow e addr c.connection x.gbn c.file).file }
      (gbnFillAndSendWindow e addr c.connection x.gbn c.file).state (sent ++ chunks) ∧
    (gbnFillAndSendWindow e addr c.connection x.gbn c.file).state.base = x.gbn.base := by
  by_cases hmax : x.gbn.base.toNat + windowSize < 2 ^ 32
  · obtain ⟨chunks, rest, hread, hrep, hbase, _, hend⟩ :=
      gbnFillAndSendWindow_outcome e addr c.file h.represents hmax
    refine ⟨chunks, ⟨hrep, ?_, ?_⟩, hbase⟩
    · rw [h.read, List.append_assoc]
      congr 1
      conv_lhs => rw [hread]
      rw [chunksOf_bytes_append]
      cases hend with
      | full _ hf _ => rw [hf]
      | eof _ hf _ => rw [chunksOf_readChunk (Or.inl hf)]
      | error _ hf => rw [chunksOf_readChunk (Or.inr hf)]
    · dsimp only
      rw [hbase]
      exact h.acked
  · rw [gbnFillAndSendWindow_wrapped e addr c.file h.represents (Nat.not_lt.mp hmax)]
    refine ⟨[], ?_, rfl⟩
    rw [List.append_nil]
    exact h

theorem Rests.prepend {base : UInt32} {next : Client Addr × List (Send Addr)}
    (h : Rests input acks base next) (sends : List (Send Addr)) :
    Rests input acks base (next.1, sends) :=
  ⟨h.paced, h.rank, h.base⟩

theorem Paces.transferRound (h : Paces input acks c x.gbn sent) (hs : c.state = .established)
    (hx : c.xfer = some x) : Rests input acks x.gbn.base (c.transferRound config x e) := by
  rw [Client.transferRound]
  by_cases hloop : x.eofReached = false ∨ x.gbn.base < x.gbn.nextseqnum
  · rw [if_neg (not_not.mpr hloop)]
    by_cases hexp : c.expired config e = true
    · rw [if_pos hexp]
      exact h.fail rfl hx
    · rw [if_neg hexp]
      by_cases heof : x.eofReached = false
      · obtain ⟨chunks, hfill, hbase⟩ := h.fill e c.serverAddr
        rw [if_pos heof, ← hbase]
        by_cases hneg : (gbnFillAndSendWindow e c.serverAddr c.connection x.gbn c.file).result < 0
        · simp only [if_pos hneg]
          exact Paces.fail (x := { x with gbn := _ }) hfill rfl rfl
        · simp only [if_neg hneg]
          exact (Paces.transferWait (c := { c with file := _ })
            (x := { x with gbn := _, eofReached := _ }) hfill hs).prepend _
      · rw [if_neg heof]
        exact h.transferWait hs
  · rw [if_pos hloop]
    exact h.transferDone []

/-- What a round does to a client that takes a new ACK in it. -/
structure Advances (input : InputFile) (acks : Nat) (x : Transfer)
    (next : Client Addr × List (Send Addr)) : Prop where
  paced : Paced input (acks + 1) next.1
  rank : 2 ≤ next.1.state.rank
  base : ∃ x', next.1.xfer = some x' ∧ x.gbn.base < x'.gbn.base

/-- An ACK inside the window. -/
theorem Paces.ackInside (h : Paces input acks c x.gbn sent) (hs : c.state = .established)
    (hpc : c.pc = .transfer) {ack : UInt32} (hlo : x.gbn.base < ack)
    (hhi : ack ≤ x.gbn.nextseqnum) : Advances input acks x (c.transferAck x e ack) := by
  obtain ⟨hnew, hbase, _, _, hrep⟩ := gbnProcessAck_inside h.represents ack hlo hhi
  have hlt := UInt32.lt_iff_toNat_lt.mp hlo
  have hacked := h.acked
  rw [Client.transferAck]
  simp only [if_pos hnew]
  refine ⟨?_, by dsimp only; rw [hs]; exact Nat.le_refl 2, ?_⟩
  · refine .running hs (Or.inl hpc) _ sent rfl ⟨?_, h.read, ?_⟩
    · exact hrep.timer _
    · dsimp only
      rw [hbase]
      omega
  · refine ⟨_, rfl, ?_⟩
    dsimp only
    rw [hbase]
    exact hlo

/-- An ACK outside the window. -/
theorem Paces.ackOutside (h : Paces input acks c x.gbn sent) (hs : c.state = .established)
    (hpc : c.pc = .transfer) {ack : UInt32}
    (hout : ¬ (x.gbn.base < ack ∧ ack ≤ x.gbn.nextseqnum)) :
    Rests input acks x.gbn.base (c.transferAck x e ack) := by
  rw [Client.transferAck]
  simp only [gbnProcessAck_outside ack hout, Bool.false_eq_true, if_false]
  split_ifs
  · obtain ⟨timer, ht⟩ := gbnRetransmitWindow_state e c.serverAddr x.gbn
    have hg : { (gbnRetransmitWindow e c.serverAddr x.gbn).1 with windowTimerMs := e.restartMs } =
        { x.gbn with windowTimerMs := e.restartMs } := by
      rw [ht]
    exact h.goOn hs rfl (Or.inl hpc) rfl rfl rfl hg
  · exact h.goOn hs rfl (Or.inl hpc) rfl rfl rfl rfl
  · exact h.goOn hs rfl (Or.inl hpc) rfl rfl rfl rfl

/-- The flag found in the ring buffer tells whether the ACK is inside the window. -/
theorem Paces.new_iff (h : Paces input acks c x.gbn sent) (ack : UInt32) :
    (gbnProcessAck x.gbn ack).2 = true ↔ x.gbn.base < ack ∧ ack ≤ x.gbn.nextseqnum := by
  constructor
  · intro hnew
    by_contra hout
    rw [gbnProcessAck_outside ack hout] at hnew
    exact Bool.noConfusion hnew
  · intro hin
    exact (gbnProcessAck_inside h.represents ack hin.1 hin.2).1

theorem Paces.looping (h : Paces input acks c x.gbn sent) (addr : Addr) :
    Paces input acks (c.looping addr) x.gbn sent :=
  ⟨h.represents, h.read, h.acked⟩

theorem Paces.transferReady (h : Paces input acks c x.gbn sent) (hs : c.state = .established)
    (hx : c.xfer = some x) (hr : c.receives e = decide (e.selectResult > 0)) :
    (∃ hd, c.taken e = some hd ∧ c.Counts e hd) ∧ Advances input acks x (c.transferReady x e) ∨
      (∀ hd, c.taken e = some hd → ¬ c.Counts e hd) ∧
        Rests input acks x.gbn.base (c.transferReady x e) := by
  cases transferReady_move (x := x) hr with
  | ack addr hd ht hack hnext =>
    rw [hnext]
    by_cases hin : x.gbn.base < hd.ackNum ∧ hd.ackNum ≤ x.gbn.nextseqnum
    · refine Or.inl ⟨⟨hd, ht, ?_⟩, (h.looping addr).ackInside hs rfl hin.1 hin.2⟩
      exact (counts_established hs hx hd).mpr ⟨hack, (h.new_iff hd.ackNum).mpr hin⟩
    · refine Or.inr ⟨?_, (h.looping addr).ackOutside hs rfl hin⟩
      intro hd' ht' hc
      rw [← Option.some.inj (ht.symm.trans ht')] at hc
      exact hin ((h.new_iff hd.ackNum).mp ((counts_established hs hx hd).mp hc).2)
  | idle hno hnext =>
    refine Or.inr ⟨fun hd ht hc => hno hd ht ((counts_established hs hx hd).mp hc).1, ?_⟩
    rcases hnext with hnext | ⟨addr, hnext⟩
    · rw [hnext]
      exact h.fail rfl hx
    · rw [hnext]
      exact (h.looping addr).goOn hs rfl (Or.inl rfl) rfl rfl hx rfl

theorem receive_taken (hr : c.receives e = true) {h : RDTHeader} (ht : c.taken e = some h)
    (handle : Client Addr → RDTHeader → Client Addr × List (Send Addr)) :
    ∃ a, c.receive e handle = handle { c with serverAddr := a } h := by
  rw [taken, if_pos hr] at ht
  rw [Client.receive]
  cases hrecv : (recvPacket e c.serverAddr).2 with
  | error code =>
    rw [hrecv] at ht
    exact absurd ht (by simp [Except.toOption])
  | ok received =>
    rw [hrecv] at ht
    obtain rfl : received.1 = h := Option.some.inj ht
    exact ⟨_, rfl⟩

theorem select_of_receives (hr : c.receives e = true) :
    (∃ ms, c.pc = .select ms) ∧ ¬ waitForPacket e.selectResult = 0 ∧
      ¬ waitForPacket e.selectResult < 0 := by
  have hpos : (∃ ms, c.pc = .select ms) ∧ e.selectResult > 0 := by
    rw [receives] at hr
    split at hr
    · exact ⟨⟨_, ‹_›⟩, of_decide_eq_true hr⟩
    · exact ⟨⟨_, ‹_›⟩, of_decide_eq_true hr⟩
    · exact ⟨⟨_, ‹_›⟩, of_decide_eq_true hr⟩
    · exact ⟨⟨_, ‹_›⟩, of_decide_eq_true hr⟩
    · exact Bool.noConfusion hr
  refine ⟨hpos.1, ?_, ?_⟩
  · rw [waitForPacket_eq_zero]
    have h := hpos.2
    omega
  · rw [waitForPacket_neg]
    have h := hpos.2
    omega

/-- With the SYN+ACK the client leaves SYN_SENT. -/
theorem synAck_leaves (hs : c.state = .synSent) (h : c.Updates config e) :
    2 ≤ (c.step config e).1.state.rank := by
  obtain ⟨hd, ht, hc⟩ := updates_iff.mp h
  obtain ⟨⟨ms, hpc⟩, h0, hneg⟩ := select_of_receives h.receives
  obtain ⟨a, hrecv⟩ := receive_taken h.receives ht (fun c h => c.synSentPacket e h)
  rw [step_select hpc, resume_synSent hs, synSentReady, if_neg h0, if_neg hneg, hrecv,
    synSentPacket, if_pos (by exact (counts_synSent hs hd).mp hc)]
  dsimp only
  split_ifs
  · exact Nat.le_refl 2
  · exact (by decide : 2 ≤ ClientState.done.rank)

/-- With the FIN+ACK the client leaves FIN_WAIT. -/
theorem finAck_leaves (hs : c.state = .finWait) (h : c.Updates config e) :
    4 ≤ (c.step config e).1.state.rank := by
  obtain ⟨hd, ht, hc⟩ := updates_iff.mp h
  obtain ⟨⟨ms, hpc⟩, h0, hneg⟩ := select_of_receives h.receives
  obtain ⟨a, hrecv⟩ := receive_taken h.receives ht (fun c h => c.finWaitPacket e h)
  rw [step_select hpc, resume_finWait hs, finWaitReady, if_neg h0, if_neg hneg, hrecv,
    finWaitPacket, if_pos (by exact (counts_finWait hs hd).mp hc)]
  dsimp only
  split_ifs
  · exact Nat.le_refl 4
  · exact (by decide : 4 ≤ ClientState.done.rank)

/-- One activation in ESTABLISHED with an update moves `base`, and no other one does. -/
inductive PacedMove (config : AppConfig) (input : InputFile) (acks : Nat) (c : Client Addr)
    (e : Env Addr) : Prop where
  | rests (no : ¬ (c.state = .established ∧ c.Updates config e))
      (paced : Paced input acks (c.step config e).1)
      (rank : c.state.rank ≤ (c.step config e).1.state.rank)
      (base : c.state = .established → ∀ x x', c.xfer = some x →
        (c.step config e).1.xfer = some x' → x'.gbn.base = x.gbn.base)
  | advances (state : c.state = .established) (updates : c.Updates config e)
      (paced : Paced input (acks + 1) (c.step config e).1)
      (rank : c.state.rank ≤ (c.step config e).1.state.rank)
      (base : ∃ x x', c.xfer = some x ∧ (c.step config e).1.xfer = some x' ∧
        x.gbn.base < x'.gbn.base)

theorem Paced.onward (hs : c.state ≠ .established)
    (hn : c.Onward (c.step config e))
    (hp : Paced input acks (c.step config e).1) : PacedMove config input acks c e :=
  .rests (fun h => hs h.1) hp hn.rank (fun h => absurd h hs)

theorem Paced.enter (config : AppConfig) (e : Env Addr) (hs : c.state = .established)
    (hpc : c.pc = .fsm) (hx : c.xfer = none) (hf : c.file = input) :
    Paced input 0 (c.step config e).1 ∧ 2 ≤ (c.step config e).1.state.rank := by
  have hfail (code : Int) : Paced input 0 (c.fail code) := by
    refine .behind (by decide : 3 ≤ ClientState.done.rank) (by simp [Client.fail]) ?_
      (Nat.zero_le _)
    intro x hx'
    rw [Client.fail, hx] at hx'
    exact absurd hx' (by simp)
  have hdone : 2 ≤ ClientState.done.rank := by decide
  rw [step_fsm hpc, runClient_established hs, handleEstablished]
  split_ifs
  · exact ⟨hfail _, hdone⟩
  · exact ⟨hfail _, hdone⟩
  · refine ⟨.running hs (Or.inl rfl) _ [] rfl ⟨.start _ _, ?_, Nat.le_refl _⟩, ?_⟩
    · dsimp only
      rw [hf]
      rfl
    · dsimp only
      rw [hs]
      exact Nat.le_refl 2

theorem Paced.move (h : Paced input acks c) (config : AppConfig) (e : Env Addr) :
    PacedMove config input acks c e := by
  cases h with
  | opening hrank hpc hentered hx hf hzero =>
    by_cases hs : c.state = .established
    · obtain ⟨hp, hr⟩ := enter config e hs (hentered hs) hx hf
      rw [hzero]
      refine .rests ?_ hp (by rw [hs]; exact hr) ?_
      · intro hup
        have hrec := hup.2.receives
        rw [receives, hentered hs] at hrec
        exact Bool.noConfusion hrec
      · intro _ x x' hx' _
        rw [hx] at hx'
        exact absurd hx' (by simp)
    · have hn : c.Onward (c.step config e) := step_onward hs hpc
      refine onward hs hn ?_
      by_cases hlate : 3 ≤ (c.step config e).1.state.rank
      · refine .behind hlate hn.pc ?_ (by rw [hzero]; exact Nat.zero_le _)
        intro x hx'
        rw [hn.xfer, hx] at hx'
        exact absurd hx' (by simp)
      · refine .opening (by omega) hn.pc ?_ (hn.xfer.trans hx) (hn.file.trans hf) hzero
        intro hs'
        exact hn.entered (fun hsame => hs (hsame.symm.trans hs'))
  | behind hrank hpc hord hb =>
    have hs : c.state ≠ .established := by
      intro hs
      rw [hs] at hrank
      exact absurd hrank (by decide)
    have hn : c.Onward (c.step config e) := step_onward hs hpc
    refine onward hs hn (.behind (hrank.trans hn.rank) hn.pc ?_ ?_)
    · rw [hn.xfer]
      exact hord
    · rw [Client.chunksSent, hn.file]
      exact hb
  | running hs hpc x sent hx hp =>
    have hrests (no : ¬ c.Updates config e)
        (hr : Rests input acks x.gbn.base (c.step config e)) : PacedMove config input acks c e := by
      refine .rests (fun hup => no hup.2) hr.paced (by rw [hs]; exact hr.rank) ?_
      intro _ y x' hy hx'
      rw [hr.base x' hx', Option.some.inj (hx.symm.trans hy)]
    rcases hpc with hpc | ⟨ms, hpc⟩
    · refine hrests ?_ (by rw [step_transfer hpc hx]; exact hp.transferRound hs hx)
      intro hup
      have hrec := hup.receives
      rw [receives, hpc] at hrec
      exact Bool.noConfusion hrec
    · have hr := receives_transfer hpc hs hx e
      have hstep : c.step config e = c.transferReady x e := by
        rw [step_select hpc, resume_established hs hx]
      rcases hp.transferReady hs hx hr with ⟨hc, hadv⟩ | ⟨hno, hr'⟩
      · rw [← hstep] at hadv
        obtain ⟨x', hx', hlt⟩ := hadv.base
        exact .advances hs (updates_iff.mpr hc) hadv.paced (by rw [hs]; exact hadv.rank)
          ⟨x, x', hx, hx', hlt⟩
      · rw [← hstep] at hr'
        refine hrests ?_ hr'
        intro hup
        obtain ⟨hd, ht, hc⟩ := updates_iff.mp hup
        exact hno hd ht hc

/-- In ESTABLISHED the watchdog is fed exactly when `base` moves. -/
theorem Paced.updates_iff_base (h : Paced input acks c) (hs : c.state = .established) :
    c.Updates config e ↔ ∃ x x', c.xfer = some x ∧ (c.step config e).1.xfer = some x' ∧
      x.gbn.base < x'.gbn.base := by
  constructor
  · intro hup
    cases h.move config e with
    | rests hno _ _ _ => exact absurd ⟨hs, hup⟩ hno
    | advances _ _ _ _ hbase => exact hbase
  · intro hmoved
    obtain ⟨x, x', hx, hx', hlt⟩ := hmoved
    cases h.move config e with
    | rests _ _ _ hbase =>
      rw [hbase hs x x' hx hx'] at hlt
      exact absurd hlt (UInt32.lt_irrefl _)
    | advances _ hup _ _ _ => exact hup

theorem PacedMove.rank (h : PacedMove config input acks c e) :
    c.state.rank ≤ (c.step config e).1.state.rank := by
  cases h with
  | rests _ _ hr _ => exact hr
  | advances _ _ _ hr _ => exact hr

theorem Paced.next (h : Paced input acks c) (config : AppConfig) (e : Env Addr) :
    Paced input (acks + if c.state = .established ∧ c.Updates config e then 1 else 0)
      (c.step config e).1 := by
  cases h.move config e with
  | rests hno hp _ _ =>
    rw [if_neg hno]
    exact hp
  | advances hs hup hp _ _ =>
    rw [if_pos ⟨hs, hup⟩]
    exact hp

theorem Paced.bound (h : Paced input acks c) : acks ≤ c.chunksSent input := by
  cases h with
  | opening _ _ _ _ _ hzero =>
    rw [hzero]
    exact Nat.zero_le _
  | running _ _ x sent _ hp => exact hp.bound
  | behind _ _ _ hb => exact hb

theorem Paced.ordered (h : Paced input acks c) (hx : c.xfer = some x) :
    x.gbn.base ≤ x.gbn.nextseqnum := by
  cases h with
  | opening _ _ _ hnone _ _ =>
    rw [hnone] at hx
    exact absurd hx (by simp)
  | running _ _ y sent hy hp =>
    rw [← Option.some.inj (hy.symm.trans hx)]
    exact hp.ordered
  | behind _ _ hord _ => exact hord x hx

theorem Paced.numbered (h : Paced input acks c) (hs : c.state = .established)
    (hx : c.xfer = some x) :
    x.gbn.nextseqnum.toNat = c.connection.seqNum.toNat + c.chunksSent input := by
  cases h with
  | opening _ _ _ hnone _ _ =>
    rw [hnone] at hx
    exact absurd hx (by simp)
  | running _ _ y sent hy hp =>
    rw [← Option.some.inj (hy.symm.trans hx), hp.chunksSent]
    exact hp.represents.next
  | behind hr _ _ _ =>
    rw [hs] at hr
    exact absurd hr (by decide)

theorem Paced.init (serverAddr : Addr) (startMs : UInt64) (input : InputFile) :
    Paced input 0 (Client.init serverAddr startMs input) :=
  .opening (Nat.zero_le 2) (by simp [Client.init]) (fun h => absurd h (by simp [Client.init])) rfl
    rfl rfl

/-- An update in the state `state`. -/
def UpdatesIn (config : AppConfig) (state : ClientState) (c : Client Addr) (e : Env Addr) : Prop :=
  c.state = state ∧ c.Updates config e

instance (config : AppConfig) (state : ClientState) (c : Client Addr) (e : Env Addr) :
    Decidable (c.UpdatesIn config state e) := inferInstanceAs (Decidable (_ ∧ _))

/-- An update before TIME_WAIT. -/
def UpdatesEarly (config : AppConfig) (c : Client Addr) (e : Env Addr) : Prop :=
  c.state ≠ .timeWait ∧ c.Updates config e

instance (config : AppConfig) (c : Client Addr) (e : Env Addr) :
    Decidable (c.UpdatesEarly config e) := inferInstanceAs (Decidable (_ ∧ _))

/-- The watchdog of the client is fed by progress only: what happens to `last_progress_ms` in the
run `es`, of which all that comes before TIME_WAIT counts. -/
structure FedByProgress (config : AppConfig) (input : InputFile) (c₀ : Client Addr)
    (es : List (Env Addr)) : Prop where
  total : count (UpdatesEarly config) (step config) c₀ es ≤
    (after (step config) c₀ es).chunksSent input + 2
  synAck : count (UpdatesIn config .synSent) (step config) c₀ es ≤ 1
  acks : count (UpdatesIn config .established) (step config) c₀ es ≤
    (after (step config) c₀ es).chunksSent input
  finAck : count (UpdatesIn config .finWait) (step config) c₀ es ≤ 1
  sources : ∀ pre e post, es = pre ++ e :: post →
    (after (step config) c₀ pre).UpdatesEarly config e →
    ∃ h, (after (step config) c₀ pre).taken e = some h ∧
      ((after (step config) c₀ pre).state = .synSent ∧
          (after (step config) c₀ pre).TakesSynAck h ∨
        (after (step config) c₀ pre).state = .established ∧
          (after (step config) c₀ pre).IsAck h ∨
        (after (step config) c₀ pre).state = .finWait ∧
          (after (step config) c₀ pre).TakesFinAck h)
  /-- in ESTABLISHED an update coincides with a strict increase of `base` -/
  advances : ∀ pre e post, es = pre ++ e :: post →
    (after (step config) c₀ pre).state = .established →
    ((after (step config) c₀ pre).Updates config e ↔
      ∃ x x', (after (step config) c₀ pre).xfer = some x ∧
        ((after (step config) c₀ pre).step config e).1.xfer = some x' ∧ x.gbn.base < x'.gbn.base)
  ordered : ∀ x, (after (step config) c₀ es).xfer = some x → x.gbn.base ≤ x.gbn.nextseqnum
  numbered : (after (step config) c₀ es).state = .established →
    ∀ x, (after (step config) c₀ es).xfer = some x → x.gbn.nextseqnum.toNat =
      (after (step config) c₀ es).connection.seqNum.toNat +
        (after (step config) c₀ es).chunksSent input

theorem paced_after (config : AppConfig) (serverAddr : Addr) (startMs : UInt64)
    (input : InputFile) (es : List (Env Addr)) :
    Paced input (count (UpdatesIn config .established) (step config)
      (Client.init serverAddr startMs input) es)
      (after (step config) (Client.init serverAddr startMs input) es) := by
  apply run_invariant (I := fun es c => Paced input (count (UpdatesIn config .established)
    (step config) (Client.init serverAddr startMs input) es) c)
  · exact .init serverAddr startMs input
  · intro pre e h
    rw [count_snoc]
    exact h.next config e

/-- Two of the updates open and close the connection, each happens once. -/
theorem updatesIn_once {state : ClientState} {n : Nat} (hn : state.rank < n)
    (hleaves : ∀ (c : Client Addr) (e : Env Addr), c.UpdatesIn config state e →
      n ≤ (c.step config e).1.state.rank)
    (h : Paced input acks c) (es : List (Env Addr)) :
    count (UpdatesIn config state) (step config) c es ≤ 1 := by
  apply count_le_one (I := fun c => ∃ acks, Paced input acks c) (R := fun c => n ≤ c.state.rank)
  · intro c e hp
    obtain ⟨acks, hp⟩ := hp
    exact ⟨_, hp.next config e⟩
  · intro c e _ hup
    exact hleaves c e hup
  · intro c e hp hle
    obtain ⟨acks, hp⟩ := hp
    exact hle.trans (hp.move config e).rank
  · intro c e hle hup
    rw [hup.1] at hle
    omega
  · exact ⟨acks, h⟩

/-- Each update before TIME_WAIT is one of the three kinds. -/
theorem UpdatesEarly.source (h : c.UpdatesEarly config e) : ∃ hd, c.taken e = some hd ∧
    (c.state = .synSent ∧ c.TakesSynAck hd ∨ c.state = .established ∧ c.IsAck hd ∨
      c.state = .finWait ∧ c.TakesFinAck hd) := by
  obtain ⟨hne, hup⟩ := h
  obtain ⟨hd, ht, hc⟩ := updates_iff.mp hup
  refine ⟨hd, ht, ?_⟩
  rcases hc with hc | ⟨hs, hack, _⟩ | hc | ⟨hs, _⟩
  · exact Or.inl hc
  · exact Or.inr (Or.inl ⟨hs, hack⟩)
  · exact Or.inr (Or.inr hc)
  · exact absurd hs hne

theorem count_updatesEarly_le (config : AppConfig) (c : Client Addr) (es : List (Env Addr)) :
    count (UpdatesEarly config) (step config) c es ≤
      count (UpdatesIn config .synSent) (step config) c es +
      (count (UpdatesIn config .established) (step config) c es +
        count (UpdatesIn config .finWait) (step config) c es) := by
  have hearly : count (UpdatesEarly config) (step config) c es ≤
      count (UpdatesIn config .synSent) (step config) c es +
        count (fun c e => c.UpdatesIn config .established e ∨ c.UpdatesIn config .finWait e)
          (step config) c es := by
    apply count_le_add
    intro c e h
    obtain ⟨_, _, hsrc⟩ := h.source
    rcases hsrc with ⟨hs, _⟩ | ⟨hs, _⟩ | ⟨hs, _⟩
    · exact Or.inl ⟨hs, h.2⟩
    · exact Or.inr (Or.inl ⟨hs, h.2⟩)
    · exact Or.inr (Or.inr ⟨hs, h.2⟩)
  have hlate : count (fun c e => c.UpdatesIn config .established e ∨ c.UpdatesIn config .finWait e)
        (step config) c es ≤ count (UpdatesIn config .established) (step config) c es +
      count (UpdatesIn config .finWait) (step config) c es :=
    count_le_add (fun c e h => h) c es
  exact hearly.trans (Nat.add_le_add_left hlate _)

/-- Whatever arrives, the watchdog of the client is fed only by the SYN+ACK, by ACKs that move
`base`, and by the FIN+ACK. -/
theorem watchdog_fed_by_progress (config : AppConfig) (serverAddr : Addr) (startMs : UInt64)
    (input : InputFile) (es : List (Env Addr)) :
    FedByProgress config input (Client.init serverAddr startMs input) es := by
  have hpaced := paced_after config serverAddr startMs input
  have hsyn : count (UpdatesIn config .synSent) (step config)
      (Client.init serverAddr startMs input) es ≤ 1 :=
    updatesIn_once (n := 2) (by decide) (fun c e h => synAck_leaves h.1 h.2)
      (.init serverAddr startMs input) es
  have hfin : count (UpdatesIn config .finWait) (step config)
      (Client.init serverAddr startMs input) es ≤ 1 :=
    updatesIn_once (n := 4) (by decide) (fun c e h => finAck_leaves h.1 h.2)
      (.init serverAddr startMs input) es
  have hacks := (hpaced es).bound
  refine ⟨?_, hsyn, hacks, hfin, ?_, ?_, ?_, ?_⟩
  · have hsplit := count_updatesEarly_le config (Client.init serverAddr startMs input) es
    omega
  · intro pre e post _ hup
    exact hup.source
  · intro pre e post _ hs
    exact (hpaced pre).updates_iff_base hs
  · intro x hx
    exact (hpaced es).ordered hx
  · intro hs x hx
    exact (hpaced es).numbered hs hx

end Client

end ReliableUdp
