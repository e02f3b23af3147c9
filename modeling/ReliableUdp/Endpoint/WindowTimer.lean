import ReliableUdp.Endpoint.Deadline

namespace ReliableUdp

open Machine

variable {Addr : Type}

/-- A DATA packet with this number is among the packets. -/
def SendsNumber (connection : ConnectionState) (seq : UInt32) (sends : List (Send Addr)) : Prop :=
  ∃ o ∈ sends, ∃ chunk, o.data = dataPacket connection seq.toNat chunk

/-- Packets wait for their acknowledgement. -/
def Transfer.Outstanding (x : Transfer) : Prop := x.gbn.base ≠ x.gbn.nextseqnum

section Renewal

variable {e : Env Addr} {addr : Addr} {connection : ConnectionState} {state : GBNSenderState}
  {s0 : Nat} {sent : List Chunk} {file : InputFile}

theorem sendsNumber_dataSends {seq : UInt32} {chunks : List Chunk} (hne : chunks ≠ []) :
    SendsNumber connection seq (dataSends e addr connection seq.toNat chunks) := by
  obtain ⟨chunk, rest, rfl⟩ := List.exists_cons_of_ne_nil hne
  exact ⟨_, List.mem_cons_self, chunk, rfl⟩

theorem SendsNumber.append_left {seq : UInt32} {sends : List (Send Addr)}
    (h : SendsNumber connection seq sends) (later : List (Send Addr)) :
    SendsNumber connection seq (sends ++ later) := by
  obtain ⟨o, ho, hdata⟩ := h
  exact ⟨o, List.mem_append_left _ ho, hdata⟩

theorem SendsNumber.append_right {seq : UInt32} {sends : List (Send Addr)}
    (h : SendsNumber connection seq sends) (before : List (Send Addr)) :
    SendsNumber connection seq (before ++ sends) := by
  obtain ⟨o, ho, hdata⟩ := h
  exact ⟨o, List.mem_append_right _ ho, hdata⟩

/-- A repeated window begins with the packet at `base`. -/
theorem gbnRetransmitWindow_sendsBase (h : state.Represents s0 connection sent)
    (hout : state.base ≠ state.nextseqnum) :
    SendsNumber connection state.base (gbnRetransmitWindow e addr state).2 := by
  rw [gbnRetransmitWindow_sends e addr h]
  apply sendsNumber_dataSends
  intro hnil
  have hlen := congrArg List.length hnil
  have hnext := h.next
  have hlower := h.lower
  have hupper := h.upper
  rw [List.length_drop, List.length_nil] at hlen
  exact hout (UInt32.toNat_inj.mp (by omega))

/-- The first packet of an empty window starts the timer, the others leave it alone. -/
theorem fillLoop_starts (n : Nat) (hempty : state.base = state.nextseqnum)
    (hmax : state.nextseqnum.toNat + n < 2 ^ 32)
    (hout : (fillLoop e addr connection n state file).state.base ≠
      (fillLoop e addr connection n state file).state.nextseqnum) :
    (fillLoop e addr connection n state file).state.windowTimerMs = e.fillMs := by
  cases n with
  | zero => exact absurd hempty hout
  | succ n =>
    match file with
    | [] => exact absurd hempty hout
    | .eof :: file => exact absurd hempty hout
    | .error :: file => exact absurd hempty hout
    | .bytes chunk :: file =>
      have hsucc : (advance (fillSlot e connection state chunk)).nextseqnum.toNat =
          state.nextseqnum.toNat + 1 := UInt32.toNat_succ state.nextseqnum (by omega)
      have hbase : (advance (fillSlot e connection state chunk)).base = state.base := rfl
      have htimer : (advance (fillSlot e connection state chunk)).windowTimerMs = e.fillMs :=
        if_pos hempty
      simp only [fillLoop, readChunk]
      rcases fillLoop_timer e addr connection n (advance (fillSlot e connection state chunk)) file
        (by rw [hsucc, hbase, hempty]; omega) (by rw [hsucc]; omega) with h | ⟨_, h⟩
      · rw [h, htimer]
      · exact h

/-- A fill of an empty window starts the timer with its first packet. -/
theorem gbnFillAndSendWindow_starts (h : state.Represents s0 connection sent)
    (hempty : state.base = state.nextseqnum)
    (hout : (gbnFillAndSendWindow e addr connection state file).state.base ≠
      (gbnFillAndSendWindow e addr connection state file).state.nextseqnum) :
    (gbnFillAndSendWindow e addr connection state file).state.windowTimerMs = e.fillMs ∧
      SendsNumber connection state.base
        (gbnFillAndSendWindow e addr connection state file).sends := by
  by_cases hmax : state.base.toNat + windowSize < 2 ^ 32
  · have hlimit := windowLimit_toNat hmax
    have hfits := h.fits
    obtain ⟨chunks, rest, houtcome⟩ := gbnFillAndSendWindow_outcome e addr file h hmax
    refine ⟨fillLoop_starts _ hempty (by rw [hlimit]; omega) hout, ?_⟩
    rw [houtcome.sends, ← hempty]
    apply sendsNumber_dataSends
    intro hnil
    have hnext := houtcome.represents.next
    rw [hnil, List.append_nil, ← h.next, ← hempty] at hnext
    exact hout (houtcome.base.trans (UInt32.toNat_inj.mp hnext).symm)
  · rw [gbnFillAndSendWindow_wrapped e addr file h (Nat.not_lt.mp hmax)] at hout
    exact absurd hempty hout

/-- A fill leaves a timer alone that runs already. -/
theorem gbnFillAndSendWindow_running (h : state.Represents s0 connection sent)
    (hout : state.base ≠ state.nextseqnum) :
    (gbnFillAndSendWindow e addr connection state file).state.windowTimerMs =
      state.windowTimerMs := by
  by_cases hmax : state.base.toNat + windowSize < 2 ^ 32
  · rcases gbnFillAndSendWindow_timer e addr file h hmax with hsame | ⟨hempty, _⟩
    · exact hsame
    · exact absurd hempty hout
  · rw [gbnFillAndSendWindow_wrapped e addr file h (Nat.not_lt.mp hmax)]

end Renewal

namespace Client

variable {config : AppConfig} {input : InputFile} {acks : Nat} {sent : List Chunk}
  {c : Client Addr} {e : Env Addr} {x : Transfer}

/-- With packets outstanding the loop waits for the rest of the interval, or sends the window again
and starts the timer anew. -/
theorem transferTimer_turn (hout : x.Outstanding) (hread : x.gbn.windowTimerMs ≠ 0)
    (hle : x.gbn.windowTimerMs ≤ e.nowMs) :
    (∃ ms, ms + e.nowMs.toNat = x.gbn.windowTimerMs.toNat + retransmitIntervalMs ∧
      c.transferTimer x e = ({ c with pc := .select ms, xfer := some x }, [])) ∨
    c.transferTimer x e =
      ({ c with
        pc := .transfer
        xfer := some { x with gbn := { x.gbn with windowTimerMs := e.restartMs } } },
        (gbnRetransmitWindow e c.serverAddr x.gbn).2) := by
  have helapsed : (e.nowMs - x.gbn.windowTimerMs).toNat =
      e.nowMs.toNat - x.gbn.windowTimerMs.toNat := UInt64.toNat_sub_of_le _ _ hle
  have hle' := UInt64.le_iff_toNat_le.mp hle
  have hlate : e.nowMs - x.gbn.windowTimerMs ≥ UInt64.ofNat retransmitIntervalMs ↔
      retransmitIntervalMs ≤ e.nowMs.toNat - x.gbn.windowTimerMs.toNat := by
    rw [ge_iff_le, UInt64.le_iff_toNat_le, helapsed]
    rfl
  have hresent : (gbnRetransmitWindow e c.serverAddr x.gbn).1 =
      { x.gbn with windowTimerMs := e.restartMs } := by
    rw [gbnRetransmitWindow, if_neg hout]
  rw [transferTimer, if_neg hout]
  simp only [if_neg hread, hlate, helapsed]
  by_cases hwait : retransmitIntervalMs ≤ e.nowMs.toNat - x.gbn.windowTimerMs.toNat
  · right
    rw [if_pos hwait, ← hresent]
  · left
    refine ⟨retransmitIntervalMs - (e.nowMs.toNat - x.gbn.windowTimerMs.toNat), by omega, ?_⟩
    rw [if_neg hwait, if_neg (by omega)]

/-- What a round of the transfer loop has done when it comes to the timer: the timer of a window
with outstanding packets runs already, or it has just been started by its first packet. -/
structure Filled (c : Client Addr) (x : Transfer) (e : Env Addr) (c' : Client Addr) (x' : Transfer)
    (sends : List (Send Addr)) : Prop where
  connection : c'.connection = c.connection
  represents : ∃ s0 sent, x'.gbn.Represents s0 c.connection sent
  timer : x'.Outstanding →
    x.Outstanding ∧ x'.gbn.windowTimerMs = x.gbn.windowTimerMs ∧ x'.gbn.base = x.gbn.base ∨
      x'.gbn.windowTimerMs = e.fillMs ∧ SendsNumber c.connection x'.gbn.base sends

/-- A round of the transfer loop that does not leave it comes to the timer. -/
theorem transferRound_filled (hp : Paces input acks c x.gbn sent) :
    (c.transferRound config x e).1.state ≠ .established ∨
    ∃ c' x' sends, c.Filled x e c' x' sends ∧ c.transferRound config x e =
      ((c'.transferTimer x' e).1, sends ++ (c'.transferTimer x' e).2) := by
  rw [transferRound]
  by_cases hloop : x.eofReached = false ∨ x.gbn.base < x.gbn.nextseqnum
  · rw [if_neg (not_not.mpr hloop)]
    by_cases hexp : c.expired config e = true
    · rw [if_pos hexp]
      exact Or.inl (by simp [Client.fail])
    · rw [if_neg hexp]
      by_cases heof : x.eofReached = false
      · obtain ⟨chunks, hfill, hbase⟩ := hp.fill e c.serverAddr
        rw [if_pos heof]
        dsimp only
        by_cases hneg : (gbnFillAndSendWindow e c.serverAddr c.connection x.gbn c.file).result < 0
        · rw [if_pos hneg]
          exact Or.inl (by simp [Client.fail])
        · rw [if_neg hneg, transferWait]
          split_ifs with hdone
          · exact Or.inl (by simp [transferDone, Client.goto])
          · refine Or.inr ⟨{ c with
                file := (gbnFillAndSendWindow e c.serverAddr c.connection x.gbn c.file).file },
              _, _, ⟨rfl, ⟨_, _, hfill.represents⟩, ?_⟩, rfl⟩
            intro hout
            by_cases hempty : x.gbn.base = x.gbn.nextseqnum
            · obtain ⟨htimer, hsent⟩ := gbnFillAndSendWindow_starts hp.represents hempty hout
              rw [← hbase] at hsent
              exact Or.inr ⟨htimer, hsent⟩
            · exact Or.inl ⟨hempty, gbnFillAndSendWindow_running hp.represents hempty, hbase⟩
      · rw [if_neg heof, transferWait]
        split_ifs with hdone
        · exact Or.inl (by simp [transferDone, Client.goto])
        · exact Or.inr ⟨c, x, [], ⟨rfl, ⟨_, _, hp.represents⟩,
            fun hout => Or.inl ⟨hout, rfl, rfl⟩⟩, rfl⟩
  · rw [if_pos hloop]
    exact Or.inl (by simp [transferDone, Client.goto])

/-- The timer of `y` is that of `x`, or it has been started because the packet at the base is among
the packets sent, or because the base has moved. -/
def KeepsTimer (c : Client Addr) (x : Transfer) (e : Env Addr) (y : Transfer)
    (sends : List (Send Addr)) : Prop :=
  x.Outstanding ∧ y.gbn.windowTimerMs = x.gbn.windowTimerMs ∧ y.gbn.base = x.gbn.base ∨
    y.gbn.windowTimerMs = e.restartMs ∧
      (SendsNumber c.connection y.gbn.base sends ∨ x.gbn.base ≠ y.gbn.base)

theorem transferAck_timer (hp : Paces input acks c x.gbn sent) {ack : UInt32} {y : Transfer}
    (hy : (c.transferAck x e ack).1.xfer = some y) (hout : y.Outstanding) :
    c.KeepsTimer x e y (c.transferAck x e ack).2 := by
  rw [transferAck] at hy ⊢
  by_cases hin : x.gbn.base < ack ∧ ack ≤ x.gbn.nextseqnum
  · obtain ⟨hnew, hbase, hnext, _, _⟩ := gbnProcessAck_inside hp.represents ack hin.1 hin.2
    simp only [if_pos hnew, Option.some.injEq] at hy ⊢
    subst hy
    refine Or.inr ⟨if_neg hout, Or.inr ?_⟩
    intro heq
    rw [heq, hbase] at hin
    exact absurd hin.1 (UInt32.lt_irrefl _)
  · simp only [gbnProcessAck_outside ack hin, Bool.false_eq_true, if_false] at hy ⊢
    by_cases hdup : ack = x.lastAck
    · simp only [if_pos hdup] at hy ⊢
      by_cases hthree : x.dupAckCount + 1 = 3
      · obtain ⟨timer, ht⟩ := gbnRetransmitWindow_state e c.serverAddr x.gbn
        simp only [if_pos hthree, Option.some.injEq, ht] at hy ⊢
        subst hy
        exact Or.inr ⟨rfl, Or.inl (gbnRetransmitWindow_sendsBase hp.represents hout)⟩
      · simp only [if_neg hthree, Option.some.injEq] at hy ⊢
        subst hy
        exact Or.inl ⟨hout, rfl, rfl⟩
    · simp only [if_neg hdup, Option.some.injEq] at hy ⊢
      subst hy
      exact Or.inl ⟨hout, rfl, rfl⟩

theorem transferReady_timer (hp : Paces input acks c x.gbn sent) (hx : c.xfer = some x)
    (hr : c.receives e = decide (e.selectResult > 0)) {y : Transfer}
    (hs : (c.transferReady x e).1.state = .established)
    (hy : (c.transferReady x e).1.xfer = some y) (hout : y.Outstanding) :
    (c.transferReady x e).1.pc = .transfer ∧ c.KeepsTimer x e y (c.transferReady x e).2 := by
  cases transferReady_move (x := x) hr with
  | ack addr h _ _ hnext =>
    rw [hnext] at hs hy ⊢
    refine ⟨?_, transferAck_timer (hp.looping addr) hy hout⟩
    rw [transferAck]
    dsimp only
    split_ifs <;> rfl
  | idle _ hnext =>
    rcases hnext with hnext | ⟨addr, hnext⟩
    · rw [hnext] at hs
      exact absurd hs (by simp [Client.fail])
    · rw [hnext] at hy ⊢
      obtain rfl : x = y := Option.some.inj (hx.symm.trans hy)
      exact ⟨rfl, Or.inl ⟨hout, rfl, rfl⟩⟩

end Client

namespace TimedClient

open Client

variable {config : AppConfig} {input : InputFile} {delayMs : Nat} {s : TimedClient Addr}
  {z : TimedEnv Addr} {x y : Transfer}

/-- The clock readings of the transfer loop lie in the activation, in their order. -/
structure ReadsInOrder (s : TimedClient Addr) (z : TimedEnv Addr) : Prop where
  fill : s.nowMs ≤ z.env.fillMs.toNat
  now : z.env.fillMs.toNat ≤ z.env.nowMs.toNat
  restart : z.env.nowMs.toNat ≤ z.env.restartMs.toNat
  done : z.env.restartMs.toNat ≤ s.nowMs + z.elapsedMs

instance (s : TimedClient Addr) (z : TimedEnv Addr) : Decidable (s.ReadsInOrder z) :=
  decidable_of_iff (s.nowMs ≤ z.env.fillMs.toNat ∧ z.env.fillMs.toNat ≤ z.env.nowMs.toNat ∧
      z.env.nowMs.toNat ≤ z.env.restartMs.toNat ∧
      z.env.restartMs.toNat ≤ s.nowMs + z.elapsedMs)
    ⟨fun h => ⟨h.1, h.2.1, h.2.2.1, h.2.2.2⟩, fun h => ⟨h.fill, h.now, h.restart, h.done⟩⟩

/-- The timer runs, and the interval will not be over for long when the process wakes up. -/
structure Served (delayMs : Nat) (s : TimedClient Addr) (x : Transfer) : Prop where
  runs : 0 < x.gbn.windowTimerMs.toNat
  past : x.gbn.windowTimerMs.toNat ≤ s.nowMs
  soon : s.nowMs + s.client.pc.waitMs ≤ x.gbn.windowTimerMs.toNat + retransmitIntervalMs +
    if s.client.pc = .transfer then 2 * delayMs else delayMs

/-- The activation sends the packet with the number `seq`, or the window did not begin with it
before. -/
def Renews (config : AppConfig) (s : TimedClient Addr) (z : TimedEnv Addr) (seq : UInt32) : Prop :=
  SendsNumber s.client.connection seq (s.step config z).2 ∨
    ∃ x, s.client.xfer = some x ∧ x.gbn.base ≠ seq

/-- In the transfer loop with packets outstanding. -/
structure Awaits (s : TimedClient Addr) (x : Transfer) : Prop where
  state : s.client.state = .established
  xfer : s.client.xfer = some x
  outstanding : x.Outstanding

/-- The same window as before with the same timer. -/
structure Same (s : TimedClient Addr) (x y : Transfer) : Prop where
  awaits : s.Awaits x
  timer : y.gbn.windowTimerMs = x.gbn.windowTimerMs
  base : y.gbn.base = x.gbn.base

theorem Clocked.round (h : Clocked input s) (hz : s.Punctual delayMs z) (hr : s.ReadsInOrder z)
    (hserved : ∀ x, s.Awaits x → s.Served delayMs x) {acks : Nat} {sent : List Chunk}
    (hs : s.client.state = .established) (hpc : s.client.pc = .transfer)
    (hx : s.client.xfer = some x) (hp : Paces input acks s.client x.gbn sent)
    (hy : (s.step config z).1.Awaits y) :
    (s.step config z).1.Served delayMs y ∧
      (s.Renews config z y.gbn.base ∨ ∃ x, s.Same x y) := by
  have hnow : (s.step config z).1.nowMs = s.nowMs + z.elapsedMs := rfl
  have hread := h.read
  have hpast := h.past
  obtain ⟨hfillMs, hnowMs, hrestartMs, hdone⟩ := hr
  have helapsed := hz.elapsed
  rw [hpc] at helapsed
  change z.elapsedMs ≤ 0 + delayMs at helapsed
  have hstep : s.client.step config z.env = s.client.transferRound config x z.env :=
    step_transfer hpc hx
  have hfills : (s.client.transferRound config x z.env).1.state ≠ .established ∨ _ :=
    transferRound_filled hp
  rcases hfills with hleft | ⟨c', x', sends, hfilled, hround⟩
  · exact absurd hy.state (by rw [← hstep] at hleft; exact hleft)
  rw [← hstep] at hround
  obtain ⟨s0, sent', hrep⟩ := hfilled.represents
  by_cases hout : x'.Outstanding
  · have hwhy := hfilled.timer hout
    -- the timer runs when the loop comes to it
    have hruns : 0 < x'.gbn.windowTimerMs.toNat ∧
        x'.gbn.windowTimerMs.toNat ≤ z.env.nowMs.toNat := by
      rcases hwhy with ⟨hbefore, hsame, _⟩ | ⟨hstarted, _⟩
      · obtain ⟨hruns, hpast', _⟩ := hserved x ⟨hs, hx, hbefore⟩
        rw [hsame]
        omega
      · rw [hstarted]
        omega
    have hunset : x'.gbn.windowTimerMs ≠ 0 := by
      intro hzero
      have hz0 : (0 : UInt64).toNat = 0 := rfl
      rw [hzero] at hruns
      omega
    rcases transferTimer_turn (c := c') hout hunset (UInt64.le_iff_toNat_le.mpr hruns.2) with
      ⟨ms, hms, hnext⟩ | hnext
    · rw [hnext] at hround
      have hxfer : (s.client.step config z.env).1.xfer = some x' := by rw [hround]
      have hwaits : (s.step config z).1.client.pc = .select ms := by
        change (s.client.step config z.env).1.pc = _
        rw [hround]
      obtain rfl : x' = y := Option.some.inj (hxfer.symm.trans hy.xfer)
      refine ⟨⟨hruns.1, by omega, ?_⟩, ?_⟩
      · rw [hwaits, if_neg (by simp)]
        change s.nowMs + z.elapsedMs + ms ≤ _
        omega
      · rcases hwhy with ⟨hbefore, hsame, hbase⟩ | ⟨_, hsent⟩
        · exact Or.inr ⟨x, ⟨hs, hx, hbefore⟩, hsame, hbase⟩
        · refine Or.inl (Or.inl ?_)
          change SendsNumber _ _ (s.client.step config z.env).2
          rw [hround]
          exact hsent.append_left _
    · rw [hnext] at hround
      have hxfer : (s.client.step config z.env).1.xfer = some
          { x' with gbn := { x'.gbn with windowTimerMs := z.env.restartMs } } := by rw [hround]
      have hturns : (s.step config z).1.client.pc = .transfer := by
        change (s.client.step config z.env).1.pc = _
        rw [hround]
      obtain rfl := Option.some.inj (hxfer.symm.trans hy.xfer)
      refine ⟨⟨?_, ?_, ?_⟩, Or.inl (Or.inl ?_)⟩
      · change 0 < z.env.restartMs.toNat
        omega
      · exact hdone
      · rw [hturns, if_pos rfl]
        change s.nowMs + z.elapsedMs + 0 ≤ z.env.restartMs.toNat + _ + _
        omega
      · change SendsNumber _ _ (s.client.step config z.env).2
        rw [hround]
        exact (gbnRetransmitWindow_sendsBase hrep hout).append_right _
  · rw [Transfer.Outstanding, not_not] at hout
    have hempty : (s.client.step config z.env).1.xfer = some x' := by
      rw [hround, transferTimer, if_pos hout]
    obtain rfl : x' = y := Option.some.inj (hempty.symm.trans hy.xfer)
    exact absurd hout hy.outstanding

theorem Clocked.woken (h : Clocked input s) (hz : s.Punctual delayMs z) (hr : s.ReadsInOrder z)
    (hserved : ∀ x, s.Awaits x → s.Served delayMs x) {acks ms : Nat} {sent : List Chunk}
    (hs : s.client.state = .established) (hpc : s.client.pc = .select ms)
    (hx : s.client.xfer = some x) (hp : Paces input acks s.client x.gbn sent)
    (hy : (s.step config z).1.Awaits y) :
    (s.step config z).1.Served delayMs y ∧
      (s.Renews config z y.gbn.base ∨ ∃ x, s.Same x y) := by
  have hstep : s.client.step config z.env = s.client.transferReady x z.env := by
    rw [step_select hpc, resume_established hs hx]
  have hy' : (s.client.transferReady x z.env).1.state = .established ∧
      (s.client.transferReady x z.env).1.xfer = some y := by
    rw [← hstep]
    exact ⟨hy.state, hy.xfer⟩
  obtain ⟨hturns, htimer⟩ := transferReady_timer hp hx (receives_transfer hpc hs hx z.env) hy'.1
    hy'.2 hy.outstanding
  rw [← hstep] at hturns htimer
  have hnow : (s.step config z).1.nowMs = s.nowMs + z.elapsedMs := rfl
  have hpc' : (s.step config z).1.client.pc = .transfer := hturns
  have hwait := h.wait (by rw [hs]; decide)
  have helapsed := hz.elapsed
  rw [hpc] at hwait helapsed
  change ms ≤ retransmitIntervalMs at hwait
  change z.elapsedMs ≤ ms + delayMs at helapsed
  have hsoon (t : Nat) (hle : s.nowMs + z.elapsedMs ≤ t + retransmitIntervalMs + 2 * delayMs) :
      (s.step config z).1.nowMs + (s.step config z).1.client.pc.waitMs ≤
        t + retransmitIntervalMs +
          if (s.step config z).1.client.pc = .transfer then 2 * delayMs else delayMs := by
    rw [hpc', if_pos rfl]
    exact hle
  rcases htimer with ⟨hout, hsame, hbase⟩ | ⟨hrestart, hwhy⟩
  · have hawaits : s.Awaits x := ⟨hs, hx, hout⟩
    obtain ⟨hruns, hpast, hserve⟩ := hserved x hawaits
    rw [hpc, if_neg (by simp)] at hserve
    change s.nowMs + ms ≤ _ at hserve
    refine ⟨⟨by rw [hsame]; exact hruns, by rw [hsame]; omega, hsoon _ ?_⟩,
      Or.inr ⟨x, hawaits, hsame, hbase⟩⟩
    rw [hsame]
    omega
  · have hread := h.read
    have hpast := h.past
    have hfill := hr.fill
    have hnowMs := hr.now
    have hrestarted := hr.restart
    have hdone := hr.done
    refine ⟨⟨by rw [hrestart]; omega, by rw [hrestart]; omega, hsoon _ ?_⟩, Or.inl ?_⟩
    · rw [hrestart]
      omega
    · exact hwhy.imp id (fun hmoved => ⟨x, hx, hmoved⟩)

theorem Clocked.serves (h : Clocked input s) (hz : s.Punctual delayMs z) (hr : s.ReadsInOrder z)
    (hserved : ∀ x, s.Awaits x → s.Served delayMs x) (hy : (s.step config z).1.Awaits y) :
    (s.step config z).1.Served delayMs y ∧
      (s.Renews config z y.gbn.base ∨ ∃ x, s.Same x y) := by
  obtain ⟨acks, hp⟩ := h.paced
  have hrank : s.client.state.rank ≤ (s.step config z).1.client.state.rank := h.rank_le
  rw [hy.state] at hrank
  cases hp with
  | opening _ hpc hentered hnone _ _ =>
    by_cases hs : s.client.state = .established
    · have hfsm := hentered hs
      have hxfer : (s.client.step config z.env).1.xfer = some y := hy.xfer
      have hstate : (s.client.step config z.env).1.state = .established := hy.state
      rw [step_fsm hfsm, runClient_established hs, handleEstablished] at hxfer hstate
      split_ifs at hxfer hstate
      · exact absurd hstate (by simp [Client.fail])
      · exact absurd hstate (by simp [Client.fail])
      · obtain rfl := Option.some.inj hxfer
        exact absurd rfl hy.outstanding
    · have hn : s.client.Onward (s.client.step config z.env) := step_onward hs hpc
      have hxfer : (s.client.step config z.env).1.xfer = some y := hy.xfer
      rw [hn.xfer, hnone] at hxfer
      exact absurd hxfer (by simp)
  | behind hlate _ _ _ => exact absurd (hlate.trans hrank) (by decide)
  | running hs hpc x sent hx hp =>
    rcases hpc with hpc | ⟨ms, hpc⟩
    · exact h.round hz hr hserved hs hpc hx hp hy
    · exact h.woken hz hr hserved hs hpc hx hp hy

/-- The timer tells when the window was renewed. -/
def RenewedSince (config : AppConfig) (s₀ : TimedClient Addr) (zs : List (TimedEnv Addr))
    (x : Transfer) : Prop :=
  ∃ pre z post, zs = pre ++ z :: post ∧
    (after (step config) s₀ pre).Renews config z x.gbn.base ∧
    x.gbn.windowTimerMs.toNat ≤ (after (step config) s₀ (pre ++ [z])).nowMs

theorem served_after (config : AppConfig) {s₀ : TimedClient Addr} (h : Clocked input s₀)
    (hs₀ : ∀ x, ¬ s₀.Awaits x) (zs : List (TimedEnv Addr))
    (hz : Always (step config) (Punctual delayMs) s₀ zs)
    (hr : Always (step config) ReadsInOrder s₀ zs) :
    Clocked input (after (step config) s₀ zs) ∧
    ∀ x, (after (step config) s₀ zs).Awaits x →
      (after (step config) s₀ zs).Served delayMs x ∧ RenewedSince config s₀ zs x := by
  induction zs using List.reverseRecOn with
  | nil => exact ⟨h, fun x hx => absurd hx (hs₀ x)⟩
  | append_singleton zs z ih =>
    rw [always_snoc] at hz hr
    obtain ⟨hclocked, hserved⟩ := ih hz.1 hr.1
    rw [after_snoc]
    refine ⟨hclocked.next hz.2, ?_⟩
    intro y hy
    obtain ⟨hnext, hwhy⟩ := hclocked.serves hz.2 hr.2 (fun x hx => (hserved x hx).1) hy
    refine ⟨hnext, ?_⟩
    rcases hwhy with hrenews | ⟨x, hawaits, htimer, hbase⟩
    · refine ⟨zs, z, [], rfl, hrenews, ?_⟩
      rw [after_snoc]
      exact hnext.past
    · obtain ⟨pre, d, post, hzs, hrenews, hle⟩ := (hserved x hawaits).2
      refine ⟨pre, d, post ++ [z], ?_, ?_, ?_⟩
      · rw [hzs]
        simp
      · rw [hbase]
        exact hrenews
      · rw [htimer]
        exact hle

/-- Whenever packets are outstanding in the transfer, the oldest of them has been sent, or has
become the oldest, no longer ago than the interval and the delays of two waits. -/
theorem window_renewed_in_time (config : AppConfig) (serverAddr : Addr) (startMs : UInt64)
    (input : InputFile) (delayMs : Nat) (zs : List (TimedEnv Addr)) (x : Transfer)
    (hstart : 0 < startMs.toNat)
    (hz : Always (step config) (Punctual delayMs) (start serverAddr startMs input) zs)
    (hr : Always (step config) ReadsInOrder (start serverAddr startMs input) zs)
    (hx : (after (step config) (start serverAddr startMs input) zs).Awaits x) :
    ∃ pre z post, zs = pre ++ z :: post ∧
      (after (step config) (start serverAddr startMs input) pre).Renews config z x.gbn.base ∧
      (after (step config) (start serverAddr startMs input) zs).nowMs ≤
        (after (step config) (start serverAddr startMs input) (pre ++ [z])).nowMs +
          (retransmitIntervalMs + 2 * delayMs) := by
  have hinit : ∀ x, ¬ (start serverAddr startMs input).Awaits x :=
    fun x hx => absurd hx.xfer (by simp [start, Client.init])
  obtain ⟨hserved, pre, z, post, hzs, hrenews, hle⟩ :=
    (served_after config (.start serverAddr hstart input) hinit zs hz hr).2 x hx
  refine ⟨pre, z, post, hzs, hrenews, ?_⟩
  have hsoon := hserved.soon
  split_ifs at hsoon <;> omega

/-- The only chunk is sent after 200 ms, the interval runs out, and a datagram of an unknown peer
ends the next wait. -/
def lostChunk : List (TimedEnv Nat) :=
  [⟨.calm Nat 1000, 0⟩, ⟨.calm Nat 1000, 0⟩,
    ⟨.arrival 1 (encode 7 1 42 (flagSyn ||| flagAck) []) 1200, 200⟩, ⟨.calm Nat 1200, 0⟩,
    ⟨.calm Nat 1200, 0⟩, ⟨.calm Nat 1450, 250⟩, ⟨.calm Nat 1450, 0⟩, ⟨.calm Nat 1450, 0⟩,
    ⟨.arrival 9 [] 1550, 100⟩]

/-- The retransmission is found, as the first sending is 350 ms ago. -/
theorem window_renewed_in_time_lost :
    ∃ pre z post, lostChunk = pre ++ z :: post ∧
      (after (step strayConfig) (start 1 1000 oneChunk) pre).Renews strayConfig z 1 ∧
      1550 ≤ (after (step strayConfig) (start 1 1000 oneChunk) (pre ++ [z])).nowMs +
        (retransmitIntervalMs + 2 * 0) := by
  have hwindow : (after (step strayConfig) (start 1 1000 oneChunk) lostChunk).client.xfer.map
      (fun x => (x.gbn.base, x.gbn.nextseqnum)) = some (1, 2) := by decide +kernel
  obtain ⟨x, hx, hout⟩ := Option.map_eq_some_iff.mp hwindow
  obtain ⟨hbase, hnext⟩ := Prod.mk.inj hout
  have hawaits : (after (step strayConfig) (start 1 1000 oneChunk) lostChunk).Awaits x :=
    ⟨by decide +kernel, hx, by rw [Transfer.Outstanding, hbase, hnext]; decide⟩
  obtain ⟨pre, z, post, hzs, hrenews, hsoon⟩ :=
    window_renewed_in_time strayConfig 1 1000 oneChunk 0 lostChunk x (by decide)
      (by decide +kernel) (by decide +kernel) hawaits
  exact ⟨pre, z, post, hzs, hbase ▸ hrenews, hsoon⟩

end TimedClient

end ReliableUdp
