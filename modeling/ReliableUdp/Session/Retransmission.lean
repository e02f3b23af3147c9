import ReliableUdp.Session.FairRun

namespace ReliableUdp

variable {Addr : Type} {config : AppConfig} {e : Env Addr}

section Client

variable {L : Link} {S : Session L.size} {c : Client Addr} {x y : Transfer}

/-- A round leaves the loop, or it waits or sends with its window as it is. -/
theorem Client.transferWait_window (c : Client Addr) (y : Transfer) (e : Env Addr) :
    (c.transferWait y e).1.state = .finWait ∨ ∃ z, (c.transferWait y e).1.xfer = some z ∧
      z.gbn.base = y.gbn.base ∧ z.gbn.nextseqnum = y.gbn.nextseqnum := by
  rw [transferWait]
  split_ifs
  · exact Or.inl rfl
  · right
    cases c.transferTimer_move y e with
    | empty hnext =>
      rw [hnext]
      exact ⟨y, rfl, rfl, rfl⟩
    | resends timer hnext =>
      obtain ⟨t, ht⟩ := gbnRetransmitWindow_state e c.serverAddr
        { y.gbn with windowTimerMs := timer }
      rw [hnext]
      exact ⟨_, rfl, by simp only [ht], by simp only [ht]⟩
    | waits timer ms hnext =>
      rw [hnext]
      exact ⟨_, rfl, rfl, rfl⟩

/-- The oldest unacknowledged chunk is among the packets sent. -/
def SendsOldest (L : Link) (S : Session L.size) (sends : List (Send Addr)) : Prop :=
  ∃ chunk, L.chunks[S.acked]? = some chunk ∧
    ∃ o ∈ sends, o.data = (L.data S.acked chunk).bytes ∧ o.sent = true

theorem Sending.timed {file : InputFile} (h : Sending L S x file) (ms : UInt64) :
    Sending L S (x.timed ms) file :=
  ⟨h.represents.timer ms, h.acked, h.reading, h.ended⟩

theorem Sending.sendsOldest {t : UInt64} {file : InputFile} (h : Sending L S x file)
    (hbusy : x.Busy) (he : e.Smooth config t) (addr : Addr) :
    SendsOldest L S (gbnRetransmitWindow e addr x.gbn).2 := by
  obtain ⟨chunk, hchunk, o, ho, _, hdata, hsent⟩ := h.resends hbusy e addr
  exact ⟨chunk, hchunk, o, ho, hdata, hsent.trans (he.sendto _)⟩

/-- The time from which a round counts the retransmission interval. -/
def Transfer.startedMs (x : Transfer) (e : Env Addr) : UInt64 :=
  if x.gbn.windowTimerMs = 0 then e.nowMs else x.gbn.windowTimerMs

/-- A round with packets outstanding sends the window when the interval is over, and waits when it
is not. -/
theorem Sending.watches (h : Sending L S x c.file) (ht : InTransfer L S c)
    (hread : ∃ file, ReadToEnd L.input file) (hroom : L.Roomy)
    (he : e.Smooth config c.lastProgressMs) (hpc : c.pc = .transfer) (hx : c.xfer = some x)
    (hbusy : x.Busy) :
    UInt64.ofNat retransmitIntervalMs ≤ e.nowMs - x.startedMs e ∧
      SendsOldest L S (c.step config e).2 ∨
    ¬ UInt64.ofNat retransmitIntervalMs ≤ e.nowMs - x.startedMs e ∧
      ∃ z ms, (c.step config e).1.xfer = some z ∧ (c.step config e).1.pc = .select ms ∧
        z.gbn.windowTimerMs = x.startedMs e := by
  obtain ⟨y, file, sends, hround, hstep⟩ := h.round ht hread hroom he hpc hx
  have hkeep : y.gbn.windowTimerMs = x.gbn.windowTimerMs :=
    hround.timer.resolve_right (fun hnew => hbusy hnew.1)
  have hbusy' : y.Busy := by
    intro heq
    have hnext := hround.next
    have hupper := h.represents.upper
    rw [← heq, hround.base] at hnext
    exact hbusy (UInt32.toNat_inj.mp (by omega))
  obtain ⟨T, hT⟩ := hround.sending
  have hacked : T.acked = S.acked := by
    have h1 := hT.acked
    have h2 := h.acked
    rw [hround.base] at h1
    omega
  rw [hstep, Client.transferWait, if_neg (fun hdone => hbusy' hdone.2), Client.transferTimer,
    if_neg hbusy', hkeep, ← Transfer.startedMs]
  generalize x.startedMs e = timer
  by_cases hover : e.nowMs - timer ≥ UInt64.ofNat retransmitIntervalMs
  · left
    obtain ⟨chunk, hchunk, o, ho, hsent⟩ := (hT.timed timer).sendsOldest hbusy' he c.serverAddr
    rw [hacked] at hchunk hsent
    simp only [if_pos hover]
    exact ⟨hover, chunk, hchunk, o, List.mem_append_right _ ho, hsent⟩
  · right
    simp only [if_neg hover]
    exact ⟨hover, _, _, rfl, rfl, rfl⟩

/-- A wait of the transfer loop leaves the timer as it is unless it sends the window again or moves
it. -/
theorem Sending.keepsTimer (h : Sending L S x c.file) (hs : c.state = .established)
    (he : e.Smooth config c.lastProgressMs) {ms : Nat} (hpc : c.pc = .select ms)
    (hx : c.xfer = some x) (hbusy : x.Busy) :
    SendsOldest L S (c.step config e).2 ∨
    ∃ z, (c.step config e).1.xfer = some z ∧
      (z.gbn.windowTimerMs = x.gbn.windowTimerMs ∨ z.gbn.base ≠ x.gbn.base) := by
  rw [Client.step_select hpc, Client.resume_established hs hx]
  cases Client.transferReady_move (x := x) (Client.receives_transfer hpc hs hx e) with
  | idle _ hnext =>
    right
    rcases hnext with hnext | ⟨addr, hnext⟩
    · rw [hnext]
      exact ⟨x, hx, Or.inl rfl⟩
    · rw [hnext]
      exact ⟨x, hx, Or.inl rfl⟩
  | ack addr hd _ _ hnext =>
    rw [hnext, Client.transferAck]
    by_cases hin : x.gbn.base < hd.ackNum ∧ hd.ackNum ≤ x.gbn.nextseqnum
    · right
      obtain ⟨hnew, hbase, _⟩ := gbnProcessAck_inside h.represents hd.ackNum hin.1 hin.2
      simp only [if_pos hnew]
      refine ⟨_, rfl, Or.inr ?_⟩
      dsimp only
      rw [hbase]
      intro heq
      rw [heq] at hin
      exact absurd hin.1 (UInt32.lt_irrefl _)
    · simp only [gbnProcessAck_outside hd.ackNum hin, Bool.false_eq_true, if_false]
      by_cases hdup : hd.ackNum = x.lastAck
      · simp only [if_pos hdup]
        by_cases hthree : x.dupAckCount + 1 = 3
        · simp only [if_pos hthree]
          exact Or.inl (h.sendsOldest hbusy he addr)
        · simp only [if_neg hthree]
          exact Or.inr ⟨_, rfl, Or.inl rfl⟩
      · simp only [if_neg hdup]
        exact Or.inr ⟨_, rfl, Or.inl rfl⟩

theorem Sending.busy_iff {file : InputFile} (h : Sending L S x file) :
    x.Busy ↔ S.acked < S.sent := by
  have hacked := h.acked
  have hnext := h.next
  have hle := S.acked_le.trans S.delivered_le
  constructor
  · intro hbusy
    by_contra hge
    exact hbusy (UInt32.toNat_inj.mp (by omega))
  · intro hlt heq
    rw [heq] at hacked
    omega

end Client

/-- The expected packet is counted. -/
theorem Server.step_counts {s : Server Addr} {t : UInt64} (he : e.Smooth config t)
    (hs : s.state = .established) {ms : Nat} (hpc : s.pc = .select ms) (hsel : 0 < e.selectResult)
    {src : Addr} {h : RDTHeader} {payload : List UInt8}
    (hr : recvPacket e s.clientAddr = (src, .ok (h, payload)))
    (hdata : h.flags = flagData ∧ h.connId = s.connection.connId)
    (hnext : h.seqNum = s.connection.ackNum) :
    (s.step config e).1.connection.ackNum = s.connection.ackNum + 1 := by
  have hfin : ¬ (h.flags = flagFin ∧ h.connId = s.connection.connId ∧
      h.seqNum = s.connection.ackNum) := by
    intro htaken
    rw [hdata.1] at htaken
    exact absurd htaken.1 (by decide)
  have hwritten : written e payload = payload.length := by rw [written, he.fwrite]
  rw [step_select hpc, resume_established hs, establishedReady, ready_smooth he hsel hr,
    establishedPacket, if_neg hfin, if_pos hdata, dataPacket, if_pos hnext]
  simp only [hwritten, ne_eq, not_true_eq_false, if_false, reply_smooth he]
  rfl

end ReliableUdp
