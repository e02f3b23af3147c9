import ReliableUdp.Endpoint.StopSignal
import ReliableUdp.Framework.Accounting
import ReliableUdp.Protocol.Codec
import ReliableUdp.Session.Schedule

namespace ReliableUdp

open Machine

variable {Addr : Type}

/-- The bytes handed to `sendto` for `addr`. -/
def bytesTo [DecidableEq Addr] (addr : Addr) (sends : List (Send Addr)) : Nat :=
  (sends.map (fun o => if o.dst = addr then o.data.length else 0)).sum

theorem bytesTo_one [DecidableEq Addr] (addr : Addr) (o : Send Addr) :
    bytesTo addr [o] = if o.dst = addr then o.data.length else 0 := List.sum_singleton

namespace Server

/-- The datagram that an activation takes from the socket, if `parse_packet` accepts it. -/
def accepted (s : Server Addr) (e : Env Addr) : Option (Addr × List UInt8) :=
  if s.receives e then
    e.recvfrom.filter (fun d => (parsePacket (d.2.take maxPacketSize)).toOption.isSome)
  else none

/-- The bytes of the packets that come from `addr`. -/
def bytesFrom [DecidableEq Addr] (addr : Addr) (s : Server Addr) (e : Env Addr) : Nat :=
  (s.accepted e).elim 0 (fun d => if d.1 = addr then d.2.length else 0)

/-- `handle_last_ack` has waited in vain for a packet of `addr`. -/
def Retries (addr : Addr) (s : Server Addr) (e : Env Addr) : Prop :=
  s.state = .lastAck ∧ s.pc.isSelect = true ∧ e.selectResult = 0 ∧ s.clientAddr = addr

instance [DecidableEq Addr] (addr : Addr) (s : Server Addr) (e : Env Addr) :
    Decidable (s.Retries addr e) :=
  inferInstanceAs (Decidable (_ ∧ _ ∧ _ ∧ _))

/-- At most one packet is sent, which has no payload. -/
def Brief (next : Server Addr × List (Send Addr)) : Prop :=
  next.2 = [] ∨ ∃ o, next.2 = [o] ∧ o.data.length = headerSize

section Brief

variable {config : AppConfig} {s : Server Addr} {e : Env Addr}

theorem Brief.quiet {next : Server Addr} : Brief (next, []) := Or.inl rfl

theorem control_length (flags : UInt8) : (s.control e flags).data.length = headerSize := rfl

theorem Brief.reply {flags : UInt8} {next : Server Addr} : Brief (s.reply e flags next) := by
  rw [Server.reply]
  right
  refine ⟨s.control e flags, ?_, control_length flags⟩
  split_ifs <;> rfl

theorem listenPacket_brief (h : RDTHeader) : Brief (s.listenPacket e h) := by
  rw [listenPacket]
  split_ifs
  · exact .reply
  · exact .quiet

theorem handshakePacket_brief (h : RDTHeader) : Brief (s.handshakePacket e h) := by
  rw [handshakePacket]
  split_ifs
  · exact .reply
  · exact .quiet
  · exact .quiet
  · exact .quiet

theorem establishedPacket_brief (h : RDTHeader) (payload : List UInt8) :
    Brief (s.establishedPacket e h payload) := by
  rw [establishedPacket, dataPacket]
  dsimp only
  split_ifs
  · exact .reply
  · exact .quiet
  · exact .reply
  · exact .reply
  · exact .reply
  · exact .quiet

theorem lastAckPacket_brief (h : RDTHeader) : Brief (s.lastAckPacket e h) := by
  rw [lastAckPacket]
  split_ifs
  · exact .reply
  · exact .quiet
  · exact .quiet

end Brief

/-- What an activation sends, and why. -/
inductive Reflects (s : Server Addr) (e : Env Addr) (sends : List (Send Addr)) : Prop where
  | silent (h : sends = [])
  | answers (o : Send Addr) (h : sends = [o]) (length : o.data.length = headerSize)
      (src : Addr) (datagram : List UInt8) (taken : s.accepted e = some (src, datagram))
      (long : headerSize ≤ datagram.length)
  | repeats (o : Send Addr) (h : sends = [o]) (length : o.data.length = headerSize)
      (wait : s.Retries s.clientAddr e)

section Reflects

variable {config : AppConfig} {s : Server Addr} {e : Env Addr}

theorem Reflects.receive (hr : s.receives e = true)
    {handle : Server Addr → RDTHeader → List UInt8 → Server Addr × List (Send Addr)}
    (hh : ∀ s h p, Brief (handle s h p)) : s.Reflects e (s.receive e handle).2 := by
  rw [Server.receive]
  cases hrecv : (recvPacket e s.clientAddr).2 with
  | error code => exact .silent rfl
  | ok received =>
    dsimp only
    rcases hh { s with clientAddr := (recvPacket e s.clientAddr).1 } received.1 received.2 with
      hnil | ⟨o, ho, hlen⟩
    · exact .silent hnil
    · cases hd : e.recvfrom with
      | none => rw [recvPacket, hd] at hrecv; exact absurd hrecv (by simp)
      | some d =>
        rw [recvPacket, hd] at hrecv
        change parsePacket (d.2.take maxPacketSize) = .ok received at hrecv
        have hlong : headerSize ≤ d.2.length := by
          have hheader := (parsePacket_accepts.mp hrecv).header
          rw [List.length_take] at hheader
          exact hheader.trans (Nat.min_le_right _ _)
        refine .answers o ho hlen d.1 d.2 ?_ hlong
        rw [accepted, if_pos hr, hd]
        simp [Option.filter, hrecv, Except.toOption]

theorem Reflects.ready {ms : Nat} (hp : s.pc = .select ms) (hs : s.state ≠ .done)
    {handle : Server Addr → RDTHeader → List UInt8 → Server Addr × List (Send Addr)}
    (hh : ∀ s h p, Brief (handle s h p)) : s.Reflects e (s.ready config e handle).2 := by
  rw [Server.ready]
  split_ifs with h0 hexp hneg
  · exact .silent rfl
  · exact .silent rfl
  · exact .silent rfl
  · have hr : s.receives e = true := by
      simp only [receives, hp, pos_of_waitForPacket h0 hneg, decide_true]
    exact .receive hr hh

theorem Reflects.lastAckReady {ms : Nat} (hp : s.pc = .select ms) (hs : s.state = .lastAck) :
    s.Reflects e (s.lastAckReady config e).2 := by
  rw [Server.lastAckReady]
  by_cases h0 : waitForPacket e.selectResult = 0
  · rw [if_pos h0]
    rw [waitForPacket_eq_zero] at h0
    have hwait : s.Retries s.clientAddr e := ⟨hs, by rw [hp]; rfl, h0, rfl⟩
    dsimp only
    split_ifs
    · exact .silent rfl
    · exact .repeats _ rfl (control_length _) hwait
    · exact .repeats _ rfl (control_length _) hwait
  · rw [if_neg h0]
    split_ifs with hneg
    · exact .silent rfl
    · exact .silent rfl
    · have hr : s.receives e = true := by
        simp only [receives, hp, hs, pos_of_waitForPacket h0 hneg, decide_true]
      exact .receive hr (fun _ h _ => lastAckPacket_brief h)

/-- Every activation. -/
theorem step_reflects (config : AppConfig) (s : Server Addr) (e : Env Addr) :
    s.Reflects e (s.step config e).2 := by
  cases hp : s.pc with
  | fsm =>
    rw [step_fsm hp]
    by_cases hs : s.state = .done
    · rw [runServer_done hs]
      exact .silent rfl
    · rw [runServer_running hs, enter]
      split_ifs <;> exact .silent rfl
  | returned code =>
    rw [step_returned hp]
    exact .silent rfl
  | select ms =>
    rw [step_select hp]
    cases hs : s.state with
    | listen =>
      rw [resume_listen hs]
      exact .ready hp (by rw [hs]; decide) (fun _ h _ => listenPacket_brief h)
    | handshake =>
      rw [resume_handshake hs]
      exact .ready hp (by rw [hs]; decide) (fun _ h _ => handshakePacket_brief h)
    | established =>
      rw [resume_established hs]
      exact .ready hp (by rw [hs]; decide) (fun _ h p => establishedPacket_brief h p)
    | lastAck =>
      rw [resume_lastAck hs]
      exact .lastAckReady hp hs
    | done =>
      simp only [resume, hs]
      exact .silent rfl

/-- An activation sends no more to an address than it takes from it, a repeated FIN+ACK apart. -/
theorem step_bytesTo [DecidableEq Addr] (config : AppConfig) (addr : Addr) (s : Server Addr)
    (e : Env Addr) : bytesTo addr (s.step config e).2 ≤
      s.bytesFrom addr e + headerSize * if s.Retries addr e then 1 else 0 := by
  have hdst : ∀ o ∈ (s.step config e).2, o.dst = (s.hears e).getD s.clientAddr :=
    step_goesTo.2
  cases step_reflects config s e with
  | silent h =>
    rw [h]
    exact Nat.zero_le _
  | answers o h hlen src datagram htaken hlong =>
    have hreceived : s.receives e = true ∧ e.recvfrom = some (src, datagram) := by
      rw [accepted] at htaken
      split_ifs at htaken with hr
      exact ⟨hr, (Option.filter_eq_some_iff.mp htaken).1⟩
    have ho : o.dst = src := by
      rw [hdst o (by rw [h]; exact List.mem_singleton_self o), hears, if_pos hreceived.1,
        hreceived.2]
      rfl
    rw [h, bytesTo_one, ho, bytesFrom, htaken]
    simp only [Option.elim_some]
    split_ifs <;> omega
  | repeats o h hlen hwait =>
    have ho : o.dst = s.clientAddr := by
      have hr : s.receives e = false := by
        rw [receives]
        split
        · rfl
        · exact decide_eq_false (by rw [hwait.2.2.1]; decide)
        · rfl
      rw [hdst o (by rw [h]; exact List.mem_singleton_self o), hears, if_neg (by simp [hr])]
      rfl
    rw [h, bytesTo_one, ho]
    by_cases haddr : s.clientAddr = addr
    · rw [if_pos haddr, if_pos ⟨hwait.1, hwait.2.1, hwait.2.2.1, haddr⟩, hlen]
      omega
    · rw [if_neg haddr]
      exact Nat.zero_le _

end Reflects

end Server

/-- The server cannot be used to flood a third party: over a whole run it sends an address no more
bytes than have come from there in well-formed packets, apart from one FIN+ACK for each wait of
`handle_last_ack` that has passed in vain. -/
theorem server_reflects [DecidableEq Addr] (config : AppConfig) (s₀ : Server Addr) (addr : Addr)
    (es : List (Env Addr)) :
    bytesTo addr (outputs (Server.step config) s₀ es) ≤
      total (Server.step config) (Server.bytesFrom addr) s₀ es +
        headerSize * count (Server.Retries addr) (Server.step config) s₀ es := by
  rw [bytesTo, sum_outputs, count_eq_total, ← total_mul, ← total_add]
  exact total_mono (fun s e => Server.step_bytesTo config addr s e) s₀ es

/-- The receiver sees a DATA packet. -/
def IsDataPacket (o : Send Addr) : Bool :=
  (parsePacket o.data).toOption.any (fun r => r.1.flags = flagData)

/-- How many of the packets are DATA packets. -/
def dataPackets (sends : List (Send Addr)) : Nat := sends.countP IsDataPacket

theorem dataPackets_append (xs ys : List (Send Addr)) :
    dataPackets (xs ++ ys) = dataPackets xs + dataPackets ys := List.countP_append

theorem dataPackets_le (sends : List (Send Addr)) : dataPackets sends ≤ sends.length :=
  List.countP_le_length

/-- No DATA packets. -/
def NoData (sends : List (Send Addr)) : Prop := Emits (fun flags _ => flags ≠ flagData) sends

theorem NoData.count {sends : List (Send Addr)} (h : NoData sends) : dataPackets sends = 0 := by
  rw [dataPackets, List.countP_eq_zero]
  intro o ho
  rw [IsDataPacket]
  cases hp : parsePacket o.data with
  | error code => simp [Except.toOption]
  | ok r => simpa [Except.toOption] using h.parsed ho hp

theorem NoData.control {c : Client Addr} {e : Env Addr} {flags : UInt8} (h : flags ≠ flagData) :
    NoData [c.control e flags] :=
  .one rfl h

theorem length_dataSends (e : Env Addr) (addr : Addr) (connection : ConnectionState) (seq : Nat)
    (chunks : List Chunk) : (dataSends e addr connection seq chunks).length = chunks.length := by
  induction chunks generalizing seq with
  | nil => rfl
  | cons chunk chunks ih => rw [dataSends, List.length_cons, List.length_cons, ih]

/-- A retransmission sends at most the window. -/
theorem gbnRetransmitWindow_length {state : GBNSenderState} {connection : ConnectionState}
    {s0 : Nat} {sent : List Chunk} (e : Env Addr) (addr : Addr)
    (h : state.Represents s0 connection sent) :
    (gbnRetransmitWindow e addr state).2.length ≤ windowSize := by
  have hnext := h.next
  have hlower := h.lower
  have hfits := h.fits
  rw [gbnRetransmitWindow_sends e addr h, length_dataSends, List.length_drop]
  omega

/-- The fill sends what it reads. -/
theorem fillLoop_length (e : Env Addr) (addr : Addr) (connection : ConnectionState) (n : Nat)
    (state : GBNSenderState) (file : InputFile) :
    (fillLoop e addr connection n state file).sends.length +
      (chunksOf (fillLoop e addr connection n state file).file).length =
        (chunksOf file).length := by
  induction n generalizing state file with
  | zero => exact Nat.zero_add _
  | succ n ih =>
    rw [fillLoop]
    cases file with
    | nil => rfl
    | cons outcome rest =>
      cases outcome with
      | eof => exact Nat.zero_add _
      | error => exact Nat.zero_add _
      | bytes chunk =>
        have hrest := ih (advance (fillSlot e connection state chunk)) rest
        simp only [readChunk, List.length_cons, chunksOf, List.filterMap_cons] at hrest ⊢
        omega

namespace Client

/-- The round of the transfer loop ends with `continue`: the window timer has run out. -/
def Resends (config : AppConfig) (c : Client Addr) (e : Env Addr) : Prop :=
  c.pc = .transfer ∧ (c.step config e).1.pc = .transfer

instance (config : AppConfig) (c : Client Addr) (e : Env Addr) : Decidable (c.Resends config e) :=
  inferInstanceAs (Decidable (_ ∧ _))

/-- The window as a turn of the transfer loop leaves it behind its fill. -/
def turnWindow (c : Client Addr) (x : Transfer) (e : Env Addr) : Transfer :=
  if x.eofReached = false then
    let filled := gbnFillAndSendWindow e c.serverAddr c.connection x.gbn c.file
    { x with gbn := filled.state, eofReached := decide (filled.result > 0) }
  else x

/-- Packets wait, and their timer has run for the retransmission interval by the clock. -/
def RunOut (x : Transfer) (e : Env Addr) : Prop :=
  x.gbn.base ≠ x.gbn.nextseqnum ∧
    e.nowMs - (if x.gbn.windowTimerMs = 0 then e.nowMs else x.gbn.windowTimerMs) ≥
      UInt64.ofNat retransmitIntervalMs

section Timer

variable {config : AppConfig} {c : Client Addr} {e : Env Addr} {x : Transfer}

theorem transferTimer_pc_iff : (c.transferTimer x e).1.pc = .transfer ↔ RunOut x e := by
  rw [transferTimer, RunOut]
  by_cases hempty : x.gbn.base = x.gbn.nextseqnum
  · simp [hempty]
  · rw [if_neg hempty, and_iff_right hempty]
    generalize (if x.gbn.windowTimerMs = 0 then e.nowMs else x.gbn.windowTimerMs) = timer
    by_cases hlate : e.nowMs - timer ≥ UInt64.ofNat retransmitIntervalMs
    · simp only [hlate, if_true]
    · simp only [hlate, if_false]
      simp

theorem transferTimer_state : (c.transferTimer x e).1.state = c.state := by
  cases c.transferTimer_move x e with
  | empty hnext => rw [hnext]
  | resends timer hnext => rw [hnext]
  | waits timer ms hnext => rw [hnext]

theorem transferWait_resends_iff (hs : c.state = .established) :
    (c.transferWait x e).1.pc = .transfer ↔
      (c.transferWait x e).1.state = .established ∧ RunOut x e := by
  rw [transferWait]
  split_ifs
  · simp [transferDone, goto]
  · rw [transferTimer_pc_iff, transferTimer_state, and_iff_right hs]

/-- A turn resends its window exactly if it stays in the loop and finds the timer run out. -/
theorem resends_iff (hs : c.state = .established) (hpc : c.pc = .transfer)
    (hx : c.xfer = some x) : c.Resends config e ↔
      (c.step config e).1.state = .established ∧ RunOut (c.turnWindow x e) e := by
  rw [Resends, and_iff_right hpc, step_transfer hpc hx, transferRound]
  by_cases hloop : x.eofReached = false ∨ x.gbn.base < x.gbn.nextseqnum
  · rw [if_neg (not_not.mpr hloop)]
    by_cases hexp : c.expired config e = true
    · rw [if_pos hexp]
      simp [fail]
    · rw [if_neg hexp]
      by_cases heof : x.eofReached = false
      · rw [if_pos heof, turnWindow, if_pos heof]
        dsimp only
        split_ifs
        · simp [fail]
        · exact transferWait_resends_iff hs
      · rw [if_neg heof, turnWindow, if_neg heof]
        exact transferWait_resends_iff hs
  · rw [if_pos hloop]
    simp [transferDone, goto]

end Timer

/-- The transfer loop takes an ACK of its connection. -/
def HearsAck (c : Client Addr) (e : Env Addr) : Prop :=
  c.state = .established ∧ ((c.taken e).any (fun h => c.IsAck h)) = true

instance (c : Client Addr) (e : Env Addr) : Decidable (c.HearsAck e) :=
  inferInstanceAs (Decidable (_ ∧ _))

/-- A third of a window is saved up for each of the duplicates counted so far, and a packet for
each chunk that is left. -/
def credit (c : Client Addr) : Nat :=
  10 * c.xfer.elim 0 Transfer.dupAckCount + (chunksOf c.file).length

section NoData

variable {config : AppConfig} {c : Client Addr} {e : Env Addr}

theorem runClient_noData : NoData (c.runClient config e).2 := by
  have hsyn : flagSyn ≠ flagData := by decide
  have hfin : flagFin ≠ flagData := by decide
  cases hs : c.state with
  | done =>
    rw [runClient_done hs]
    exact .nil
  | closed =>
    rw [runClient_closed hs, handleClosed]
    split_ifs
    · exact .nil
    · exact .control hsyn
    · exact .control hsyn
  | synSent =>
    rw [runClient_synSent hs, handleSynSent]
    split_ifs <;> exact .nil
  | established =>
    rw [runClient_established hs, handleEstablished]
    split_ifs <;> exact .nil
  | finWait =>
    rw [runClient_finWait hs, handleFinWait]
    dsimp only
    split_ifs
    · exact .nil
    · exact .nil
    · exact .control hfin
    · exact .control hfin
  | timeWait =>
    rw [runClient_timeWait hs]
    split_ifs <;> exact .nil

theorem receive_noData {handle : Client Addr → RDTHeader → Client Addr × List (Send Addr)}
    (hh : ∀ a h, NoData (handle { c with serverAddr := a } h).2) :
    NoData (c.receive e handle).2 := by
  rw [Client.receive]
  cases (recvPacket e c.serverAddr).2 with
  | error code => exact .nil
  | ok received => exact hh _ _

theorem resume_noData (hs : c.state ≠ .established) : NoData (c.resume config e).2 := by
  have hsyn : flagSyn ≠ flagData := by decide
  have hack : flagAck ≠ flagData := by decide
  cases hst : c.state with
  | established => exact absurd hst hs
  | closed =>
    simp only [resume, hst]
    exact .nil
  | done =>
    simp only [resume, hst]
    exact .nil
  | synSent =>
    rw [resume_synSent hst, synSentReady]
    dsimp only
    split_ifs
    · exact .nil
    · exact .control hsyn
    · exact .control hsyn
    · exact .nil
    · apply receive_noData
      intro a h
      rw [synSentPacket]
      dsimp only
      split_ifs
      · exact .control hack
      · exact .control hack
      · exact .nil
  | finWait =>
    rw [resume_finWait hst, finWaitReady]
    split_ifs
    · exact .nil
    · exact .nil
    · exact .nil
    · apply receive_noData
      intro a h
      rw [finWaitPacket]
      dsimp only
      split_ifs
      · exact .control hack
      · exact .control hack
      · exact .nil
  | timeWait =>
    rw [resume_timeWait hst, timeWaitReady]
    split_ifs
    · exact .nil
    · exact .nil
    · exact .nil
    · apply receive_noData
      intro a h
      rw [timeWaitPacket]
      dsimp only
      split_ifs
      · exact .control hack
      · exact .control hack
      · exact .nil

end NoData

/-- The DATA packets are paid from `budget`, or by a window timer that has run out. -/
def Spends (budget : Nat) (next : Client Addr × List (Send Addr)) : Prop :=
  dataPackets next.2 + next.1.credit ≤
    budget + windowSize * if next.1.pc = .transfer then 1 else 0

section Spends

variable {config : AppConfig} {c : Client Addr} {e : Env Addr} {x : Transfer} {s0 : Nat}
  {sent : List Chunk}

theorem credit_some (hx : c.xfer = some x) :
    c.credit = 10 * x.dupAckCount + (chunksOf c.file).length := by
  rw [credit, hx]
  rfl

theorem Spends.all {budget : Nat} {next : Client Addr} {y : Transfer} {sends : List (Send Addr)}
    (hx : next.xfer = some y) (h : 10 * y.dupAckCount + (chunksOf next.file).length ≤ budget) :
    Spends (sends.length + budget) (next, sends) := by
  have hle := dataPackets_le sends
  rw [Spends, credit_some hx]
  dsimp only
  omega

theorem Spends.quiet {budget : Nat} {next : Client Addr} {y : Transfer} (hx : next.xfer = some y)
    (h : 10 * y.dupAckCount + (chunksOf next.file).length ≤ budget) : Spends budget (next, []) := by
  rw [← Nat.zero_add budget]
  exact .all hx h

theorem transferTimer_spends (h : x.gbn.Represents s0 c.connection sent) :
    Spends (10 * x.dupAckCount + (chunksOf c.file).length) (c.transferTimer x e) := by
  cases c.transferTimer_move x e with
  | empty hnext =>
    rw [hnext]
    exact .quiet rfl (Nat.le_refl _)
  | resends timer hnext =>
    have hlen := (dataPackets_le _).trans (gbnRetransmitWindow_length e c.serverAddr
      (h.timer timer))
    rw [hnext, Spends, credit_some rfl]
    dsimp only
    rw [if_pos rfl]
    omega
  | waits timer ms hnext =>
    rw [hnext]
    exact .quiet rfl (Nat.le_refl _)

theorem transferWait_spends (h : x.gbn.Represents s0 c.connection sent) :
    Spends (10 * x.dupAckCount + (chunksOf c.file).length) (c.transferWait x e) := by
  rw [transferWait]
  split_ifs
  · exact .quiet (y := x) rfl (Nat.le_refl _)
  · exact transferTimer_spends h

theorem Spends.prepend {budget : Nat} {next : Client Addr × List (Send Addr)}
    {sends : List (Send Addr)} (h : Spends budget next) :
    Spends (sends.length + budget) (next.1, sends ++ next.2) := by
  have hle := dataPackets_le sends
  rw [Spends] at h ⊢
  rw [dataPackets_append]
  dsimp only
  omega

theorem transferRound_spends {input : InputFile} {acks : Nat} (h : Paces input acks c x.gbn sent)
    (hx : c.xfer = some x) : Spends c.credit (c.transferRound config x e) := by
  rw [credit_some hx, transferRound]
  by_cases hloop : x.eofReached = false ∨ x.gbn.base < x.gbn.nextseqnum
  · rw [if_neg (not_not.mpr hloop)]
    split_ifs with hexp heof
    · exact .quiet hx (Nat.le_refl _)
    · -- what is read is sent
      have hfill := fillLoop_length e c.serverAddr c.connection
        ((x.gbn.base + UInt32.ofNat windowSize).toNat - x.gbn.nextseqnum.toNat) x.gbn c.file
      rw [← gbnFillAndSendWindow] at hfill
      obtain ⟨chunks, hpaces, _⟩ := h.fill e c.serverAddr
      have hbudget : 10 * x.dupAckCount + (chunksOf c.file).length =
          (gbnFillAndSendWindow e c.serverAddr c.connection x.gbn c.file).sends.length +
            (10 * x.dupAckCount + (chunksOf
              (gbnFillAndSendWindow e c.serverAddr c.connection x.gbn c.file).file).length) := by
        omega
      rw [hbudget]
      by_cases hneg : (gbnFillAndSendWindow e c.serverAddr c.connection x.gbn c.file).result < 0
      · simp only [if_pos hneg]
        exact .all rfl (Nat.le_refl _)
      · simp only [if_neg hneg]
        exact (transferWait_spends (c := { c with file := _ })
          (x := { x with gbn := _, eofReached := _ }) hpaces.represents).prepend
    · exact transferWait_spends h.represents
  · rw [if_pos hloop]
    exact .quiet (y := x) rfl (Nat.le_refl _)

/-- A window is sent again for every third duplicate. -/
theorem transferAck_credit (h : x.gbn.Represents s0 c.connection sent) (ack : UInt32) :
    dataPackets (c.transferAck x e ack).2 + (c.transferAck x e ack).1.credit ≤
      10 + (10 * x.dupAckCount + (chunksOf c.file).length) := by
  have hlen := (dataPackets_le _).trans (gbnRetransmitWindow_length e c.serverAddr
    (gbnProcessAck_represents h ack))
  have hnil : dataPackets ([] : List (Send Addr)) = 0 := rfl
  simp only [windowSize] at hlen
  rw [transferAck]
  by_cases hnew : (gbnProcessAck x.gbn ack).2 = true
  · simp only [if_pos hnew]
    rw [credit_some rfl]
    dsimp only
    omega
  · simp only [if_neg hnew]
    split_ifs
    · rw [credit_some rfl]
      dsimp only
      omega
    · rw [credit_some rfl]
      dsimp only
      omega
    · rw [credit_some rfl]
      dsimp only
      omega

end Spends

variable {config : AppConfig} {c : Client Addr} {e : Env Addr} {input : InputFile} {acks : Nat}

/-- What an activation costs. -/
theorem Paced.spends (h : Paced input acks c) (config : AppConfig) (e : Env Addr) :
    dataPackets (c.step config e).2 + (c.step config e).1.credit ≤
      ((windowSize * if c.Resends config e then 1 else 0) + 10 * if c.HearsAck e then 1 else 0) +
        c.credit := by
  -- outside the transfer loop no DATA packet is sent and nothing is saved up
  have hother (hno : NoData (c.step config e).2)
      (hcredit : (c.step config e).1.credit = c.credit) :
      dataPackets (c.step config e).2 + (c.step config e).1.credit ≤
        ((windowSize * if c.Resends config e then 1 else 0) + 10 * if c.HearsAck e then 1 else 0) +
          c.credit := by
    rw [hno.count, hcredit, Nat.zero_add]
    exact Nat.le_add_left _ _
  have honward (hs : c.state ≠ .established) (hpc : c.pc ≠ .transfer) :
      (c.step config e).1.credit = c.credit ∧ NoData (c.step config e).2 := by
    have hn : c.Onward (c.step config e) := step_onward hs hpc
    constructor
    · rw [credit, credit, hn.xfer, hn.file]
    · cases hp : c.pc with
      | transfer => exact absurd hp hpc
      | fsm =>
        rw [step_fsm hp]
        exact runClient_noData
      | select ms =>
        rw [step_select hp]
        exact resume_noData hs
      | returned code =>
        rw [step_returned hp]
        exact .nil
  cases h with
  | opening hrank hpc hentered hx hf hzero =>
    by_cases hs : c.state = .established
    · have hp := hentered hs
      refine hother ?_ ?_
      · rw [step_fsm hp]
        exact runClient_noData
      · rw [step_fsm hp, runClient_established hs, handleEstablished]
        simp only [credit]
        split_ifs <;> simp [hx, Client.fail]
    · obtain ⟨hcredit, hno⟩ := honward hs hpc
      exact hother hno hcredit
  | behind hrank hpc hord hb =>
    have hs : c.state ≠ .established := by
      intro hs
      rw [hs] at hrank
      exact absurd hrank (by decide)
    obtain ⟨hcredit, hno⟩ := honward hs hpc
    exact hother hno hcredit
  | running hs hpc x sent hx hp =>
    rcases hpc with hpc | ⟨ms, hpc⟩
    · have hspends : Spends c.credit (c.transferRound config x e) := transferRound_spends hp hx
      have hresends : c.Resends config e ↔ (c.transferRound config x e).1.pc = .transfer := by
        rw [Resends, step_transfer hpc hx]
        exact and_iff_right hpc
      rw [Spends] at hspends
      simp only [hresends]
      rw [step_transfer hpc hx]
      omega
    · have hstep : c.step config e = c.transferReady x e := by
        rw [step_select hpc, resume_established hs hx]
      rw [hstep]
      cases transferReady_move (receives_transfer hpc hs hx e) with
      | ack addr hd htaken hack hnext =>
        have hcost := transferAck_credit (c := c.looping addr) (e := e) hp.represents hd.ackNum
        have hhears : c.HearsAck e := by
          refine ⟨hs, ?_⟩
          rw [htaken]
          exact decide_eq_true hack
        rw [hnext, if_pos hhears, credit_some hx]
        exact hcost.trans (by simp only [looping]; omega)
      | idle hnone hnext =>
        rw [hstep] at hother
        rcases hnext with hnext | ⟨addr, hnext⟩
        · rw [hnext] at hother ⊢
          exact hother .nil rfl
        · rw [hnext] at hother ⊢
          exact hother .nil rfl

end Client

/-- What the client puts on the wire is paid for: a DATA packet for each chunk, a window for each
time the window timer has run out, and a window for every third ACK at the most. -/
theorem data_paid (config : AppConfig) (serverAddr : Addr) (startMs : UInt64) (input : InputFile)
    (es : List (Env Addr)) :
    dataPackets (outputs (Client.step config) (Client.init serverAddr startMs input) es) ≤
      (after (Client.step config) (Client.init serverAddr startMs input) es).chunksSent input +
        windowSize * count (Client.Resends config) (Client.step config)
          (Client.init serverAddr startMs input) es +
        10 * count Client.HearsAck (Client.step config) (Client.init serverAddr startMs input)
          es := by
  have hpaced : ∀ (c : Client Addr) e, (∃ acks, Client.Paced input acks c) →
      ∃ acks, Client.Paced input acks (c.step config e).1 :=
    fun c e h => h.elim (fun acks h => ⟨_, h.next config e⟩)
  have hbound := total_le_of_potential (w := fun c e =>
      (windowSize * if Client.Resends config c e then 1 else 0) +
        10 * if Client.HearsAck c e then 1 else 0) Client.credit hpaced
    (fun c e h => h.elim (fun acks h => h.spends config e))
    ⟨0, Client.Paced.init serverAddr startMs input⟩ es
  rw [total_add, total_mul, total_mul, ← count_eq_total, ← count_eq_total] at hbound
  have hstart : (Client.init serverAddr startMs input).credit = (chunksOf input).length :=
    Nat.zero_add _
  rw [dataPackets, countP_outputs, Client.chunksSent]
  rw [hstart, Client.credit] at hbound
  simp only [dataPackets] at hbound
  omega

end ReliableUdp
