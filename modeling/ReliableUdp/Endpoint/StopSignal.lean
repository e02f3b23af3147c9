import ReliableUdp.Endpoint.ExitCode
import ReliableUdp.Endpoint.TransferTurn

namespace ReliableUdp

open Machine

variable {Addr : Type}

/-- Every packet has been built, with flags and a sequence number for which `P` holds. -/
def Emits (P : UInt8 → UInt32 → Prop) (sends : List (Send Addr)) : Prop :=
  ∀ o ∈ sends, ∃ seq ack connId flags payload, payload.length ≤ maxPacketSize - headerSize ∧
    o.data = encode seq ack connId flags payload ∧ P flags seq

section Emits

variable {P : UInt8 → UInt32 → Prop} {sends : List (Send Addr)}

theorem Emits.nil : Emits P ([] : List (Send Addr)) :=
  fun _ ho => absurd ho List.not_mem_nil

theorem Emits.mono {Q : UInt8 → UInt32 → Prop} (h : Emits P sends)
    (hPQ : ∀ flags seq, P flags seq → Q flags seq) : Emits Q sends := by
  intro o ho
  obtain ⟨seq, ack, connId, flags, payload, hlen, hdata, hP⟩ := h o ho
  exact ⟨seq, ack, connId, flags, payload, hlen, hdata, hPQ flags seq hP⟩

theorem Emits.append {more : List (Send Addr)} (h : Emits P sends) (hmore : Emits P more) :
    Emits P (sends ++ more) := by
  intro o ho
  rcases List.mem_append.mp ho with ho | ho
  · exact h o ho
  · exact hmore o ho

theorem Emits.one {o : Send Addr} {seq ack : UInt32} {connId : UInt16} {flags : UInt8}
    (ho : o.data = encode seq ack connId flags []) (h : P flags seq) : Emits P [o] := by
  intro o' ho'
  rw [List.mem_singleton.mp ho']
  exact ⟨seq, ack, connId, flags, [], by decide, ho, h⟩

/-- What the receiver makes of the packets. -/
theorem Emits.parsed (h : Emits P sends) {o : Send Addr} (ho : o ∈ sends) {hd : RDTHeader}
    {payload : List UInt8} (hparse : parsePacket o.data = .ok (hd, payload)) :
    P hd.flags hd.seqNum := by
  obtain ⟨seq, ack, connId, flags, data, hlen, hdata, hP⟩ := h o ho
  obtain ⟨checksum, hbuilt⟩ := parsePacket_encode seq ack connId flags data hlen
  rw [hdata, hbuilt] at hparse
  rw [← (Prod.mk.inj (Except.ok.inj hparse)).1]
  exact hP

theorem dataSends_emits (e : Env Addr) (addr : Addr) (connection : ConnectionState) {seq : Nat}
    {chunks : List Chunk} (h : ∀ i < chunks.length, P flagData (UInt32.ofNat (seq + i))) :
    Emits P (dataSends e addr connection seq chunks) := by
  intro o ho
  obtain ⟨_, i, chunk, hi, hdata⟩ := mem_dataSends ho
  exact ⟨_, _, _, _, chunk.val, chunk.property.2, hdata,
    h i (List.getElem?_eq_some_iff.mp hi).1⟩

end Emits

section Window

variable {connection : ConnectionState} {s0 : Nat} {sent : List Chunk} {state : GBNSenderState}

/-- A retransmission stays below `nextseqnum`. -/
theorem gbnRetransmitWindow_emits (e : Env Addr) (addr : Addr)
    (h : state.Represents s0 connection sent) :
    Emits (fun flags seq => flags = flagData ∧ seq < state.nextseqnum)
      (gbnRetransmitWindow e addr state).2 := by
  rw [gbnRetransmitWindow_sends e addr h]
  apply dataSends_emits
  intro i hi
  have hnext := h.next
  have hlower := h.lower
  have hlt := state.nextseqnum.toNat_lt
  rw [List.length_drop] at hi
  refine ⟨rfl, UInt32.lt_iff_toNat_lt.mpr ?_⟩
  rw [UInt32.toNat_ofNat_of_lt' (by simp only [UInt32.size]; omega)]
  omega

theorem gbnRetransmitWindow_next (e : Env Addr) (addr : Addr) (state : GBNSenderState) :
    (gbnRetransmitWindow e addr state).1.nextseqnum = state.nextseqnum := by
  rw [gbnRetransmitWindow]
  split_ifs <;> rfl

theorem gbnProcessAck_next (state : GBNSenderState) (ackNum : UInt32) :
    (gbnProcessAck state ackNum).1.nextseqnum = state.nextseqnum := by
  rw [gbnProcessAck]
  split_ifs <;> rfl

end Window

namespace Client

variable {config : AppConfig} {c : Client Addr} {e : Env Addr} {x : Transfer}

/-- The number that the next chunk gets. -/
def nextNumber (c : Client Addr) : Option UInt32 := c.xfer.map (fun x => x.gbn.nextseqnum)

theorem nextNumber_eq (hx : c.xfer = some x) : c.nextNumber = some x.gbn.nextseqnum := by
  rw [nextNumber, hx]
  rfl

/-- An activation that leaves the chunks to come and the next number as they are, and sends no
DATA packet with a number from there on. -/
structure Still (chunks : List Chunk) (number : Option UInt32)
    (next : Client Addr × List (Send Addr)) : Prop where
  file : chunksOf next.1.file = chunks
  unmoved : next.1.nextNumber = number
  sends : Emits (fun flags seq => flags = flagData ∧ ∃ limit, number = some limit ∧ seq < limit)
    next.2

theorem Still.quiet {next : Client Addr} {chunks : List Chunk} {number : Option UInt32}
    (hf : chunksOf next.file = chunks) (hn : next.nextNumber = number) :
    Still chunks number (next, []) :=
  ⟨hf, hn, .nil⟩

section Still

variable {s0 : Nat} {sent : List Chunk}

theorem resent_emits {state : GBNSenderState} (h : state.Represents s0 c.connection sent)
    (e : Env Addr) (addr : Addr) :
    Emits (fun flags seq => flags = flagData ∧
      ∃ limit, some state.nextseqnum = some limit ∧ seq < limit)
      (gbnRetransmitWindow e addr state).2 := by
  apply (gbnRetransmitWindow_emits e addr h).mono
  intro flags seq hsend
  exact ⟨hsend.1, _, rfl, hsend.2⟩

theorem transferTimer_still (h : x.gbn.Represents s0 c.connection sent) :
    Still (chunksOf c.file) (some x.gbn.nextseqnum) (c.transferTimer x e) := by
  cases c.transferTimer_move x e with
  | empty hnext =>
    rw [hnext]
    exact .quiet rfl rfl
  | resends timer hnext =>
    rw [hnext]
    refine ⟨rfl, ?_, resent_emits (h.timer timer) e c.serverAddr⟩
    exact congrArg some (gbnRetransmitWindow_next e c.serverAddr _)
  | waits timer ms hnext =>
    rw [hnext]
    exact .quiet rfl rfl

theorem transferWait_still (h : x.gbn.Represents s0 c.connection sent) :
    Still (chunksOf c.file) (some x.gbn.nextseqnum) (c.transferWait x e) := by
  rw [transferWait]
  split_ifs
  · exact .quiet rfl rfl
  · exact transferTimer_still h

theorem Still.prepend_nil {chunks : List Chunk} {number : Option UInt32}
    {next : Client Addr × List (Send Addr)} (h : Still chunks number next) :
    Still chunks number (next.1, [] ++ next.2) := h

/-- A turn of the loop in which no chunk is read. -/
theorem transferRound_still (h : x.gbn.Represents s0 c.connection sent)
    (hs : c.state = .established) (hpc : c.pc = .transfer) (hx : c.xfer = some x)
    (hno : ¬ c.TurnReads config e) :
    Still (chunksOf c.file) (some x.gbn.nextseqnum) (c.transferRound config x e) := by
  rw [transferRound]
  by_cases hloop : x.eofReached = false ∨ x.gbn.base < x.gbn.nextseqnum
  · rw [if_neg (not_not.mpr hloop)]
    by_cases hexp : c.expired config e = true
    · rw [if_pos hexp]
      exact .quiet rfl (nextNumber_eq hx)
    · rw [if_neg hexp]
      by_cases heof : x.eofReached = false
      · have hidle : ¬ (x.gbn.nextseqnum < x.gbn.base + UInt32.ofNat windowSize ∧
            ∃ chunk rest, c.file = .bytes chunk :: rest) := by
          intro hreads
          obtain ⟨hroom, chunk, rest, hf⟩ := hreads
          have hlive : c.expired config e = false := Bool.eq_false_of_not_eq_true hexp
          exact hno ⟨hpc, hlive, x, ⟨hs, hx, heof, chunk, rest, hf⟩, hroom⟩
        obtain ⟨hstate, hsends, hfile⟩ :=
          gbnFillAndSendWindow_idle e c.serverAddr c.connection c.file hidle
        rw [if_pos heof]
        simp only [hstate, hsends]
        generalize gbnFillAndSendWindow e c.serverAddr c.connection x.gbn c.file = filled at hfile ⊢
        split_ifs
        · exact .quiet hfile rfl
        · rw [← hfile]
          exact (transferWait_still (c := { c with file := filled.file })
            (x := { x with eofReached := decide (filled.result > 0) }) h).prepend_nil
      · rw [if_neg heof]
        exact transferWait_still h
  · rw [if_pos hloop]
    exact .quiet rfl rfl

theorem gbnProcessAck_represents {state : GBNSenderState} {connection : ConnectionState}
    (h : state.Represents s0 connection sent) (ackNum : UInt32) :
    (gbnProcessAck state ackNum).1.Represents s0 connection sent := by
  by_cases hin : state.base < ackNum ∧ ackNum ≤ state.nextseqnum
  · exact (gbnProcessAck_inside h ackNum hin.1 hin.2).2.2.2.2
  · rw [gbnProcessAck_outside ackNum hin]
    exact h

theorem transferAck_still (h : x.gbn.Represents s0 c.connection sent) (ack : UInt32) :
    Still (chunksOf c.file) (some x.gbn.nextseqnum) (c.transferAck x e ack) := by
  rw [← gbnProcessAck_next x.gbn ack, transferAck]
  dsimp only
  split_ifs
  · exact .quiet rfl rfl
  · exact .quiet rfl rfl
  · refine ⟨rfl, ?_, resent_emits (gbnProcessAck_represents h ack) e c.serverAddr⟩
    exact congrArg some (gbnRetransmitWindow_next e c.serverAddr _)
  · exact .quiet rfl rfl
  · exact .quiet rfl rfl

theorem transferReady_still (h : x.gbn.Represents s0 c.connection sent)
    (hx : c.xfer = some x) (hr : c.receives e = decide (e.selectResult > 0)) :
    Still (chunksOf c.file) (some x.gbn.nextseqnum) (c.transferReady x e) := by
  cases transferReady_move (x := x) hr with
  | ack addr hd _ _ hnext =>
    rw [hnext]
    exact transferAck_still (c := c.looping addr) h hd.ackNum
  | idle _ hnext =>
    rcases hnext with hnext | ⟨addr, hnext⟩
    · rw [hnext]
      exact .quiet rfl (nextNumber_eq hx)
    · rw [hnext]
      exact .quiet rfl (nextNumber_eq hx)

end Still

/-- A client on its way out: it is in the transfer loop, back in the loop of `run_client`, which
looks at the flag, or at its end with an exit code other than `EX_OK`. -/
inductive Stopping (c : Client Addr) : Prop where
  | looping (h : c.Looping)
  | leaving (state : c.state = .finWait) (pc : c.pc = .fsm)
  | exited (h : c.Exited False)

theorem Stopping.fail {code : Int} (h : code ≠ exOk) : (c.fail code).Stopping :=
  .exited ⟨rfl, Or.inl rfl, h⟩

theorem transferTimer_stopping (hs : c.state = .established) :
    (c.transferTimer x e).1.Stopping := by
  cases c.transferTimer_move x e with
  | empty hnext =>
    rw [hnext]
    exact .looping ⟨hs, Or.inr ⟨_, rfl⟩, _, rfl⟩
  | resends timer hnext =>
    rw [hnext]
    exact .looping ⟨hs, Or.inl rfl, _, rfl⟩
  | waits timer ms hnext =>
    rw [hnext]
    exact .looping ⟨hs, Or.inr ⟨_, rfl⟩, _, rfl⟩

theorem transferWait_stopping (hs : c.state = .established) :
    (c.transferWait x e).1.Stopping := by
  rw [transferWait]
  split_ifs
  · exact .leaving rfl rfl
  · exact transferTimer_stopping hs

theorem transferRound_stopping (hs : c.state = .established) :
    (c.transferRound config x e).1.Stopping := by
  rw [transferRound]
  dsimp only
  split_ifs
  · exact .fail (by decide)
  · exact .fail (by decide)
  · apply transferWait_stopping
    exact hs
  · exact transferWait_stopping hs
  · exact .leaving rfl rfl

theorem transferReady_stopping (hs : c.state = .established) (hx : c.xfer = some x)
    (hr : c.receives e = decide (e.selectResult > 0)) : (c.transferReady x e).1.Stopping := by
  cases transferReady_move (x := x) hr with
  | ack addr hd _ _ hnext =>
    rw [hnext, transferAck]
    dsimp only
    split_ifs <;> exact .looping ⟨hs, Or.inl rfl, _, rfl⟩
  | idle _ hnext =>
    rcases hnext with hnext | ⟨addr, hnext⟩
    · rw [hnext]
      exact .fail (by decide)
    · rw [hnext]
      exact .looping ⟨hs, Or.inl rfl, x, hx⟩

/-- Whatever the client does in ESTABLISHED, it gets to the top of a loop. -/
theorem established_stopping {input : InputFile} {acks : Nat} (hp : Paced input acks c)
    (hs : c.state = .established) : (c.step config e).1.Stopping := by
  cases hp with
  | opening _ _ hentered _ _ _ =>
    rw [step_fsm (hentered hs), runClient_established hs, handleEstablished]
    split_ifs
    · exact .fail (by decide)
    · exact .fail (by decide)
    · exact .looping ⟨hs, Or.inl rfl, _, rfl⟩
  | running _ hpc x _ hx _ =>
    rcases hpc with hpc | ⟨ms, hpc⟩
    · rw [step_transfer hpc hx]
      exact transferRound_stopping hs
    · rw [step_select hpc, resume_established hs hx]
      exact transferReady_stopping hs hx (receives_transfer hpc hs hx e)
  | behind hrank _ _ _ =>
    rw [hs] at hrank
    exact absurd hrank (by decide)

/-- With the flag set FIN_WAIT is left before the FIN is sent. -/
theorem Stopping.step {input : InputFile} {acks : Nat} (h : c.Stopping) (hp : Paced input acks c)
    (hstop : e.stopRequested = true) : (c.step config e).1.Stopping := by
  cases h with
  | looping h => exact established_stopping hp h.state
  | leaving hs hpc =>
    rw [step_fsm hpc, runClient_finWait hs, if_pos hstop]
    exact .fail (by decide)
  | exited h => exact .exited (h.step config e)

theorem Stopping.returned {code : Int} (h : c.Stopping) (hpc : c.pc = .returned code) :
    code ≠ exOk := by
  cases h with
  | looping h =>
    rcases h.pc with hloop | ⟨ms, hloop⟩
    · rw [hloop] at hpc
      exact absurd hpc (by simp)
    · rw [hloop] at hpc
      exact absurd hpc (by simp)
  | leaving _ hfsm =>
    rw [hfsm] at hpc
    exact absurd hpc (by simp)
  | exited h =>
    intro hcode
    rw [hcode] at hpc
    exact Sound.returned (Or.inr h) hpc

/-- What a client on its way out leaves as it is when it reads nothing. -/
theorem Stopping.still {input : InputFile} {acks : Nat} (h : c.Stopping) (hp : Paced input acks c)
    (hstop : e.stopRequested = true) (hno : ¬ c.TurnReads config e) :
    Still (chunksOf c.file) c.nextNumber (c.step config e) := by
  cases h with
  | looping h =>
    obtain ⟨x, sent, hx, hpaces⟩ := h.paces hp
    rw [nextNumber_eq hx]
    rcases h.pc with hpc | ⟨ms, hpc⟩
    · rw [step_transfer hpc hx]
      exact transferRound_still hpaces.represents h.state hpc hx hno
    · rw [step_select hpc, resume_established h.state hx]
      exact transferReady_still hpaces.represents hx (receives_transfer hpc h.state hx e)
  | leaving hs hpc =>
    rw [step_fsm hpc, runClient_finWait hs, if_pos hstop]
    exact .quiet rfl rfl
  | exited h =>
    rcases h.pc with hpc | hpc
    · rw [step_fsm hpc, runClient_done h.state]
      exact .quiet rfl rfl
    · rw [step_returned hpc]
      exact .quiet rfl rfl

section Flags

variable {input : InputFile} {acks : Nat} {sent : List Chunk}

/-- No packet bears the FIN flag. -/
def NoFin (sends : List (Send Addr)) : Prop := Emits (fun flags _ => flags &&& flagFin = 0) sends

theorem NoFin.data {P : UInt32 → Prop} {sends : List (Send Addr)}
    (h : Emits (fun flags seq => flags = flagData ∧ P seq) sends) : NoFin sends := by
  apply h.mono
  intro flags seq hflags
  rw [hflags.1]
  decide

theorem NoFin.control {c : Client Addr} {flags : UInt8} (h : flags &&& flagFin = 0) :
    NoFin [c.control e flags] :=
  .one rfl h

theorem gbnFillAndSendWindow_noFin {gbn : GBNSenderState} (addr : Addr)
    (h : Paces input acks c gbn sent) :
    NoFin (gbnFillAndSendWindow e addr c.connection gbn c.file).sends := by
  by_cases hmax : gbn.base.toNat + windowSize < 2 ^ 32
  · obtain ⟨chunks, rest, hout⟩ := gbnFillAndSendWindow_outcome e addr c.file h.represents hmax
    rw [hout.sends]
    exact dataSends_emits e addr c.connection (fun _ _ => by decide)
  · rw [gbnFillAndSendWindow_wrapped e addr c.file h.represents (Nat.not_lt.mp hmax)]
    exact .nil

theorem transferRound_noFin (h : Paces input acks c x.gbn sent) :
    NoFin (c.transferRound config x e).2 := by
  obtain ⟨chunks, hfill, _⟩ := h.fill e c.serverAddr
  have hsends : NoFin (gbnFillAndSendWindow e c.serverAddr c.connection x.gbn c.file).sends :=
    gbnFillAndSendWindow_noFin c.serverAddr h
  rw [transferRound]
  dsimp only
  split_ifs
  · exact .nil
  · exact hsends
  · exact Emits.append hsends (NoFin.data (transferWait_still (c := { c with file := _ })
      (x := { x with gbn := _, eofReached := _ }) hfill.represents).sends)
  · exact .data (transferWait_still h.represents).sends
  · exact .nil

theorem synSentPacket_noFin (h : RDTHeader) : NoFin (c.synSentPacket e h).2 := by
  rw [synSentPacket]
  dsimp only
  split_ifs
  · exact .control (by decide)
  · exact .control (by decide)
  · exact .nil

theorem synSentReady_noFin : NoFin (c.synSentReady config e).2 := by
  rw [synSentReady]
  dsimp only
  split_ifs
  · exact .nil
  · exact .control (by decide)
  · exact .control (by decide)
  · exact .nil
  · rw [Client.receive]
    cases (recvPacket e c.serverAddr).2 with
    | error code => exact .nil
    | ok received => exact synSentPacket_noFin received.1

theorem early_cases {state : ClientState} (h : state.rank ≤ 2) :
    state = .closed ∨ state = .synSent ∨ state = .established := by
  cases state with
  | closed => exact Or.inl rfl
  | synSent => exact Or.inr (Or.inl rfl)
  | established => exact Or.inr (Or.inr rfl)
  | finWait => exact absurd h (by decide)
  | timeWait => exact absurd h (by decide)
  | done => exact absurd h (by decide)

theorem runClient_noFin (h : c.state.rank ≤ 2) : NoFin (c.runClient config e).2 := by
  rcases early_cases h with hs | hs | hs
  · rw [runClient_closed hs, handleClosed]
    split_ifs
    · exact .nil
    · exact .control (by decide)
    · exact .control (by decide)
  · rw [runClient_synSent hs, handleSynSent]
    split_ifs <;> exact .nil
  · rw [runClient_established hs, handleEstablished]
    split_ifs <;> exact .nil

/-- Up to ESTABLISHED nothing but SYN, ACK and DATA packets is sent. -/
theorem Paced.noFin (h : Paced input acks c) (hrank : c.state.rank ≤ 2) :
    NoFin (c.step config e).2 := by
  cases h with
  | opening _ hpc hentered _ _ _ =>
    cases hp : c.pc with
    | fsm =>
      rw [step_fsm hp]
      exact runClient_noFin hrank
    | transfer => exact absurd hp hpc
    | returned code =>
      rw [step_returned hp]
      exact .nil
    | select ms =>
      rw [step_select hp]
      rcases early_cases hrank with hs | hs | hs
      · simp only [resume, hs]
        exact .nil
      · rw [resume_synSent hs]
        exact synSentReady_noFin
      · rw [hentered hs] at hp
        exact absurd hp (by simp)
  | running hs hpc x sent hx hp =>
    rcases hpc with hpc | ⟨ms, hpc⟩
    · rw [step_transfer hpc hx]
      exact transferRound_noFin hp
    · rw [step_select hpc, resume_established hs hx]
      exact .data (transferReady_still hp.represents hx (receives_transfer hpc hs hx e)).sends
  | behind hlate _ _ _ => omega

/-- A client on its way out sends no FIN either. -/
theorem Stopping.noFin (h : c.Stopping) (hp : Paced input acks c)
    (hstop : e.stopRequested = true) : NoFin (c.step config e).2 := by
  cases h with
  | looping h =>
    apply hp.noFin
    rw [h.state]
    exact Nat.le_refl 2
  | leaving hs hpc =>
    rw [step_fsm hpc, runClient_finWait hs, if_pos hstop]
    exact .nil
  | exited h =>
    rcases h.pc with hpc | hpc
    · rw [step_fsm hpc, runClient_done h.state]
      exact .nil
    · rw [step_returned hpc]
      exact .nil

end Flags

end Client

end ReliableUdp
