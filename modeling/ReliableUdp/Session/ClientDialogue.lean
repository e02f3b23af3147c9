import ReliableUdp.Endpoint.StopSignal
import ReliableUdp.Framework.Conformance
import ReliableUdp.Session.Delivery
import ReliableUdp.Session.TransferRound

namespace ReliableUdp

open Machine

variable {Addr : Type}

/-- How far the client's side of a conversation has come; `sent` chunks have been sent at least
once. -/
inductive ClientDialogue where
  | silent
  | calling (isn : UInt32)
  | sending (L : Link) (sent : Nat)
  | closing (L : Link)
  | closed (L : Link) (ackNum : UInt32)

/-- The packets of a client with the input `input`, and when it may send them: SYNs, one ACK, the
chunks in order with repetitions of the last thirty of them, FINs when all chunks have been sent,
and final ACKs. -/
inductive ClientDialogue.Utters (input : InputFile) :
    ClientDialogue → Message → ClientDialogue → Prop where
  | syn (isn : UInt32) (h : isn.toNat < moduler) :
      Utters input .silent (synMessage isn) (.calling isn)
  | synAgain (isn : UInt32) : Utters input (.calling isn) (synMessage isn) (.calling isn)
  | ack (L : Link) (h : L.input = input) :
      Utters input (.calling L.isn) L.handshakeAck (.sending L 0)
  | data (L : Link) (k : Nat) (chunk : Chunk) (h : L.chunks[k]? = some chunk)
      (room : L.isn.toNat + 1 + k < 2 ^ 32) :
      Utters input (.sending L k) (L.data k chunk) (.sending L (k + 1))
  | dataAgain (L : Link) (j k : Nat) (chunk : Chunk) (h : L.chunks[j]? = some chunk) (hj : j < k)
      (hlast : k ≤ j + windowSize) : Utters input (.sending L k) (L.data j chunk) (.sending L k)
  | fin (L : Link) : Utters input (.sending L L.size) L.fin (.closing L)
  | finAgain (L : Link) : Utters input (.closing L) L.fin (.closing L)
  | lastAck (L : Link) (ackNum : UInt32) :
      Utters input (.closing L) { L.lastAck with ackNum := ackNum } (.closed L ackNum)
  | lastAckAgain (L : Link) (ackNum : UInt32) :
      Utters input (.closed L ackNum) { L.lastAck with ackNum := ackNum } (.closed L ackNum)

/-- The call of `sendto` is for a packet that is allowed and fits into the buffer of
`send_packet`. -/
def Uttered {κ : Type} (utters : κ → Message → κ → Prop) (k : κ) (o : Send Addr) (k' : κ) : Prop :=
  ∃ m, o.data = m.bytes ∧ m.payload.length ≤ maxPacketSize - headerSize ∧ utters k m k'

/-- The window stands for the first `k` chunks of the input; what is left to read follows them. -/
structure SendsFirst (L : Link) (k : Nat) (x : Transfer) (file : InputFile) : Prop where
  sent_le : k ≤ L.size
  represents : x.gbn.Represents (L.isn.toNat + 1) (L.connection 1) (L.chunks.take k)
  reading : x.eofReached = false → L.input = (L.chunks.take k).map .bytes ++ file
  ended : x.eofReached = true → k = L.size

/-- The client has come as far as the conversation says. -/
inductive Converses (input : InputFile) (c : Client Addr) : ClientDialogue → Prop where
  | closed (state : c.state = .closed) (pc : c.pc = .fsm) (file : c.file = input)
      (xfer : c.xfer = none) : Converses input c .silent
  | synSent (isn : UInt32) (lt : isn.toNat < moduler) (state : c.state = .synSent)
      (pc : c.pc.Waiting) (connection : c.connection = ⟨isn, 0, 0⟩) (file : c.file = input)
      (xfer : c.xfer = none) : Converses input c (.calling isn)
  | entering (L : Link) (same : L.input = input) (state : c.state = .established)
      (pc : c.pc = .fsm) (connection : c.connection = L.connection 1) (file : c.file = L.input)
      (xfer : c.xfer = none) : Converses input c (.sending L 0)
  | transferring (L : Link) (k : Nat) (state : c.state = .established)
      (pc : c.pc = .transfer ∨ ∃ ms, c.pc = .select ms) (connection : c.connection = L.connection 1)
      (x : Transfer) (xfer : c.xfer = some x) (sends : SendsFirst L k x c.file) :
      Converses input c (.sending L k)
  | finWait (L : Link) (k : ClientDialogue) (state : c.state = .finWait) (pc : c.pc.Waiting)
      (connection : c.connection = L.connection (1 + L.size))
      (said : k = .sending L L.size ∨ k = .closing L) (waits : k = .closing L ∨ c.pc = .fsm) :
      Converses input c k
  | timeWait (L : Link) (ackNum : UInt32) (state : c.state = .timeWait) (pc : c.pc.Waiting)
      (connection : c.connection = ⟨L.num (2 + L.size), ackNum, L.connId⟩) :
      Converses input c (.closed L ackNum)
  | done (k : ClientDialogue) (state : c.state = .done) (pc : c.pc.Halted) : Converses input c k

/-- What an activation adds to the conversation. -/
def Conveys (input : InputFile) (k : ClientDialogue) (next : Client Addr × List (Send Addr)) :
    Prop :=
  ∃ k', Conforms (Uttered (ClientDialogue.Utters input)) k next.2 k' ∧ Converses input next.1 k'

section Conveys

variable {input : InputFile} {k k' : ClientDialogue} {c : Client Addr} {L : Link}

theorem Conveys.quiet (h : Converses input c k) : Conveys input k (c, []) := ⟨k, .nil k, h⟩

theorem Conveys.fail (code : Int) : Conveys input k (c.fail code, []) :=
  .quiet (.done k rfl (.inl rfl))

theorem Conveys.one {o : Send Addr} {m : Message} (hdata : o.data = m.bytes)
    (hlen : m.payload.length ≤ maxPacketSize - headerSize)
    (hm : ClientDialogue.Utters input k m k') (h : Converses input c k') :
    Conveys input k (c, [o]) :=
  ⟨k', .single ⟨m, hdata, hlen, hm⟩, h⟩

/-- A control packet that ends the client when it cannot be sent. -/
theorem Conveys.control {d : Client Addr} {o : Send Addr} {m : Message} {code : Int}
    (hdata : o.data = m.bytes) (hlen : m.payload = [])
    (hm : ClientDialogue.Utters input k m k') (h : Converses input c k') :
    Conveys input k (if o.sent = true then (c, [o]) else (d.fail code, [o])) := by
  have hfits : m.payload.length ≤ maxPacketSize - headerSize := by
    rw [hlen]
    exact Nat.zero_le _
  split_ifs
  · exact .one hdata hfits hm h
  · exact .one hdata hfits hm (.done k' rfl (.inl rfl))

theorem Conveys.prepend {next : Client Addr × List (Send Addr)} {sends : List (Send Addr)}
    (hs : Conforms (Uttered (ClientDialogue.Utters input)) k sends k')
    (h : Conveys input k' next) : Conveys input k (next.1, sends ++ next.2) := by
  obtain ⟨k'', hnext, hc⟩ := h
  exact ⟨k'', hs.append hnext, hc⟩

theorem Conveys.receive {handle : Client Addr → RDTHeader → Client Addr × List (Send Addr)}
    {e : Env Addr} (hstay : ∀ a : Addr, Converses input ({ c with serverAddr := a }.goto c.state) k)
    (hh : ∀ a h, Conveys input k (handle { c with serverAddr := a } h)) :
    Conveys input k (c.receive e handle) := by
  rw [Client.receive]
  cases (recvPacket e c.serverAddr).2 with
  | error code => exact .quiet (hstay _)
  | ok received => exact hh _ _

end Conveys

section Window

variable {input : InputFile} {L : Link} {k : Nat}

/-- New chunks are sent in order. -/
theorem conforms_new (e : Env Addr) (addr : Addr) (chunks : List Chunk)
    (hroom : L.isn.toNat + 1 + k + chunks.length < 2 ^ 32)
    (hc : ∀ i chunk, chunks[i]? = some chunk → L.chunks[k + i]? = some chunk) :
    Conforms (Uttered (ClientDialogue.Utters input)) (.sending L k)
      (dataSends e addr (L.connection 1) (L.isn.toNat + 1 + k) chunks)
      (.sending L (k + chunks.length)) := by
  induction chunks generalizing k with
  | nil => exact .nil _
  | cons chunk chunks ih =>
    have hfirst : L.chunks[k]? = some chunk := hc 0 chunk rfl
    have hnum : L.isn.toNat + 1 + k = L.isn.toNat + (1 + k) := by omega
    have hrest : ∀ i chunk, chunks[i]? = some chunk → L.chunks[k + 1 + i]? = some chunk := by
      intro i chunk hi
      rw [Nat.add_assoc, Nat.add_comm 1 i]
      exact hc (i + 1) chunk hi
    have hlen : k + (chunk :: chunks).length = k + 1 + chunks.length := by
      rw [List.length_cons]
      omega
    rw [List.length_cons] at hroom
    rw [hlen]
    refine .cons ⟨L.data k chunk, ?_, chunk.property.2, .data L k chunk hfirst (by omega)⟩
      (ih (by omega) hrest)
    rw [hnum]
    rfl

/-- Chunks of the window are sent again. -/
theorem conforms_again (e : Env Addr) (addr : Addr) {j : Nat} (chunks : List Chunk)
    (hlast : k ≤ j + windowSize)
    (hc : ∀ i chunk, chunks[i]? = some chunk → j + i < k ∧ L.chunks[j + i]? = some chunk) :
    Conforms (Uttered (ClientDialogue.Utters input)) (.sending L k)
      (dataSends e addr (L.connection 1) (L.isn.toNat + 1 + j) chunks) (.sending L k) := by
  induction chunks generalizing j with
  | nil => exact .nil _
  | cons chunk chunks ih =>
    obtain ⟨hj, hfirst⟩ := hc 0 chunk rfl
    have hnum : L.isn.toNat + 1 + j = L.isn.toNat + (1 + j) := by omega
    have hrest : ∀ i chunk, chunks[i]? = some chunk →
        j + 1 + i < k ∧ L.chunks[j + 1 + i]? = some chunk := by
      intro i chunk hi
      rw [Nat.add_assoc, Nat.add_comm 1 i]
      exact hc (i + 1) chunk hi
    refine .cons ⟨L.data j chunk, ?_, chunk.property.2, .dataAgain L j k chunk hfirst hj hlast⟩
      (ih (by omega) hrest)
    rw [hnum]
    rfl

end Window

namespace SendsFirst

variable {input : InputFile} {L : Link} {k : Nat} {x : Transfer} {c : Client Addr}
  {file : InputFile} {e : Env Addr} {config : AppConfig}

theorem next (h : SendsFirst L k x file) :
    x.gbn.nextseqnum.toNat = L.isn.toNat + 1 + k := by
  have hn := h.represents.next
  rw [L.take_length h.sent_le] at hn
  exact hn

theorem start (L : Link) (hfile : file = L.input) :
    SendsFirst L 0 ⟨.start (L.num 1), false, 0, 0⟩ file := by
  have hlt := L.isn_lt
  simp only [moduler] at hlt
  have hnum : (L.num 1).toNat = L.isn.toNat + 1 := L.num_toNat (by omega)
  refine ⟨Nat.zero_le _, ?_, fun _ => hfile.symm,
    fun heof => Bool.noConfusion heof⟩
  rw [List.take_zero, ← hnum]
  exact .start (L.num 1) (L.connection 1)

/-- Only the packets of the window and the end of the file matter. -/
theorem congr (h : SendsFirst L k x file) {y : Transfer} {timer : UInt64}
    (hg : y.gbn = { x.gbn with windowTimerMs := timer }) (heof : y.eofReached = x.eofReached) :
    SendsFirst L k y file := by
  refine ⟨h.sent_le, ?_, ?_, ?_⟩
  · rw [hg]
    exact h.represents.timer timer
  · rw [heof]
    exact h.reading
  · rw [heof]
    exact h.ended

theorem acked (h : SendsFirst L k x file) (ack : UInt32) {y : Transfer}
    (hg : y.gbn = (gbnProcessAck x.gbn ack).1) (heof : y.eofReached = x.eofReached) :
    SendsFirst L k y file := by
  refine ⟨h.sent_le, ?_, ?_, ?_⟩
  · rw [hg]
    exact Client.gbnProcessAck_represents h.represents ack
  · rw [heof]
    exact h.reading
  · rw [heof]
    exact h.ended

/-- A retransmission repeats the window. -/
theorem resent (h : SendsFirst L k x file) (e : Env Addr) (addr : Addr) :
    Conforms (Uttered (ClientDialogue.Utters input)) (.sending L k)
      (gbnRetransmitWindow e addr x.gbn).2 (.sending L k) := by
  have hlower := h.represents.lower
  have hfits := h.represents.fits
  have hnext := h.next
  have hbase : x.gbn.base.toNat =
      L.isn.toNat + 1 + (x.gbn.base.toNat - (L.isn.toNat + 1)) := by omega
  rw [gbnRetransmitWindow_sends e addr h.represents]
  conv => enter [3, 4]; rw [hbase]
  apply conforms_again
  · omega
  · intro i chunk hi
    rw [List.getElem?_drop, List.getElem?_take] at hi
    split_ifs at hi with hlt
    exact ⟨hlt, hi⟩

/-- Filling the window sends the next chunks. -/
theorem fill (input : InputFile) (h : SendsFirst L k x file) (heof : x.eofReached = false)
    (e : Env Addr) (addr : Addr) :
    ∃ m, Conforms (Uttered (ClientDialogue.Utters input)) (.sending L k)
        (gbnFillAndSendWindow e addr (L.connection 1) x.gbn file).sends (.sending L (k + m)) ∧
      ((gbnFillAndSendWindow e addr (L.connection 1) x.gbn file).result < 0 ∨
        SendsFirst L (k + m)
          { x with
            gbn := (gbnFillAndSendWindow e addr (L.connection 1) x.gbn file).state
            eofReached := decide
              ((gbnFillAndSendWindow e addr (L.connection 1) x.gbn file).result > 0) }
          (gbnFillAndSendWindow e addr (L.connection 1) x.gbn file).file) := by
  have hlen := L.take_length h.sent_le
  by_cases hmax : x.gbn.base.toNat + windowSize < 2 ^ 32
  · obtain ⟨chunks, rest, hread, hrep, hbase, hsends, hend⟩ :=
      gbnFillAndSendWindow_outcome e addr file h.represents hmax
    have hinput : L.input = (L.chunks.take k ++ chunks).map .bytes ++ rest := by
      rw [List.map_append, List.append_assoc, ← hread]
      exact h.reading heof
    obtain ⟨hchunks, hsize, htake⟩ := L.next_chunks h.sent_le hinput
    refine ⟨chunks.length, ?_, ?_⟩
    · have hlast := hrep.next
      rw [List.length_append, hlen] at hlast
      rw [hsends, h.next]
      apply conforms_new
      · rw [Nat.add_assoc, ← hlast]
        exact UInt32.toNat_lt _
      intro i chunk hi
      have hlt := (List.getElem?_eq_some_iff.mp hi).1
      rw [hchunks, List.getElem?_append_left (by rw [List.length_append, hlen]; omega),
        List.getElem?_append_right (by rw [hlen]; omega), hlen, Nat.add_sub_cancel_left, hi]
    · rw [← htake] at hrep hinput
      cases hend with
      | full hr hf _ =>
        refine Or.inr ⟨hsize, hrep, ?_, ?_⟩
        · intro _
          rw [hf]
          exact hinput
        · intro hbad
          rw [hr] at hbad
          exact absurd hbad (by dsimp only; decide)
      | eof hr hf _ =>
        refine Or.inr ⟨hsize, hrep, ?_, ?_⟩
        · intro hbad
          rw [hr] at hbad
          exact absurd hbad (by dsimp only; decide)
        · intro _
          have hl := congrArg List.length hchunks
          rw [content_of_readChunk (Or.inl hf), List.append_nil, List.length_append, hlen] at hl
          exact hl.symm
      | error hr _ =>
        rw [hr]
        exact Or.inl (by decide)
  · have hw := gbnFillAndSendWindow_wrapped e addr file h.represents (Nat.not_lt.mp hmax)
    refine ⟨0, ?_, Or.inr ?_⟩
    · rw [hw]
      exact .nil _
    · rw [hw]
      exact ⟨h.sent_le, h.represents, fun _ => h.reading heof, nofun⟩

theorem goOn (h : SendsFirst L k x c.file) (hs : c.state = .established)
    (hc : c.connection = L.connection 1) {pc : ClientPc}
    (hpc : pc = .transfer ∨ ∃ ms, pc = .select ms) (ms : UInt64) :
    Converses input { c with pc := pc, xfer := some x, lastProgressMs := ms } (.sending L k) :=
  .transferring L k hs hpc hc x rfl h

theorem transferTimer (h : SendsFirst L k x c.file) (hs : c.state = .established)
    (hc : c.connection = L.connection 1) : Conveys input (.sending L k) (c.transferTimer x e) := by
  cases c.transferTimer_move x e with
  | empty hnext =>
    rw [hnext]
    exact .quiet (h.goOn hs hc (Or.inr ⟨_, rfl⟩) c.lastProgressMs)
  | resends timer hnext =>
    have htimed : SendsFirst L k { x with gbn := { x.gbn with windowTimerMs := timer } } c.file :=
      h.congr rfl rfl
    obtain ⟨timer', ht⟩ := gbnRetransmitWindow_state e c.serverAddr
      { x.gbn with windowTimerMs := timer }
    rw [hnext]
    refine ⟨_, htimed.resent e c.serverAddr, ?_⟩
    exact (h.congr (y := { x with gbn := _ }) ht rfl).goOn hs hc (Or.inl rfl) c.lastProgressMs
  | waits timer ms hnext =>
    have htimed : SendsFirst L k { x with gbn := { x.gbn with windowTimerMs := timer } } c.file :=
      h.congr rfl rfl
    rw [hnext]
    exact .quiet (htimed.goOn hs hc (Or.inr ⟨_, rfl⟩) c.lastProgressMs)

/-- Behind the loop everything has been sent. -/
theorem transferDone (h : SendsFirst L k x c.file) (hc : c.connection = L.connection 1)
    (heof : x.eofReached = true) : Conveys input (.sending L k) (c.transferDone x, []) := by
  have hall := h.ended heof
  have hnext := h.next
  have hseq : x.gbn.nextseqnum = L.num (1 + L.size) := by
    apply UInt32.toNat_inj.mp
    have hlt := x.gbn.nextseqnum.toNat_lt
    rw [L.num_toNat (by omega)]
    omega
  subst hall
  refine .quiet (.finWait L _ rfl (.inl rfl) ?_ (Or.inl rfl) (Or.inr rfl))
  simp only [Client.transferDone, Client.goto, hc, hseq, Link.connection]

theorem transferWait (h : SendsFirst L k x c.file) (hs : c.state = .established)
    (hc : c.connection = L.connection 1) : Conveys input (.sending L k) (c.transferWait x e) := by
  rw [Client.transferWait]
  split_ifs with hdone
  · exact h.transferDone hc hdone.1
  · exact h.transferTimer hs hc

theorem transferRound (h : SendsFirst L k x c.file) (hs : c.state = .established)
    (hc : c.connection = L.connection 1) :
    Conveys input (.sending L k) (c.transferRound config x e) := by
  rw [Client.transferRound]
  by_cases hloop : x.eofReached = false ∨ x.gbn.base < x.gbn.nextseqnum
  · rw [if_neg (not_not.mpr hloop)]
    by_cases hexp : c.expired config e = true
    · rw [if_pos hexp]
      exact .fail exProtocol
    · rw [if_neg hexp]
      by_cases heof : x.eofReached = false
      · obtain ⟨m, hsends, hnext⟩ := h.fill input heof e c.serverAddr
        rw [← hc] at hsends hnext
        rw [if_pos heof]
        by_cases hneg : (gbnFillAndSendWindow e c.serverAddr c.connection x.gbn c.file).result < 0
        · simp only [if_pos hneg]
          exact ⟨_, hsends, .done _ rfl (.inl rfl)⟩
        · simp only [if_neg hneg]
          exact ((hnext.resolve_left hneg).transferWait (c := { c with
            file := (gbnFillAndSendWindow e c.serverAddr c.connection x.gbn c.file).file })
            hs hc).prepend hsends
      · rw [if_neg heof]
        exact h.transferWait hs hc
  · rw [if_pos hloop]
    rw [not_or, Bool.not_eq_false] at hloop
    exact h.transferDone hc hloop.1

theorem transferAck (h : SendsFirst L k x c.file) (hs : c.state = .established)
    (hpc : c.pc = .transfer) (hc : c.connection = L.connection 1) (ack : UInt32) :
    Conveys input (.sending L k) (c.transferAck x e ack) := by
  have hacked : SendsFirst L k { x with gbn := (gbnProcessAck x.gbn ack).1 } c.file :=
    h.acked ack rfl rfl
  have hstays (timer ms : UInt64) {y : Transfer} (hg : y.gbn =
      { (gbnProcessAck x.gbn ack).1 with windowTimerMs := timer })
      (heof : y.eofReached = x.eofReached) :
      Converses input { c with xfer := some y, lastProgressMs := ms } (.sending L k) :=
    .transferring L k hs (Or.inl hpc) hc y rfl (hacked.congr hg heof)
  rw [Client.transferAck]
  dsimp only
  by_cases hnew : (gbnProcessAck x.gbn ack).2 = true
  · rw [if_pos hnew]
    exact .quiet (hstays _ _ rfl rfl)
  rw [if_neg hnew]
  split_ifs
  · obtain ⟨timer, ht⟩ := gbnRetransmitWindow_state e c.serverAddr (gbnProcessAck x.gbn ack).1
    refine ⟨_, hacked.resent e c.serverAddr, ?_⟩
    refine hstays e.restartMs c.lastProgressMs ?_ rfl
    rw [ht]
  · exact .quiet (hstays (gbnProcessAck x.gbn ack).1.windowTimerMs _ rfl rfl)
  · exact .quiet (hstays (gbnProcessAck x.gbn ack).1.windowTimerMs _ rfl rfl)

theorem transferReady (h : SendsFirst L k x c.file) (hs : c.state = .established)
    (hx : c.xfer = some x) (hc : c.connection = L.connection 1)
    (hr : c.receives e = decide (e.selectResult > 0)) :
    Conveys input (.sending L k) (c.transferReady x e) := by
  cases Client.transferReady_move (x := x) hr with
  | ack addr hd _ _ hnext =>
    rw [hnext]
    exact SendsFirst.transferAck (c := c.looping addr) h hs rfl hc hd.ackNum
  | idle _ hnext =>
    rcases hnext with hnext | ⟨addr, hnext⟩
    · rw [hnext]
      exact .fail exOsErr
    · rw [hnext]
      exact .quiet (.transferring L k hs (Or.inl rfl) hc x hx h)

end SendsFirst

namespace Converses

variable {input : InputFile} {k : ClientDialogue} {L : Link} {c : Client Addr} {e : Env Addr}
  {config : AppConfig} {isn : UInt32}

theorem init (serverAddr : Addr) (startMs : UInt64) (input : InputFile) :
    Converses input (Client.init serverAddr startMs input) .silent :=
  .closed rfl rfl rfl rfl

theorem handleClosed (hf : c.file = input) (hx : c.xfer = none) :
    Conveys input .silent (c.handleClosed e) := by
  have hlt : (UInt32.ofNat (e.rand 0 % moduler)).toNat < moduler := by
    have hmod : e.rand 0 % moduler < moduler := Nat.mod_lt _ (by decide)
    rw [UInt32.toNat_ofNat_of_lt' (hmod.trans (by decide))]
    exact hmod
  rw [Client.handleClosed]
  generalize UInt32.ofNat (e.rand 0 % moduler) = isn at hlt ⊢
  exact .control (m := synMessage isn) rfl rfl (.syn isn hlt)
    (.synSent isn hlt rfl (.inl rfl) rfl hf hx)

/-- A SYN+ACK gives the session its numbers. -/
theorem synSentPacket (lt : isn.toNat < moduler) (hc : c.connection = ⟨isn, 0, 0⟩)
    (hf : c.file = input) (hx : c.xfer = none) (h : RDTHeader) :
    Conveys input (.calling isn) (c.synSentPacket e h) := by
  rw [Client.synSentPacket]
  by_cases htake : h.flags = flagSyn ||| flagAck ∧ h.connId ≠ 0 ∧
      h.ackNum = c.connection.seqNum + 1
  · rw [if_pos htake]
    let L : Link := ⟨isn, h.seqNum, h.connId, input, lt, htake.2.1⟩
    have hnum : c.connection.seqNum + 1 = L.num 1 := by
      rw [hc]
      exact L.isn_succ
    dsimp only
    rw [hnum]
    exact .control (m := L.handshakeAck) rfl rfl (.ack L rfl) (.entering L rfl rfl rfl rfl hf hx)
  · rw [if_neg htake]
    exact .quiet (.synSent isn lt rfl (.inl rfl) hc hf hx)

theorem synSentReady (lt : isn.toNat < moduler) (hs : c.state = .synSent)
    (hc : c.connection = ⟨isn, 0, 0⟩) (hf : c.file = input) (hx : c.xfer = none) :
    Conveys input (.calling isn) (c.synSentReady config e) := by
  have hstay (a : Addr) : Converses input
      ({ c with serverAddr := a }.goto .synSent) (.calling isn) :=
    .synSent isn lt rfl (.inl rfl) hc hf hx
  have hsyn : (c.control e flagSyn).data = (synMessage isn).bytes := by
    rw [Client.control, hc]
    rfl
  rw [Client.synSentReady]
  split_ifs with h0 hexp hneg
  · exact .fail exProtocol
  · exact .control hsyn rfl (.synAgain isn) (hstay c.serverAddr)
  · exact .fail exOsErr
  · apply Conveys.receive
    · intro a
      rw [hs]
      exact hstay a
    · intro a h
      exact synSentPacket (c := { c with serverAddr := a }) lt hc hf hx h

theorem handleEstablished (hs : c.state = .established)
    (hc : c.connection = L.connection 1) (hf : c.file = L.input) :
    Conveys input (.sending L 0) (c.handleEstablished config e) := by
  rw [Client.handleEstablished]
  split_ifs
  · exact .fail exProtocol
  · have hseq : c.connection.seqNum = L.num 1 := by
      rw [hc]
      rfl
    rw [hseq]
    exact .quiet ((SendsFirst.start L hf).goOn hs hc (Or.inl rfl) c.lastProgressMs)

theorem fin_bytes (hc : c.connection = L.connection (1 + L.size)) :
    (c.control e flagFin).data = L.fin.bytes := by
  rw [Client.control, hc]
  rfl

/-- A FIN is the first one or a repeated one. -/
theorem handleFinWait (hs : c.state = .finWait) (hc : c.connection = L.connection (1 + L.size))
    (said : k = .sending L L.size ∨ k = .closing L) :
    Conveys input k (c.handleFinWait config e) := by
  have hfin : ClientDialogue.Utters input k L.fin (.closing L) := by
    rcases said with rfl | rfl
    · exact .fin L
    · exact .finAgain L
  rw [Client.handleFinWait]
  split_ifs
  · exact .fail exProtocol
  · exact .control (fin_bytes hc) rfl hfin
      (.finWait L _ hs (.inr ⟨_, rfl⟩) hc (Or.inr rfl) (Or.inl rfl))

theorem finWaitReady (hs : c.state = .finWait) (hc : c.connection = L.connection (1 + L.size)) :
    Conveys input (.closing L) (c.finWaitReady config e) := by
  have hstay (a : Addr) : Converses input
      ({ c with serverAddr := a }.goto .finWait) (.closing L) :=
    .finWait L _ rfl (.inl rfl) hc (Or.inr rfl) (Or.inl rfl)
  rw [Client.finWaitReady]
  split_ifs
  · exact .fail exProtocol
  · exact .quiet (hstay c.serverAddr)
  · exact .fail exOsErr
  · apply Conveys.receive
    · intro a
      rw [hs]
      exact hstay a
    · intro a h
      rw [Client.finWaitPacket]
      split_ifs
      · have hnum : c.connection.seqNum + 1 = L.num (2 + L.size) := by
          rw [hc]
          exact L.num_fin
        have hconn : c.connection.connId = L.connId := by
          rw [hc]
          rfl
        dsimp only
        rw [hnum, hconn]
        exact .control (m := { L.lastAck with ackNum := h.seqNum + 1 }) rfl rfl (.lastAck L _)
          (.timeWait L _ rfl (.inl rfl) rfl)
      · exact .quiet (hstay a)

theorem timeWaitReady {ackNum : UInt32} (hs : c.state = .timeWait)
    (hc : c.connection = ⟨L.num (2 + L.size), ackNum, L.connId⟩) :
    Conveys input (.closed L ackNum) (c.timeWaitReady e) := by
  have hstay (a : Addr) (ms : UInt64) : Converses input
      ({ c with serverAddr := a, lastProgressMs := ms }.goto .timeWait) (.closed L ackNum) :=
    .timeWait L ackNum rfl (.inl rfl) hc
  rw [Client.timeWaitReady]
  split_ifs
  · exact .quiet (.done _ rfl (.inl rfl))
  · exact .fail exOk
  · exact .fail exOsErr
  · apply Conveys.receive
    · intro a
      rw [hs]
      exact hstay a c.lastProgressMs
    · intro a h
      have hack : (Client.control { c with serverAddr := a } e flagAck).data =
          Message.bytes { L.lastAck with ackNum := ackNum } := by
        rw [Client.control, hc]
        rfl
      rw [Client.timeWaitPacket]
      split_ifs
      · exact .control hack rfl (.lastAckAgain L ackNum) (hstay a _)
      · exact .quiet (hstay a c.lastProgressMs)

/-- Every activation, whatever arrives in it. -/
theorem step (h : Converses input c k) (config : AppConfig) (e : Env Addr) :
    Conveys input k (c.step config e) := by
  cases h with
  | closed hs hpc hf hx =>
    rw [Client.step_fsm hpc, Client.runClient_closed hs]
    split_ifs
    · exact .fail exSoftware
    · exact handleClosed hf hx
  | synSent isn lt hs hpc hc hf hx =>
    rcases hpc with hp | ⟨ms, hp⟩
    · rw [Client.step_fsm hp, Client.runClient_synSent hs, Client.handleSynSent]
      split_ifs
      · exact .fail exSoftware
      · exact .fail exProtocol
      · exact .quiet (.synSent isn lt hs (.inr ⟨_, rfl⟩) hc hf hx)
    · rw [Client.step_select hp, Client.resume_synSent hs]
      exact synSentReady lt hs hc hf hx
  | entering L _ hs hpc hc hf hx =>
    rw [Client.step_fsm hpc, Client.runClient_established hs]
    split_ifs
    · exact .fail exSoftware
    · exact handleEstablished hs hc hf
  | transferring L k hs hpc hc x hx hsends =>
    rcases hpc with hp | ⟨ms, hp⟩
    · rw [Client.step_transfer hp hx]
      exact hsends.transferRound hs hc
    · rw [Client.step_select hp, Client.resume_established hs hx]
      exact hsends.transferReady hs hx hc (Client.receives_transfer hp hs hx e)
  | finWait L k hs hpc hc said waits =>
    rcases hpc with hp | ⟨ms, hp⟩
    · rw [Client.step_fsm hp, Client.runClient_finWait hs]
      split_ifs
      · exact .fail exSoftware
      · exact handleFinWait hs hc said
    · obtain rfl : k = .closing L := by
        rcases waits with hk | hfsm
        · exact hk
        · rw [hp] at hfsm
          exact absurd hfsm (by simp)
      rw [Client.step_select hp, Client.resume_finWait hs]
      exact finWaitReady hs hc
  | timeWait L ackNum hs hpc hc =>
    rcases hpc with hp | ⟨ms, hp⟩
    · rw [Client.step_fsm hp, Client.runClient_timeWait hs]
      split_ifs
      · exact .fail exSoftware
      · exact .quiet (.timeWait L ackNum hs (.inr ⟨_, rfl⟩) hc)
    · rw [Client.step_select hp, Client.resume_timeWait hs]
      exact timeWaitReady hs hc
  | done k hs hpc =>
    rcases hpc with hp | ⟨code, hp⟩
    · rw [Client.step_fsm hp, Client.runClient_done hs]
      exact .quiet (.done k hs (.inr ⟨_, rfl⟩))
    · rw [Client.step_returned hp]
      exact .quiet (.done k hs (.inr ⟨code, hp⟩))

end Converses

namespace ClientDialogue

variable {input : InputFile} {k k' k'' : ClientDialogue} {m : Message} {L : Link}

/-- The numbers of the session, once the client has taken them. -/
def link : ClientDialogue → Option Link
  | .silent => none
  | .calling _ => none
  | .sending L _ => some L
  | .closing L => some L
  | .closed L _ => some L

/-- How many chunks have been sent at least once. -/
def sent : ClientDialogue → Nat
  | .silent => 0
  | .calling _ => 0
  | .sending _ k => k
  | .closing L => L.size
  | .closed L _ => L.size

/-- The session is one for `input`, and its numbers have not wrapped around. -/
def Numbered (input : InputFile) (k : ClientDialogue) : Prop :=
  ∀ L, k.link = some L → L.input = input ∧ L.isn.toNat + 1 + k.sent ≤ 2 ^ 32

theorem Utters.link (h : Utters input k m k') (hL : k.link = some L) : k'.link = some L := by
  cases h with
  | syn => exact absurd hL (by simp [ClientDialogue.link])
  | synAgain => exact absurd hL (by simp [ClientDialogue.link])
  | ack => exact absurd hL (by simp [ClientDialogue.link])
  | data => exact hL
  | dataAgain => exact hL
  | fin => exact hL
  | finAgain => exact hL
  | lastAck => exact hL
  | lastAckAgain => exact hL

/-- The ACK of the handshake begins the session. -/
theorem Utters.link_new (h : Utters input k m k') (hL : k'.link = some L) :
    k.link = some L ∨ m = L.handshakeAck := by
  cases h with
  | syn => exact absurd hL (by simp [ClientDialogue.link])
  | synAgain => exact absurd hL (by simp [ClientDialogue.link])
  | ack L' _ =>
    obtain rfl := Option.some.inj hL
    exact Or.inr rfl
  | data => exact Or.inl hL
  | dataAgain => exact Or.inl hL
  | fin => exact Or.inl hL
  | finAgain => exact Or.inl hL
  | lastAck => exact Or.inl hL
  | lastAckAgain => exact Or.inl hL

theorem Utters.numbered (h : Utters input k m k') (hk : k.Numbered input) :
    k'.Numbered input := by
  cases h with
  | syn isn _ => exact nofun
  | synAgain isn => exact nofun
  | ack L hin =>
    intro L' hL
    obtain rfl := Option.some.inj hL
    have hlt := L.isn_lt
    simp only [moduler] at hlt
    exact ⟨hin, by simp only [sent]; omega⟩
  | data L k chunk _ room =>
    intro L' hL
    obtain rfl := Option.some.inj hL
    exact ⟨(hk L rfl).1, by simp only [sent]; omega⟩
  | dataAgain => exact hk
  | fin => exact hk
  | finAgain => exact hk
  | lastAck => exact hk
  | lastAckAgain => exact hk

/-- A DATA packet carries one of the chunks sent by then. -/
theorem Utters.data_of (h : Utters input k m k') (hf : m.flags = flagData) :
    ∃ L j chunk, k'.link = some L ∧ j ≤ k.sent ∧ j < k'.sent ∧ L.chunks[j]? = some chunk ∧
      m = L.data j chunk := by
  have hsyn : flagSyn ≠ flagData := by decide
  have hack : flagAck ≠ flagData := by decide
  have hfin : flagFin ≠ flagData := by decide
  cases h with
  | syn isn _ => exact absurd hf hsyn
  | synAgain isn => exact absurd hf hsyn
  | ack L _ => exact absurd hf hack
  | data L k chunk hchunk _ =>
    exact ⟨L, k, chunk, rfl, Nat.le_refl k, Nat.lt_succ_self k, hchunk, rfl⟩
  | dataAgain L j k chunk hchunk hj _ => exact ⟨L, j, chunk, rfl, hj.le, hj, hchunk, rfl⟩
  | fin L => exact absurd hf hfin
  | finAgain L => exact absurd hf hfin
  | lastAck L ackNum => exact absurd hf hack
  | lastAckAgain L ackNum => exact absurd hf hack

theorem Utters.link_of_data (h : Utters input k m k') (hf : m.flags = flagData)
    (hL : k'.link = some L) : k.link = some L := by
  have hack : flagAck ≠ flagData := by decide
  cases h with
  | syn => exact absurd hL (by simp [ClientDialogue.link])
  | synAgain => exact hL
  | ack => exact absurd hf hack
  | data => exact hL
  | dataAgain => exact hL
  | fin => exact hL
  | finAgain => exact hL
  | lastAck => exact hL
  | lastAckAgain => exact hL

theorem Utters.sent_le (h : Utters input k m k') : k.sent ≤ k'.sent := by
  cases h with
  | syn => exact Nat.zero_le _
  | synAgain => exact Nat.le_refl _
  | ack => exact Nat.zero_le _
  | data => exact Nat.le_succ _
  | dataAgain => exact Nat.le_refl _
  | fin => exact Nat.le_refl _
  | finAgain => exact Nat.le_refl _
  | lastAck => exact Nat.le_refl _
  | lastAckAgain => exact Nat.le_refl _

/-- A FIN says that all chunks have been sent. -/
theorem Utters.fin_of (h : Utters input k m k') (hf : m.flags = flagFin) :
    ∃ L, k.link = some L ∧ k'.link = some L ∧ k.sent = L.size ∧ m = L.fin := by
  have hsyn : flagSyn ≠ flagFin := by decide
  have hack : flagAck ≠ flagFin := by decide
  have hdata : flagData ≠ flagFin := by decide
  cases h with
  | syn isn _ => exact absurd hf hsyn
  | synAgain isn => exact absurd hf hsyn
  | ack L _ => exact absurd hf hack
  | data L k chunk _ _ => exact absurd hf hdata
  | dataAgain L j k chunk _ _ _ => exact absurd hf hdata
  | fin L => exact ⟨L, rfl, rfl, rfl, rfl⟩
  | finAgain L => exact ⟨L, rfl, rfl, rfl, rfl⟩
  | lastAck L ackNum => exact absurd hf hack
  | lastAckAgain L ackNum => exact absurd hf hack

/-- A chunk counts as sent when it is sent for the first time. -/
theorem Utters.new (h : Utters input k m k') (hL : k'.link = some L) {j : Nat} (hj : k.sent ≤ j)
    (hj' : j < k'.sent) : ∃ chunk, L.chunks[j]? = some chunk ∧ m = L.data j chunk := by
  cases h with
  | syn isn _ => exact absurd hL (by simp [ClientDialogue.link])
  | synAgain isn => exact absurd hL (by simp [ClientDialogue.link])
  | ack L _ => exact absurd hj' (Nat.not_lt_zero j)
  | data L' k chunk hchunk _ =>
    obtain rfl := Option.some.inj hL
    obtain rfl : j = k := Nat.le_antisymm (Nat.le_of_lt_succ hj') hj
    exact ⟨chunk, hchunk, rfl⟩
  | dataAgain => exact absurd hj' (Nat.not_lt.mpr hj)
  | fin => exact absurd hj' (Nat.not_lt.mpr hj)
  | finAgain => exact absurd hj' (Nat.not_lt.mpr hj)
  | lastAck => exact absurd hj' (Nat.not_lt.mpr hj)
  | lastAckAgain => exact absurd hj' (Nat.not_lt.mpr hj)

/-- The packet is the DATA packet with the number `n`. -/
def IsNumber (n : Nat) (o : Send Addr) : Prop :=
  ∃ h payload, parsePacket o.data = .ok (h, payload) ∧ h.flags = flagData ∧ h.seqNum.toNat = n

theorem isNumber_of_data {o : Send Addr} {j : Nat} {chunk : Chunk}
    (hroom : L.isn.toNat + 1 + j < 2 ^ 32) (ho : o.data = (L.data j chunk).bytes) :
    IsNumber (L.isn.toNat + 1 + j) o := by
  obtain ⟨h, hparse, hread⟩ := (L.data j chunk).parse chunk.property.2
  refine ⟨h, _, by rw [ho]; exact hparse, hread.flags, ?_⟩
  rw [hread.seqNum]
  exact (L.num_toNat (by omega)).trans (Nat.add_assoc _ _ _).symm

section Conversation

variable {os : List (Send Addr)}

theorem link_of_conforms (h : Conforms (Uttered (Utters input)) k os k') (hL : k.link = some L) :
    k'.link = some L :=
  h.invariant (I := fun k => k.link = some L)
    (fun _ _ _ hk ho => by obtain ⟨m, _, _, hm⟩ := ho; exact hm.link hk) hL

theorem link_new_of_conforms (h : Conforms (Uttered (Utters input)) k os k')
    (hL : k'.link = some L) : k.link = some L ∨ ∃ o ∈ os, o.data = L.handshakeAck.bytes := by
  induction h with
  | nil => exact Or.inl hL
  | cons ho _ ih =>
    obtain ⟨m, hdata, _, hm⟩ := ho
    rcases ih hL with hmid | ⟨o', ho', hdata'⟩
    · rcases hm.link_new hmid with hk | rfl
      · exact Or.inl hk
      · exact Or.inr ⟨_, List.mem_cons_self, hdata⟩
    · exact Or.inr ⟨o', List.mem_cons_of_mem _ ho', hdata'⟩

theorem numbered_of_conforms (h : Conforms (Uttered (Utters input)) .silent os k) :
    k.Numbered input :=
  h.invariant (I := Numbered input)
    (fun _ _ _ hk ho => by obtain ⟨m, _, _, hm⟩ := ho; exact hm.numbered hk) nofun

theorem sent_le_of_conforms (h : Conforms (Uttered (Utters input)) k os k') : k.sent ≤ k'.sent :=
  h.invariant (I := fun m => k.sent ≤ m.sent)
    (fun _ _ _ hk ho => by obtain ⟨m, _, _, hm⟩ := ho; exact hk.trans hm.sent_le) (Nat.le_refl _)

/-- All chunks that count as sent are among the packets. -/
theorem sent_of_conforms (h : Conforms (Uttered (Utters input)) k os k') (hL : k'.link = some L)
    {j : Nat} (hj : k.sent ≤ j) (hj' : j < k'.sent) :
    ∃ o ∈ os, ∃ chunk, L.chunks[j]? = some chunk ∧ o.data = (L.data j chunk).bytes := by
  induction h with
  | nil k => exact absurd hj' (Nat.not_lt.mpr hj)
  | @cons k m k' o os ho hs ih =>
    by_cases hm : m.sent ≤ j
    · obtain ⟨o', ho', hdata⟩ := ih hL hm hj'
      exact ⟨o', List.mem_cons_of_mem o ho', hdata⟩
    · obtain ⟨msg, hbytes, _, hutters⟩ := ho
      have hmL : m.link = some L := by
        cases hml : m.link with
        | none =>
          exfalso
          cases m with
          | silent => exact hm (Nat.zero_le j)
          | calling isn => exact hm (Nat.zero_le j)
          | sending L k => exact absurd hml (by simp [ClientDialogue.link])
          | closing L => exact absurd hml (by simp [ClientDialogue.link])
          | closed L a => exact absurd hml (by simp [ClientDialogue.link])
        | some L' => exact (link_of_conforms hs hml).symm.trans hL
      obtain ⟨chunk, hchunk, rfl⟩ := hutters.new hmL hj (Nat.not_le.mp hm)
      exact ⟨o, List.mem_cons_self, chunk, hchunk, hbytes⟩

end Conversation

end ClientDialogue

open ClientDialogue

section Accepted

variable {config : AppConfig} {input : InputFile} {c : Client Addr} {e : Env Addr}
  {k k' : ClientDialogue} {L : Link}

theorem Message.bytes_inj {m m' : Message} (h : m.bytes = m'.bytes)
    (hp : m.payload.length ≤ maxPacketSize - headerSize)
    (hp' : m'.payload.length ≤ maxPacketSize - headerSize) : m = m' := by
  obtain ⟨hd, hparse, hread⟩ := m.parse hp
  rw [h] at hparse
  have hread' := Message.parsed hp' hparse
  obtain ⟨seqNum, ackNum, connId, flags, payload⟩ := m
  obtain ⟨seqNum', ackNum', connId', flags', payload'⟩ := m'
  obtain rfl : seqNum = seqNum' := hread.seqNum.symm.trans hread'.seqNum
  obtain rfl : ackNum = ackNum' := hread.ackNum.symm.trans hread'.ackNum
  obtain rfl : connId = connId' := hread.connId.symm.trans hread'.connId
  obtain rfl : flags = flags' := hread.flags.symm.trans hread'.flags
  obtain rfl : payload = payload' := hread'.payload
  rfl

theorem syn_data_ne (c : Client Addr) (e : Env Addr) (L : Link) :
    (c.control e flagSyn).data ≠ L.handshakeAck.bytes := by
  intro hdata
  have hbytes : (⟨c.connection.seqNum, c.connection.ackNum, c.connection.connId, flagSyn, []⟩ :
      Message).bytes = L.handshakeAck.bytes := hdata
  have hflags := congrArg Message.flags
    (Message.bytes_inj hbytes (Nat.zero_le _) (Nat.zero_le _))
  exact absurd hflags (by dsimp only [Link.handshakeAck]; decide)

theorem synSentPacket_ack {h : RDTHeader} {o : Send Addr} (ho : o ∈ (c.synSentPacket e h).2)
    (hdata : o.data = L.handshakeAck.bytes) :
    c.TakesSynAck h ∧ L.serverSeq = h.seqNum ∧ L.connId = h.connId := by
  rw [Client.synSentPacket] at ho
  by_cases htake : c.TakesSynAck h
  · rw [if_pos htake] at ho
    have hbytes : (⟨c.connection.seqNum + 1, h.seqNum + 1, h.connId, flagAck, []⟩ :
        Message).bytes = L.handshakeAck.bytes := by
      rw [← hdata]
      dsimp only at ho
      split_ifs at ho
      · rw [List.mem_singleton.mp ho]
        rfl
      · rw [List.mem_singleton.mp ho]
        rfl
    have hm := Message.bytes_inj hbytes (Nat.zero_le _) (Nat.zero_le _)
    have hseq : h.seqNum + 1 = L.serverSeq + 1 := congrArg Message.ackNum hm
    exact ⟨htake, ((UInt32.add_left_inj 1).mp hseq).symm, (congrArg Message.connId hm).symm⟩
  · rw [if_neg htake] at ho
    exact absurd ho List.not_mem_nil

/-- In SYN_SENT the ACK of the handshake answers the SYN+ACK that brought its numbers. -/
theorem synSent_ack (hs : c.state = .synSent) (hpc : c.pc.Waiting) {o : Send Addr}
    (ho : o ∈ (c.step config e).2) (hdata : o.data = L.handshakeAck.bytes) :
    ∃ h, c.taken e = some h ∧ c.TakesSynAck h ∧ L.serverSeq = h.seqNum ∧ L.connId = h.connId := by
  rcases hpc with hp | ⟨ms, hp⟩
  · rw [Client.step_fsm hp, Client.runClient_synSent hs, Client.handleSynSent] at ho
    split_ifs at ho
    · exact absurd ho List.not_mem_nil
    · exact absurd ho List.not_mem_nil
    · exact absurd ho List.not_mem_nil
  · rw [Client.step_select hp, Client.resume_synSent hs, Client.synSentReady] at ho
    split_ifs at ho with h0 hexp hneg
    · exact absurd ho List.not_mem_nil
    · dsimp only at ho
      split_ifs at ho
      · rw [List.mem_singleton.mp ho] at hdata
        exact absurd hdata (syn_data_ne c e L)
      · rw [List.mem_singleton.mp ho] at hdata
        exact absurd hdata (syn_data_ne c e L)
    · exact absurd ho List.not_mem_nil
    · have hr : c.receives e = true := by
        simp only [Client.receives, hp, hs, decide_eq_true (pos_of_waitForPacket h0 hneg)]
      rw [Client.receive] at ho
      cases hrecv : (recvPacket e c.serverAddr).2 with
      | error code =>
        rw [hrecv] at ho
        exact absurd ho List.not_mem_nil
      | ok received =>
        have htaken : c.taken e = some received.1 := by
          rw [Client.taken, if_pos hr, hrecv]
          rfl
        rw [hrecv] at ho
        obtain ⟨htake, hnumbers⟩ :=
          synSentPacket_ack (c := { c with serverAddr := (recvPacket e c.serverAddr).1 }) ho hdata
        exact ⟨received.1, htaken, htake, hnumbers⟩

/-- A session begins in the activation that takes its SYN+ACK. -/
theorem accepted_of_link (h : Converses input c k)
    (hk : Conforms (Uttered (Utters input)) k (c.step config e).2 k') (hL : k'.link = some L) :
    k.link = some L ∨
      ∃ h, c.taken e = some h ∧ c.TakesSynAck h ∧ L.serverSeq = h.seqNum ∧ L.connId = h.connId := by
  rcases link_new_of_conforms hk hL with hold | ⟨o, ho, hdata⟩
  · exact Or.inl hold
  · cases h with
    | closed hs hpc _ _ =>
      exfalso
      rw [Client.step_fsm hpc, Client.runClient_closed hs, Client.handleClosed] at ho
      split_ifs at ho with _ hsent
      · exact absurd ho List.not_mem_nil
      · rw [List.mem_singleton.mp ho] at hdata
        exact absurd hdata (syn_data_ne _ e L)
      · rw [List.mem_singleton.mp ho] at hdata
        exact absurd hdata (syn_data_ne _ e L)
    | synSent isn lt hs hpc _ _ _ => exact Or.inr (synSent_ack hs hpc ho hdata)
    | entering L' _ _ _ _ _ _ => exact Or.inl ((link_of_conforms hk rfl).symm.trans hL)
    | transferring L' _ _ _ _ _ _ _ => exact Or.inl ((link_of_conforms hk rfl).symm.trans hL)
    | finWait L' _ _ _ _ hsaid _ =>
      rcases hsaid with rfl | rfl
      · exact Or.inl ((link_of_conforms hk rfl).symm.trans hL)
      · exact Or.inl ((link_of_conforms hk rfl).symm.trans hL)
    | timeWait L' _ _ _ _ => exact Or.inl ((link_of_conforms hk rfl).symm.trans hL)
    | done _ hs hpc =>
      rcases hpc with hp | ⟨code, hp⟩
      · rw [Client.step_fsm hp, Client.runClient_done hs] at ho
        exact absurd ho List.not_mem_nil
      · rw [Client.step_returned hp] at ho
        exact absurd ho List.not_mem_nil

/-- Whatever datagrams the client is given and whatever fails, what it sends is a conversation: SYNs
with one number, one ACK, the chunks of its input in order, FINs only behind the last chunk. The
number and the identifier of the server in it are those of a SYN+ACK the client has taken. -/
theorem client_converses (config : AppConfig) (serverAddr : Addr) (startMs : UInt64)
    (input : InputFile) (es : List (Env Addr)) :
    ∃ k, Conforms (Uttered (ClientDialogue.Utters input)) .silent
        (outputs (Client.step config) (Client.init serverAddr startMs input) es) k ∧
      Converses input (after (Client.step config) (Client.init serverAddr startMs input) es) k ∧
      ∀ L, k.link = some L → ∃ pre e post h, es = pre ++ e :: post ∧
        (after (Client.step config) (Client.init serverAddr startMs input) pre).taken e = some h ∧
        (after (Client.step config) (Client.init serverAddr startMs input) pre).TakesSynAck h ∧
        L.serverSeq = h.seqNum ∧ L.connId = h.connId := by
  induction es using List.reverseRecOn with
  | nil => exact ⟨.silent, .nil _, .init serverAddr startMs input, nofun⟩
  | append_singleton es e ih =>
    obtain ⟨k, hk, hc, htook⟩ := ih
    obtain ⟨k', hsends, hc'⟩ := hc.step config e
    refine ⟨k', ?_, by rw [after_snoc]; exact hc', ?_⟩
    · rw [outputs, logged_snoc]
      exact hk.append hsends
    · intro L hL
      rcases accepted_of_link hc hsends hL with hold | ⟨h, htaken, htake, hnumbers⟩
      · obtain ⟨pre, d, post, h, hes, hat⟩ := htook L hold
        exact ⟨pre, d, post ++ [e], h, by rw [hes, List.append_assoc]; rfl, hat⟩
      · exact ⟨es, e, [], h, rfl, htaken, htake, hnumbers⟩

end Accepted

/-- What a receiver can rely on when the DATA packets begin with the number `first`. -/
structure Streams (input : InputFile) (first : Nat) (sends : List (Send Addr)) : Prop where
  wellFormed : ∀ o ∈ sends, o.data.length ≤ maxPacketSize ∧
    ∃ h payload, parsePacket o.data = .ok (h, payload)
  data : ∀ o ∈ sends, ∀ h payload, parsePacket o.data = .ok (h, payload) → h.flags = flagData →
    first ≤ h.seqNum.toNat ∧
      ∃ chunk, (content input)[h.seqNum.toNat - first]? = some chunk ∧ payload = chunk.val
  /-- no number is left out -/
  inOrder : ∀ pre o post, sends = pre ++ o :: post → ∀ h payload,
    parsePacket o.data = .ok (h, payload) → h.flags = flagData →
    ∀ n, first ≤ n → n < h.seqNum.toNat → ∃ o' ∈ pre, IsNumber n o'
  /-- a FIN comes behind the whole input and bears the number behind the last chunk -/
  fin : ∀ pre o post, sends = pre ++ o :: post → ∀ h payload,
    parsePacket o.data = .ok (h, payload) → h.flags = flagFin →
    h.seqNum = UInt32.ofNat (first + (content input).length) ∧
    ∀ j < (content input).length, ∃ o' ∈ pre, IsNumber (first + j) o'

theorem streams_of_conforms {input : InputFile} {sends : List (Send Addr)} {k : ClientDialogue}
    {first : Nat} (hk : Conforms (Uttered (Utters input)) .silent sends k)
    (hfirst : ∀ L, k.link = some L → first = L.isn.toNat + 1) : Streams input first sends := by
  have hnum := numbered_of_conforms hk
  -- where a packet stands in the conversation
  have hplace {pre post : List (Send Addr)} {o : Send Addr} (hs : sends = pre ++ o :: post) :
      ∃ m m' msg, Conforms (Uttered (Utters input)) .silent pre m ∧
        Conforms (Uttered (Utters input)) m' post k ∧ o.data = msg.bytes ∧
        msg.payload.length ≤ maxPacketSize - headerSize ∧ Utters input m msg m' := by
    rw [hs] at hk
    obtain ⟨m, m', hpre, ⟨msg, hdata, hlen, hm⟩, hpost⟩ := hk.split
    exact ⟨m, m', msg, hpre, hpost, hdata, hlen, hm⟩
  have hread {o : Send Addr} {msg : Message} (hdata : o.data = msg.bytes)
      (hlen : msg.payload.length ≤ maxPacketSize - headerSize) {h : RDTHeader}
      {payload : List UInt8} (hparse : parsePacket o.data = .ok (h, payload)) :
      msg.Read h payload := by
    rw [hdata] at hparse
    exact Message.parsed hlen hparse
  have hbefore {pre : List (Send Addr)} {m : ClientDialogue} {L : Link}
      (hpre : Conforms (Uttered (Utters input)) .silent pre m) (hL : m.link = some L)
      (hfst : first = L.isn.toNat + 1) {j : Nat} (hj : j < m.sent) :
      ∃ o' ∈ pre, IsNumber (first + j) o' := by
    have hroom := (numbered_of_conforms hpre L hL).2
    obtain ⟨o', ho', chunk, _, hdata⟩ := sent_of_conforms hpre hL (Nat.zero_le j) hj
    refine ⟨o', ho', ?_⟩
    rw [hfst]
    exact isNumber_of_data (by omega) hdata
  refine ⟨?_, ?_, ?_, ?_⟩
  · intro o ho
    obtain ⟨pre, post, hs⟩ := List.append_of_mem ho
    obtain ⟨_, _, msg, _, _, hdata, hlen, _⟩ := hplace hs
    obtain ⟨h, hparse, _⟩ := msg.parse hlen
    rw [hdata]
    exact ⟨encode_length _ _ _ _ _ hlen, h, _, hparse⟩
  · intro o ho h payload hparse hf
    obtain ⟨pre, post, hs⟩ := List.append_of_mem ho
    obtain ⟨m, m', msg, _, hpost, hdata, hlen, hm⟩ := hplace hs
    have hr := hread hdata hlen hparse
    obtain ⟨L, j, chunk, hL, _, hj, hchunk, rfl⟩ := hm.data_of (hr.flags.symm.trans hf)
    have hkL := link_of_conforms hpost hL
    obtain ⟨hin, hroom⟩ := hnum L hkL
    have hm'k := sent_le_of_conforms hpost
    have hseq : h.seqNum.toNat = L.isn.toNat + (1 + j) := by
      rw [hr.seqNum]
      exact L.num_toNat (by omega)
    rw [hfirst L hkL, hseq]
    refine ⟨by omega, chunk, ?_, hr.payload⟩
    rw [show L.isn.toNat + (1 + j) - (L.isn.toNat + 1) = j by omega, ← hin]
    exact hchunk
  · intro pre o post hs h payload hparse hf n hn hlt
    obtain ⟨m, m', msg, hpre, hpost, hdata, hlen, hm⟩ := hplace hs
    have hr := hread hdata hlen hparse
    obtain ⟨L, j, chunk, hL, hjm, hj, _, rfl⟩ := hm.data_of (hr.flags.symm.trans hf)
    have hkL := link_of_conforms hpost hL
    have hfst := hfirst L hkL
    obtain ⟨_, hroom⟩ := hnum L hkL
    have hm'k := sent_le_of_conforms hpost
    have hseq : h.seqNum.toNat = L.isn.toNat + (1 + j) := by
      rw [hr.seqNum]
      exact L.num_toNat (by omega)
    have hmL := hm.link_of_data (hr.flags.symm.trans hf) hL
    obtain ⟨o', ho', hnumber⟩ := hbefore hpre hmL hfst (j := n - first) (by omega)
    rw [show first + (n - first) = n by omega] at hnumber
    exact ⟨o', ho', hnumber⟩
  · intro pre o post hs h payload hparse hf
    obtain ⟨m, m', msg, hpre, hpost, hdata, hlen, hm⟩ := hplace hs
    have hr := hread hdata hlen hparse
    obtain ⟨L, hmL, hL, hall, rfl⟩ := hm.fin_of (hr.flags.symm.trans hf)
    have hkL := link_of_conforms hpost hL
    have hsize : L.size = (content input).length := by
      rw [Link.size, Link.chunks, (hnum L hkL).1]
    constructor
    · rw [hr.seqNum, hfirst L hkL, ← hsize, Nat.add_assoc]
      rfl
    · intro j hj
      apply hbefore hpre hmL (hfirst L hkL)
      rw [hall, hsize]
      exact hj

/-- The client reads its input into its packets in one way only, whoever else sends to it: no two
payloads under one number, no number left out, no FIN before the last chunk and none with another
number than the one behind it. -/
theorem client_streams (config : AppConfig) (serverAddr : Addr) (startMs : UInt64)
    (input : InputFile) (es : List (Env Addr)) :
    ∃ first ≤ moduler, Streams input first
      (outputs (Client.step config) (Client.init serverAddr startMs input) es) := by
  obtain ⟨k, hk, _⟩ := outputs_conform (fun _ _ e h => Converses.step h config e)
    (Converses.init serverAddr startMs input) es
  cases hL : k.link with
  | none =>
    refine ⟨0, Nat.zero_le _, streams_of_conforms hk ?_⟩
    rw [hL]
    exact nofun
  | some L =>
    refine ⟨L.isn.toNat + 1, L.isn_lt, streams_of_conforms hk ?_⟩
    intro L' hL'
    rw [Option.some.inj (hL.symm.trans hL')]

end ReliableUdp
