import ReliableUdp.Sender.Window

namespace ReliableUdp

theorem UInt32.toNat_succ (x : UInt32) (h : x.toNat + 1 < 2 ^ 32) :
    (x + 1).toNat = x.toNat + 1 := by
  rw [UInt32.toNat_add]
  exact Nat.mod_eq_of_lt h

/-- The wire image of `chunk` under sequence number `seq`. -/
def dataPacket (connection : ConnectionState) (seq : Nat) (chunk : Chunk) : List UInt8 :=
  encode (UInt32.ofNat seq) connection.ackNum connection.connId flagData chunk.val

/-- The slot holds packet number `seq` with content `chunk`; bytes behind the content are left
over from earlier packets. -/
structure WindowPacket.Carries (connection : ConnectionState) (seq : Nat) (chunk : Chunk)
    (p : WindowPacket) : Prop where
  header : p.header = ⟨UInt32.ofNat seq, connection.ackNum, connection.connId, 0,
    UInt16.ofNat chunk.val.length, flagData⟩
  payloadLen : p.payloadLen = UInt16.ofNat chunk.val.length
  payload : p.payload.take chunk.val.length = chunk.val

/-- The window state stands for the list `sent` of all chunks read so far, numbered from `s0` on:
the last `windowSize` of them are stored, those from `base` on are waiting. -/
structure GBNSenderState.Represents (s0 : Nat) (connection : ConnectionState) (sent : List Chunk)
    (state : GBNSenderState) : Prop where
  next : state.nextseqnum.toNat = s0 + sent.length
  lower : s0 ≤ state.base.toNat
  upper : state.base.toNat ≤ state.nextseqnum.toNat
  fits : state.nextseqnum.toNat ≤ state.base.toNat + windowSize
  stores : RingBuffer.Stores
    (fun s p => ∃ chunk, sent[s - s0]? = some chunk ∧ p.Carries connection s chunk)
    s0 state.nextseqnum.toNat state.buffer
  occupied : RingBuffer.Occupied (fun p => p.isValid = true)
    state.base.toNat state.nextseqnum.toNat state.buffer

variable {Addr : Type}

/-- The `sendto` calls for `chunks` under the numbers from `seq` on. -/
def dataSends (e : Env Addr) (addr : Addr) (connection : ConnectionState) :
    Nat → List Chunk → List (Send Addr)
  | _, [] => []
  | seq, chunk :: chunks =>
    ⟨addr, dataPacket connection seq chunk, e.sendto (UInt32.ofNat seq)⟩ ::
      dataSends e addr connection (seq + 1) chunks

theorem mem_dataSends {e : Env Addr} {addr : Addr} {connection : ConnectionState} {seq : Nat}
    {chunks : List Chunk} {o : Send Addr} (h : o ∈ dataSends e addr connection seq chunks) :
    o.dst = addr ∧ ∃ i chunk, chunks[i]? = some chunk ∧
      o.data = dataPacket connection (seq + i) chunk := by
  induction chunks generalizing seq with
  | nil => simp [dataSends] at h
  | cons chunk chunks ih =>
    rcases List.mem_cons.mp h with rfl | h
    · exact ⟨rfl, 0, chunk, rfl, rfl⟩
    · obtain ⟨ha, i, c, hc, hd⟩ := ih h
      refine ⟨ha, i + 1, c, by simpa using hc, ?_⟩
      rw [hd, Nat.add_right_comm, Nat.add_assoc]

theorem Chunk.ofNat_length (chunk : Chunk) :
    (UInt16.ofNat chunk.val.length).toNat = chunk.val.length := by
  have h := chunk.property.2
  simp only [maxPacketSize, headerSize] at h
  simp only [UInt16.toNat_ofNat']
  omega

/-- What `send_packet` puts on the wire for a stored packet. -/
theorem WindowPacket.Carries.sendPacket {connection : ConnectionState} {seq : Nat}
    {chunk : Chunk} {p : WindowPacket} (h : p.Carries connection seq chunk) (e : Env Addr)
    (addr : Addr) :
    sendPacket e addr p.header p.payload p.payloadLen =
      ⟨addr, dataPacket connection seq chunk, e.sendto (UInt32.ofNat seq)⟩ := by
  have hlen := chunk.ofNat_length
  have hfit : chunk.val.length ≤ p.payload.length := by
    have hl := congrArg List.length h.payload
    rw [List.length_take] at hl
    omega
  rw [ReliableUdp.sendPacket, h.payloadLen,
    buildPacket_eq_encode _ _ _ (by rw [hlen]; exact hfit), hlen, h.payload, h.header]
  rfl

theorem GBNSenderState.Represents.start (s0 : UInt32) (connection : ConnectionState) :
    (GBNSenderState.start s0).Represents s0.toNat connection [] where
  next := rfl
  lower := Nat.le_refl _
  upper := Nat.le_refl _
  fits := Nat.le_add_right _ _
  stores := RingBuffer.Stores.empty _ _ _
  occupied := by
    intro i
    constructor
    · intro h; exact absurd h (by simp [GBNSenderState.start])
    · intro h
      obtain ⟨s, h1, h2, _⟩ := h
      exact absurd h2 (Nat.not_lt.mpr h1)

section Fill

variable (e : Env Addr) (addr : Addr) {connection : ConnectionState} {s0 : Nat}
  {sent : List Chunk} {state : GBNSenderState}

theorem fillSlot_carries (connection : ConnectionState) (state : GBNSenderState) (chunk : Chunk) :
    ((fillSlot e connection state chunk).buffer (slot state.nextseqnum)).Carries connection
      state.nextseqnum.toNat chunk where
  header := by simp [fillSlot]
  payloadLen := by simp [fillSlot]
  payload := by simp [fillSlot, overwrite]

/-- One round of the fill loop appends the chunk it read. -/
theorem GBNSenderState.Represents.fillSlot (h : state.Represents s0 connection sent)
    (hroom : state.nextseqnum.toNat < state.base.toNat + windowSize)
    (hmax : state.nextseqnum.toNat + 1 < 2 ^ 32) (chunk : Chunk) :
    (advance (ReliableUdp.fillSlot e connection state chunk)).Represents s0 connection
      (sent ++ [chunk]) := by
  have hsucc := UInt32.toNat_succ state.nextseqnum hmax
  have hnext := h.next
  have hlower := h.lower
  have hupper := h.upper
  have hpacket := fillSlot_carries e connection state chunk
  simp only [ReliableUdp.fillSlot, Function.update_self] at hpacket
  refine ⟨?_, h.lower, ?_, ?_, ?_, ?_⟩
  · simp only [advance, ReliableUdp.fillSlot, List.length_append, List.length_singleton]
    omega
  · simp only [advance, ReliableUdp.fillSlot]
    omega
  · simp only [advance, ReliableUdp.fillSlot]
    omega
  · simp only [advance, ReliableUdp.fillSlot, hsucc]
    apply RingBuffer.Stores.push
    · refine h.stores.congr (fun s p hp => ?_)
      obtain ⟨c, hc, hcar⟩ := hp
      have hlt : s - s0 < sent.length := (List.getElem?_eq_some_iff.mp hc).1
      exact ⟨c, by rw [List.getElem?_append_left hlt, hc], hcar⟩
    · refine ⟨chunk, ?_, hpacket⟩
      rw [hnext, Nat.add_sub_cancel_left, List.getElem?_append_right (Nat.le_refl _)]
      simp
  · simp only [advance, ReliableUdp.fillSlot, hsucc]
    exact h.occupied.push h.upper rfl

/-- How a fill ends: with a full window, at the end of the file or at a read error. -/
inductive FillEnd (rest : InputFile) (r : FillResult Addr) : Prop where
  | full (result : r.result = 0) (file : r.file = rest)
      (next : r.state.nextseqnum.toNat = r.state.base.toNat + windowSize)
  | eof (result : r.result = 1) (file : readChunk rest = (.eof, r.file))
      (room : r.state.nextseqnum.toNat < r.state.base.toNat + windowSize)
  | error (result : r.result = -exIoErr) (file : readChunk rest = (.error, r.file))

/-- The outcome of a fill: the chunks it read are appended and each is sent once. -/
structure FillOutcome (s0 : Nat) (connection : ConnectionState) (sent : List Chunk)
    (state : GBNSenderState) (file : InputFile) (chunks : List Chunk) (rest : InputFile)
    (r : FillResult Addr) : Prop where
  read : file = chunks.map .bytes ++ rest
  represents : r.state.Represents s0 connection (sent ++ chunks)
  base : r.state.base = state.base
  sends : r.sends = dataSends e addr connection state.nextseqnum.toNat chunks
  ended : FillEnd rest r

theorem fillLoop_outcome (n : Nat) (file : InputFile)
    (h : state.Represents s0 connection sent)
    (hn : state.nextseqnum.toNat + n = state.base.toNat + windowSize)
    (hmax : state.base.toNat + windowSize < 2 ^ 32) :
    ∃ chunks rest, FillOutcome e addr s0 connection sent state file chunks rest
      (fillLoop e addr connection n state file) := by
  induction n generalizing state sent file with
  | zero =>
    refine ⟨[], file, rfl, ?_, rfl, rfl, .full rfl rfl hn⟩
    simpa [fillLoop] using h
  | succ n ih =>
    match file with
    | [] =>
      refine ⟨[], [], rfl, ?_, rfl, rfl, .eof rfl rfl ?_⟩
      · simpa [fillLoop, readChunk] using h
      · simp only [fillLoop, readChunk]
        omega
    | .eof :: file =>
      refine ⟨[], .eof :: file, rfl, ?_, rfl, rfl, .eof rfl rfl ?_⟩
      · simpa [fillLoop, readChunk] using h
      · simp only [fillLoop, readChunk]
        omega
    | .error :: file =>
      refine ⟨[], .error :: file, rfl, ?_, rfl, rfl, .error rfl rfl⟩
      simpa [fillLoop, readChunk] using h
    | .bytes chunk :: file =>
      have hroom : state.nextseqnum.toNat < state.base.toNat + windowSize := by omega
      have hsucc := UInt32.toNat_succ state.nextseqnum (by omega)
      have hstep := h.fillSlot e hroom (by omega) chunk
      obtain ⟨chunks, rest, hread, hrep, hbase, hsends, hend⟩ := ih file hstep
        (by simp only [advance, fillSlot, hsucc]; omega) hmax
      refine ⟨chunk :: chunks, rest, ?_, ?_, ?_, ?_, ?_⟩
      · simp [hread]
      · simpa [fillLoop, readChunk] using hrep
      · exact hbase
      · have hcar := (fillSlot_carries e connection state chunk).sendPacket
          e addr
        have hnext : (advance (fillSlot e connection state chunk)).nextseqnum.toNat =
            state.nextseqnum.toNat + 1 := hsucc
        simp only [fillLoop, readChunk, dataSends, hcar, hsends, hnext]
      · cases hend with
        | full h1 h2 h3 => exact .full h1 h2 h3
        | eof h1 h2 h3 => exact .eof h1 h2 h3
        | error h1 h2 => exact .error h1 h2

theorem windowLimit_toNat {base : UInt32} (hmax : base.toNat + windowSize < 2 ^ 32) :
    (base + UInt32.ofNat windowSize).toNat = base.toNat + windowSize := by
  rw [UInt32.toNat_add, show (UInt32.ofNat windowSize).toNat = windowSize from rfl]
  exact Nat.mod_eq_of_lt hmax

theorem gbnFillAndSendWindow_outcome (file : InputFile)
    (h : state.Represents s0 connection sent)
    (hmax : state.base.toNat + windowSize < 2 ^ 32) :
    ∃ chunks rest, FillOutcome e addr s0 connection sent state file chunks rest
      (gbnFillAndSendWindow e addr connection state file) := by
  have hlimit := windowLimit_toNat hmax
  have hfits := h.fits
  exact fillLoop_outcome e addr _ file h (by rw [hlimit]; omega) hmax

/-- A fill writes to the slots of the numbers it hands out and to no others. -/
theorem fillLoop_frame (e : Env Addr) (addr : Addr) (connection : ConnectionState) (n : Nat)
    (state : GBNSenderState) (file : InputFile) (hmax : state.nextseqnum.toNat + n < 2 ^ 32) :
    state.nextseqnum.toNat ≤ (fillLoop e addr connection n state file).state.nextseqnum.toNat ∧
    ∀ i, (fillLoop e addr connection n state file).state.buffer i ≠ state.buffer i →
      ∃ q, state.nextseqnum.toNat ≤ q ∧
        q < (fillLoop e addr connection n state file).state.nextseqnum.toNat ∧
        RingBuffer.index windowSize q = i := by
  induction n generalizing state file with
  | zero => exact ⟨Nat.le_refl _, fun i h => absurd rfl h⟩
  | succ n ih =>
    match file with
    | [] => exact ⟨Nat.le_refl _, fun i h => absurd rfl h⟩
    | .eof :: file => exact ⟨Nat.le_refl _, fun i h => absurd rfl h⟩
    | .error :: file => exact ⟨Nat.le_refl _, fun i h => absurd rfl h⟩
    | .bytes chunk :: file =>
      have hsucc : (advance (fillSlot e connection state chunk)).nextseqnum.toNat =
          state.nextseqnum.toNat + 1 := UInt32.toNat_succ state.nextseqnum (by omega)
      obtain ⟨hle, hframe⟩ := ih (advance (fillSlot e connection state chunk)) file
        (by rw [hsucc]; omega)
      rw [hsucc] at hle hframe
      simp only [fillLoop, readChunk]
      refine ⟨by omega, fun i hi => ?_⟩
      by_cases hslot : i = slot state.nextseqnum
      · exact ⟨state.nextseqnum.toNat, Nat.le_refl _, by omega, hslot.symm⟩
      · have hsame : (advance (fillSlot e connection state chunk)).buffer i = state.buffer i :=
          Function.update_of_ne hslot _ _
        obtain ⟨q, h1, h2, h3⟩ := hframe i (by rw [hsame]; exact hi)
        exact ⟨q, by omega, h2, h3⟩

/-- A fill starts the timer only when nothing has been waiting. -/
theorem fillLoop_timer (e : Env Addr) (addr : Addr) (connection : ConnectionState) (n : Nat)
    (state : GBNSenderState) (file : InputFile)
    (hle : state.base.toNat ≤ state.nextseqnum.toNat) (hmax : state.nextseqnum.toNat + n < 2 ^ 32) :
    (fillLoop e addr connection n state file).state.windowTimerMs = state.windowTimerMs ∨
    state.base = state.nextseqnum ∧
      (fillLoop e addr connection n state file).state.windowTimerMs = e.fillMs := by
  induction n generalizing state file with
  | zero => exact Or.inl rfl
  | succ n ih =>
    match file with
    | [] => exact Or.inl rfl
    | .eof :: file => exact Or.inl rfl
    | .error :: file => exact Or.inl rfl
    | .bytes chunk :: file =>
      have hsucc : (advance (fillSlot e connection state chunk)).nextseqnum.toNat =
          state.nextseqnum.toNat + 1 := UInt32.toNat_succ state.nextseqnum (by omega)
      have hbase : (advance (fillSlot e connection state chunk)).base = state.base := rfl
      have htimer : (advance (fillSlot e connection state chunk)).windowTimerMs =
          if state.base = state.nextseqnum then e.fillMs else state.windowTimerMs := rfl
      simp only [fillLoop, readChunk]
      rcases ih (advance (fillSlot e connection state chunk)) file (by rw [hsucc, hbase]; omega)
        (by rw [hsucc]; omega) with h | ⟨h, _⟩
      · rw [h, htimer]
        split_ifs with hempty
        · exact Or.inr ⟨hempty, rfl⟩
        · exact Or.inl rfl
      · have heq := congrArg UInt32.toNat h
        rw [hsucc, hbase] at heq
        omega

theorem gbnFillAndSendWindow_timer (file : InputFile) (h : state.Represents s0 connection sent)
    (hmax : state.base.toNat + windowSize < 2 ^ 32) :
    (gbnFillAndSendWindow e addr connection state file).state.windowTimerMs =
      state.windowTimerMs ∨
    state.base = state.nextseqnum ∧
      (gbnFillAndSendWindow e addr connection state file).state.windowTimerMs = e.fillMs := by
  have hlimit := windowLimit_toNat hmax
  have hfits := h.fits
  exact fillLoop_timer e addr connection _ state file h.upper (by rw [hlimit]; omega)

/-- A fill hands out no number beyond the window. -/
theorem gbnFillAndSendWindow_frame {file : InputFile} (h : state.Represents s0 connection sent)
    (hmax : state.base.toNat + windowSize < 2 ^ 32) {i : Fin windowSize}
    (hi : (gbnFillAndSendWindow e addr connection state file).state.buffer i ≠ state.buffer i) :
    ∃ q, state.nextseqnum.toNat ≤ q ∧ q < state.base.toNat + windowSize ∧
      RingBuffer.index windowSize q = i := by
  have hlimit := windowLimit_toNat hmax
  have hfits := h.fits
  obtain ⟨chunks, rest, hout⟩ := gbnFillAndSendWindow_outcome e addr file h hmax
  have hend := hout.represents.fits
  rw [hout.base] at hend
  obtain ⟨_, hframe⟩ := fillLoop_frame e addr connection _ state file
    (by rw [hlimit]; omega : state.nextseqnum.toNat +
      ((state.base + UInt32.ofNat windowSize).toNat - state.nextseqnum.toNat) < 2 ^ 32)
  obtain ⟨q, hq, hlt, hslot⟩ := hframe i hi
  exact ⟨q, hq, hlt.trans_le hend, hslot⟩

/-- Close to the top of the number range the limit of the loop wraps around and nothing is read. -/
theorem gbnFillAndSendWindow_wrapped (file : InputFile) (h : state.Represents s0 connection sent)
    (hmax : 2 ^ 32 ≤ state.base.toNat + windowSize) :
    gbnFillAndSendWindow e addr connection state file = ⟨state, file, 0, []⟩ := by
  have hlt := state.base.toNat_lt
  have hupper := h.upper
  have hlimit : (state.base + UInt32.ofNat windowSize).toNat =
      state.base.toNat + windowSize - 2 ^ 32 := by
    rw [UInt32.toNat_add, show (UInt32.ofNat windowSize).toNat = windowSize from rfl]
    simp only [windowSize] at hmax ⊢
    omega
  have hzero : state.base.toNat + windowSize - 2 ^ 32 - state.nextseqnum.toNat = 0 := by
    simp only [windowSize] at hmax ⊢
    omega
  rw [gbnFillAndSendWindow, hlimit, hzero, fillLoop]

end Fill

section Retransmit

variable (e : Env Addr) (addr : Addr) {connection : ConnectionState} {s0 : Nat}
  {sent : List Chunk} {state : GBNSenderState}

theorem retransmitLoop_eq (seq : UInt32) (chunks : List Chunk)
    (hmax : seq.toNat + chunks.length < 2 ^ 32)
    (hslots : ∀ i chunk, chunks[i]? = some chunk →
      (state.buffer (RingBuffer.index windowSize (seq.toNat + i))).isValid = true ∧
      (state.buffer (RingBuffer.index windowSize (seq.toNat + i))).Carries connection
        (seq.toNat + i) chunk) :
    retransmitLoop e addr state chunks.length seq =
      dataSends e addr connection seq.toNat chunks := by
  induction chunks generalizing seq with
  | nil => rfl
  | cons chunk chunks ih =>
    simp only [List.length_cons] at hmax
    have hsucc := UInt32.toNat_succ seq (by omega)
    obtain ⟨hvalid, hcar⟩ := hslots 0 chunk rfl
    have hrest := ih (seq + 1) (by omega) (fun i c hc => by
      have := hslots (i + 1) c (by simpa using hc)
      rwa [hsucc, Nat.add_assoc, Nat.add_comm 1 i])
    simp only [Nat.add_zero] at hvalid hcar
    simp only [List.length_cons, retransmitLoop, dataSends, slot, hvalid, if_true,
      hcar.sendPacket, hrest, hsucc]

/-- A retransmission sends the waiting packets once each, in order. -/
theorem gbnRetransmitWindow_sends (h : state.Represents s0 connection sent) :
    (gbnRetransmitWindow e addr state).2 =
      dataSends e addr connection state.base.toNat (sent.drop (state.base.toNat - s0)) := by
  have hnext := h.next
  have hlower := h.lower
  have hupper := h.upper
  have hfits := h.fits
  have hlen : (sent.drop (state.base.toNat - s0)).length =
      state.nextseqnum.toNat - state.base.toNat := by
    rw [List.length_drop]
    omega
  unfold gbnRetransmitWindow
  split_ifs with he
  · have hnil : sent.drop (state.base.toNat - s0) = [] := by
      apply List.eq_nil_of_length_eq_zero
      rw [hlen, he, Nat.sub_self]
    rw [hnil]
    rfl
  · rw [← hlen]
    have hlt := state.nextseqnum.toNat_lt
    apply retransmitLoop_eq
    · omega
    · intro i chunk hc
      have hi : i < state.nextseqnum.toNat - state.base.toNat := by
        rw [← hlen]; exact (List.getElem?_eq_some_iff.mp hc).1
      refine ⟨h.occupied.mem (by omega) (by omega), ?_⟩
      obtain ⟨c, hc', hcar⟩ := h.stores (state.base.toNat + i) (by omega) (by omega) (by omega)
      rw [List.getElem?_drop] at hc
      have he' : state.base.toNat - s0 + i = state.base.toNat + i - s0 := by omega
      rw [he', hc'] at hc
      exact Option.some.inj hc ▸ hcar

theorem gbnRetransmitWindow_state (state : GBNSenderState) :
    ∃ timer, (gbnRetransmitWindow e addr state).1 = { state with windowTimerMs := timer } := by
  unfold gbnRetransmitWindow
  split_ifs
  · exact ⟨state.windowTimerMs, rfl⟩
  · exact ⟨e.restartMs, rfl⟩

/-- The timer is no part of what the window stands for. -/
theorem GBNSenderState.Represents.timer (h : state.Represents s0 connection sent)
    (timer : UInt64) : GBNSenderState.Represents s0 connection sent
      { state with windowTimerMs := timer } :=
  ⟨h.next, h.lower, h.upper, h.fits, h.stores, h.occupied⟩

end Retransmit

section Ack

/-- Clearing a flag that is not set changes nothing, so both branches of a round agree. -/
theorem ackLoop_succ (n : Nat) (seq : UInt32) (buffer : Fin windowSize → WindowPacket)
    (ackedNew : Bool) :
    ackLoop (n + 1) seq buffer ackedNew =
      ackLoop n (seq + 1)
        (Function.update buffer (slot seq) { buffer (slot seq) with isValid := false })
        (ackedNew || (buffer (slot seq)).isValid) := by
  cases hv : (buffer (slot seq)).isValid with
  | true => simp [ackLoop, hv]
  | false =>
    have hsame : ({ buffer (slot seq) with isValid := false } : WindowPacket) =
        buffer (slot seq) := by
      cases hb : buffer (slot seq)
      simp_all
    simp [ackLoop, hv, hsame]

theorem ackLoop_keeps (n : Nat) (seq : UInt32) (buffer : Fin windowSize → WindowPacket)
    (ackedNew : Bool) (hmax : seq.toNat + n < 2 ^ 32) {i : Fin windowSize}
    (hno : ¬ ∃ s, seq.toNat ≤ s ∧ s < seq.toNat + n ∧ RingBuffer.index windowSize s = i) :
    (ackLoop n seq buffer ackedNew).1 i = buffer i := by
  induction n generalizing seq buffer ackedNew with
  | zero => rfl
  | succ n ih =>
    have hsucc := UInt32.toNat_succ seq (by omega)
    have hi : i ≠ slot seq := fun hi => hno ⟨seq.toNat, by omega, by omega, hi.symm⟩
    rw [ackLoop_succ, ih (seq + 1) _ _ (by omega), Function.update_of_ne hi]
    intro hlater
    obtain ⟨s, h1, h2, h3⟩ := hlater
    exact hno ⟨s, by omega, by omega, h3⟩

/-- The loop clears the flags of its range of slots. -/
theorem ackLoop_clears (n : Nat) (seq : UInt32) (buffer : Fin windowSize → WindowPacket)
    (ackedNew : Bool) (hmax : seq.toNat + n < 2 ^ 32) {i : Fin windowSize}
    (hocc : ∃ s, seq.toNat ≤ s ∧ s < seq.toNat + n ∧ RingBuffer.index windowSize s = i) :
    (ackLoop n seq buffer ackedNew).1 i = { buffer i with isValid := false } := by
  induction n generalizing seq buffer ackedNew with
  | zero =>
    obtain ⟨s, h1, h2, _⟩ := hocc
    omega
  | succ n ih =>
    have hsucc := UInt32.toNat_succ seq (by omega)
    rw [ackLoop_succ]
    by_cases hlater : ∃ s, (seq + 1).toNat ≤ s ∧ s < (seq + 1).toNat + n ∧
        RingBuffer.index windowSize s = i
    · rw [ih (seq + 1) _ _ (by omega) hlater]
      by_cases hi : i = slot seq
      · rw [hi, Function.update_self]
      · rw [Function.update_of_ne hi]
    · obtain ⟨s, h1, h2, h3⟩ := hocc
      have hs : s = seq.toNat := by
        by_contra hne
        exact hlater ⟨s, by omega, by omega, h3⟩
      have hi : i = slot seq := by rw [← h3, hs]; rfl
      rw [ackLoop_keeps n (seq + 1) _ _ (by omega) hlater, hi, Function.update_self]

/-- What the loop does to the slots of the numbers from `seq` up to `last`, and to all others. -/
theorem ackLoop_upTo {seq last : UInt32} (hle : seq.toNat ≤ last.toNat)
    (buffer : Fin windowSize → WindowPacket) (ackedNew : Bool) :
    (∀ i, (∃ s, seq.toNat ≤ s ∧ s < last.toNat ∧ RingBuffer.index windowSize s = i) →
      (ackLoop (last.toNat - seq.toNat) seq buffer ackedNew).1 i =
        { buffer i with isValid := false }) ∧
    (∀ i, (¬ ∃ s, seq.toNat ≤ s ∧ s < last.toNat ∧ RingBuffer.index windowSize s = i) →
      (ackLoop (last.toNat - seq.toNat) seq buffer ackedNew).1 i = buffer i) := by
  have hlt := last.toNat_lt
  have hsum : seq.toNat + (last.toNat - seq.toNat) = last.toNat := by omega
  constructor
  · intro i hocc
    rw [← hsum] at hocc
    exact ackLoop_clears _ seq buffer ackedNew (by omega) hocc
  · intro i hno
    rw [← hsum] at hno
    exact ackLoop_keeps _ seq buffer ackedNew (by omega) hno

/-- The loop reports whether one of the flags was set. -/
theorem ackLoop_reports (n : Nat) (seq : UInt32) (buffer : Fin windowSize → WindowPacket)
    (ackedNew : Bool) (hmax : seq.toNat + n < 2 ^ 32) :
    (ackLoop n seq buffer ackedNew).2 = true ↔ ackedNew = true ∨
      ∃ s, seq.toNat ≤ s ∧ s < seq.toNat + n ∧
        (buffer (RingBuffer.index windowSize s)).isValid = true := by
  induction n generalizing seq buffer ackedNew with
  | zero =>
    constructor
    · exact Or.inl
    · intro hslot
      rcases hslot with h | ⟨s, h1, h2, _⟩
      · exact h
      · omega
  | succ n ih =>
    have hsucc := UInt32.toNat_succ seq (by omega)
    rw [ackLoop_succ, ih (seq + 1) _ _ (by omega), hsucc, Bool.or_eq_true]
    constructor
    · intro hslot
      rcases hslot with (h | h) | ⟨s, h1, h2, h3⟩
      · exact Or.inl h
      · exact Or.inr ⟨seq.toNat, by omega, by omega, h⟩
      · refine Or.inr ⟨s, by omega, by omega, ?_⟩
        by_cases hi : RingBuffer.index windowSize s = slot seq
        · rw [hi, Function.update_self] at h3
          exact Bool.noConfusion h3
        · rwa [Function.update_of_ne hi] at h3
    · intro hslot
      rcases hslot with h | ⟨s, h1, h2, h3⟩
      · exact Or.inl (Or.inl h)
      · by_cases hi : RingBuffer.index windowSize s = slot seq
        · exact Or.inl (Or.inr (hi ▸ h3))
        · refine Or.inr ⟨s, ?_, by omega, by rwa [Function.update_of_ne hi]⟩
          by_contra hlt
          exact hi (by rw [show s = seq.toNat by omega]; rfl)

variable {connection : ConnectionState} {s0 : Nat} {sent : List Chunk} {state : GBNSenderState}

theorem gbnProcessAck_outside (ackNum : UInt32)
    (ha : ¬ (state.base < ackNum ∧ ackNum ≤ state.nextseqnum)) :
    gbnProcessAck state ackNum = (state, false) := by
  have hcond : ackNum ≤ state.base ∨ ackNum > state.nextseqnum := by
    by_contra hno
    rw [not_or, UInt32.not_le, UInt32.not_lt] at hno
    exact ha hno
  rw [gbnProcessAck, if_pos hcond]

/-- A number inside the window moves `base` there and frees exactly the slots it passes. -/
theorem gbnProcessAck_inside (h : state.Represents s0 connection sent) (ackNum : UInt32)
    (hlo : state.base < ackNum) (hhi : ackNum ≤ state.nextseqnum) :
    (gbnProcessAck state ackNum).2 = true ∧
    (gbnProcessAck state ackNum).1.base = ackNum ∧
    (gbnProcessAck state ackNum).1.nextseqnum = state.nextseqnum ∧
    (gbnProcessAck state ackNum).1.windowTimerMs = state.windowTimerMs ∧
    (gbnProcessAck state ackNum).1.Represents s0 connection sent := by
  have hcond : ¬ (ackNum ≤ state.base ∨ ackNum > state.nextseqnum) := by
    rw [not_or, UInt32.not_le, UInt32.not_lt]
    exact ⟨hlo, hhi⟩
  have hlo' : state.base.toNat < ackNum.toNat := UInt32.lt_iff_toNat_lt.mp hlo
  have hhi' : ackNum.toNat ≤ state.nextseqnum.toNat := UInt32.le_iff_toNat_le.mp hhi
  have hlower := h.lower
  have hfits := h.fits
  have hsum : state.base.toNat + (ackNum.toNat - state.base.toNat) = ackNum.toNat := by omega
  have hlt := ackNum.toNat_lt
  have hflag := ackLoop_reports (ackNum.toNat - state.base.toNat) state.base state.buffer false
    (by omega)
  rw [hsum] at hflag
  obtain ⟨hclear, hkeep⟩ := ackLoop_upTo hlo'.le state.buffer false
  rw [gbnProcessAck, if_neg hcond]
  refine ⟨?_, rfl, rfl, rfl, ?_⟩
  · exact hflag.mpr (Or.inr ⟨state.base.toNat, Nat.le_refl _, hlo',
      h.occupied.mem (Nat.le_refl _) (by omega)⟩)
  · have hlower' : s0 ≤ ackNum.toNat := by omega
    have hfits' : state.nextseqnum.toNat ≤ ackNum.toNat + windowSize := by omega
    refine ⟨h.next, hlower', hhi', hfits', ?_, ?_⟩
    · intro s h1 h2 h3
      obtain ⟨c, hc, hcar⟩ := h.stores s h1 h2 h3
      refine ⟨c, hc, ?_⟩
      by_cases hr : ∃ t, state.base.toNat ≤ t ∧ t < ackNum.toNat ∧
          RingBuffer.index windowSize t = RingBuffer.index windowSize s
      · simp only [hclear _ hr]
        exact ⟨hcar.header, hcar.payloadLen, hcar.payload⟩
      · simp only [hkeep _ hr]
        exact hcar
    · exact h.occupied.retire hlo'.le h.fits
        (fun i hr => by simp [hclear i hr]) hkeep

end Ack

end ReliableUdp
