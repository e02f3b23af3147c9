import ReliableUdp.Sender.Representation

namespace ReliableUdp

/-- The chunks among the outcomes of a stream of reads. -/
def chunksOf (file : InputFile) : List Chunk :=
  file.filterMap (fun outcome => match outcome with
    | .bytes chunk => some chunk
    | _ => none)

@[simp] theorem chunksOf_bytes_append (chunks : List Chunk) (rest : InputFile) :
    chunksOf (chunks.map .bytes ++ rest) = chunks ++ chunksOf rest := by
  induction chunks with
  | nil => rfl
  | cons chunk chunks ih => exact congrArg (List.cons chunk) ih

/-- A read that hands out no chunk uses none up. -/
theorem chunksOf_readChunk {rest file : InputFile}
    (h : readChunk rest = (.eof, file) ∨ readChunk rest = (.error, file)) :
    chunksOf file = chunksOf rest := by
  cases rest with
  | nil =>
    rcases h with h | h
    · rw [← (Prod.mk.inj h).2]
    · exact absurd (Prod.mk.inj h).1 (by simp)
  | cons outcome rest =>
    rcases h with h | h
    · obtain ⟨rfl, rfl⟩ := Prod.mk.inj h
      rfl
    · obtain ⟨rfl, rfl⟩ := Prod.mk.inj h
      rfl

/-- A call of one of the window functions, with the answers the system gives it. -/
inductive WindowCall (Addr : Type) where
  | fill (e : Env Addr) (addr : Addr)
  | processAck (ackNum : UInt32)
  | retransmit (e : Env Addr) (addr : Addr)

/-- A sender between two calls; `firstSends` lists what the fills have passed to `sendto`. -/
structure WindowRun where
  state : GBNSenderState
  file : InputFile
  firstSends : List (List UInt8)

variable {Addr : Type}

def WindowRun.call (connection : ConnectionState) (r : WindowRun) : WindowCall Addr → WindowRun
  | .fill e addr =>
    let filled := gbnFillAndSendWindow e addr connection r.state r.file
    ⟨filled.state, filled.file, r.firstSends ++ filled.sends.map Send.data⟩
  | .processAck ackNum => { r with state := (gbnProcessAck r.state ackNum).1 }
  | .retransmit e addr => { r with state := (gbnRetransmitWindow e addr r.state).1 }

/-- The sequence numbers in use leave room for one more window below `2 ^ 32`. -/
def WindowRun.Bounded (r : WindowRun) : Prop :=
  r.state.nextseqnum.toNat < 2 ^ 32 - windowSize

instance (r : WindowRun) : Decidable r.Bounded := inferInstanceAs (Decidable (_ < _))

/-- The states of all finite sequences of calls, as long as the sequence numbers stay bounded. -/
inductive WindowReachable (Addr : Type) (connection : ConnectionState) (s0 : UInt32)
    (input : InputFile) : WindowRun → Prop where
  | start (h : WindowRun.Bounded ⟨.start s0, input, []⟩) :
      WindowReachable Addr connection s0 input ⟨.start s0, input, []⟩
  | call {r : WindowRun} (hr : WindowReachable Addr connection s0 input r) (c : WindowCall Addr)
      (h : (r.call connection c).Bounded) :
      WindowReachable Addr connection s0 input (r.call connection c)

/-- The packets of `chunks` numbered from `seq` on. -/
def packetsFrom (connection : ConnectionState) : Nat → List Chunk → List (List UInt8)
  | _, [] => []
  | seq, chunk :: chunks =>
    dataPacket connection seq chunk :: packetsFrom connection (seq + 1) chunks

@[simp] theorem dataSends_map_data (e : Env Addr) (addr : Addr) (connection : ConnectionState)
    (seq : Nat) (chunks : List Chunk) :
    (dataSends e addr connection seq chunks).map Send.data = packetsFrom connection seq chunks := by
  induction chunks generalizing seq with
  | nil => rfl
  | cons chunk chunks ih => simp [dataSends, packetsFrom, ih]

@[simp] theorem packetsFrom_length (connection : ConnectionState) (seq : Nat)
    (chunks : List Chunk) : (packetsFrom connection seq chunks).length = chunks.length := by
  induction chunks generalizing seq with
  | nil => rfl
  | cons chunk chunks ih => simp [packetsFrom, ih]

theorem packetsFrom_append (connection : ConnectionState) (seq : Nat) (xs ys : List Chunk) :
    packetsFrom connection seq (xs ++ ys) =
      packetsFrom connection seq xs ++ packetsFrom connection (seq + xs.length) ys := by
  induction xs generalizing seq with
  | nil => rfl
  | cons x xs ih =>
    simp only [List.cons_append, packetsFrom, ih, List.length_cons, Nat.add_assoc,
      Nat.add_comm 1]

theorem packetsFrom_drop (connection : ConnectionState) (seq n : Nat) (chunks : List Chunk)
    (hn : n ≤ chunks.length) :
    (packetsFrom connection seq chunks).drop n =
      packetsFrom connection (seq + n) (chunks.drop n) := by
  conv_lhs => rw [← List.take_append_drop n chunks]
  rw [packetsFrom_append, List.length_take, Nat.min_eq_left hn]
  exact List.drop_left' (by simp [hn])

theorem packetsFrom_getElem? (connection : ConnectionState) (seq i : Nat) (chunks : List Chunk) :
    (packetsFrom connection seq chunks)[i]? =
      chunks[i]?.map (dataPacket connection (seq + i)) := by
  induction chunks generalizing seq i with
  | nil => rfl
  | cons chunk chunks ih =>
    cases i with
    | zero => rfl
    | succ i =>
      simp only [packetsFrom, List.getElem?_cons_succ, ih]
      rw [Nat.add_right_comm, Nat.add_assoc]

/-- The run invariant: the state stands for the chunks read so far, each of which went out once. -/
structure WindowRun.Consistent (connection : ConnectionState) (s0 : UInt32) (input : InputFile)
    (sent : List Chunk) (r : WindowRun) : Prop where
  represents : r.state.Represents s0.toNat connection sent
  read : chunksOf input = sent ++ chunksOf r.file
  first : r.firstSends = packetsFrom connection s0.toNat sent
  bounded : r.Bounded

theorem WindowRun.Consistent.room {connection : ConnectionState} {s0 : UInt32}
    {input : InputFile} {sent : List Chunk} {r : WindowRun}
    (h : r.Consistent connection s0 input sent) :
    r.state.base.toNat + windowSize < 2 ^ 32 := by
  have hb := h.bounded
  have hu := h.represents.upper
  simp only [WindowRun.Bounded] at hb
  omega

theorem WindowRun.Consistent.call {connection : ConnectionState} {s0 : UInt32}
    {input : InputFile} {sent : List Chunk} {r : WindowRun}
    (h : r.Consistent connection s0 input sent) (c : WindowCall Addr)
    (hb : (r.call connection c).Bounded) :
    ∃ sent', (r.call connection c).Consistent connection s0 input sent' := by
  cases c with
  | fill e addr =>
    obtain ⟨chunks, rest, hread, hrep, hbase, hsends, hend⟩ :=
      gbnFillAndSendWindow_outcome e addr r.file h.represents h.room
    have hfile : chunksOf r.file =
        chunks ++ chunksOf (gbnFillAndSendWindow e addr connection r.state r.file).file := by
      conv_lhs => rw [hread]
      rw [chunksOf_bytes_append]
      cases hend with
      | full _ hf _ => rw [hf]
      | eof _ hf _ => rw [chunksOf_readChunk (Or.inl hf)]
      | error _ hf => rw [chunksOf_readChunk (Or.inr hf)]
    refine ⟨sent ++ chunks, hrep, ?_, ?_, hb⟩
    · rw [h.read, hfile, List.append_assoc]
      rfl
    · simp only [WindowRun.call, hsends, dataSends_map_data]
      rw [h.first, packetsFrom_append, h.represents.next]
  | processAck ackNum =>
    refine ⟨sent, ?_, h.read, h.first, hb⟩
    by_cases ha : r.state.base < ackNum ∧ ackNum ≤ r.state.nextseqnum
    · exact (gbnProcessAck_inside h.represents ackNum ha.1 ha.2).2.2.2.2
    · simp only [WindowRun.call, gbnProcessAck_outside ackNum ha]
      exact h.represents
  | retransmit e addr =>
    refine ⟨sent, ?_, h.read, h.first, hb⟩
    obtain ⟨timer, ht⟩ := gbnRetransmitWindow_state e addr r.state
    simp only [WindowRun.call, ht]
    exact h.represents.timer timer

theorem WindowReachable.consistent {connection : ConnectionState} {s0 : UInt32}
    {input : InputFile} {r : WindowRun} (hr : WindowReachable Addr connection s0 input r) :
    ∃ sent, r.Consistent connection s0 input sent := by
  induction hr with
  | start h => exact ⟨[], .start s0 connection, rfl, rfl, h⟩
  | call _ c h ih =>
    obtain ⟨sent, hs⟩ := ih
    exact hs.call c h

/-- A slot that waits for the acknowledgement of packet number `seq` of the stream. -/
structure WindowPacket.Waits (connection : ConnectionState) (seq : Nat) (chunk : Chunk)
    (p : WindowPacket) : Prop where
  seqNum : p.header.seqNum.toNat = seq
  flags : p.header.flags = flagData
  ackNum : p.header.ackNum = connection.ackNum
  connId : p.header.connId = connection.connId
  headerLen : p.header.payloadLen = p.payloadLen
  payloadLen : p.payloadLen.toNat = chunk.val.length
  payload : p.payload.take p.payloadLen.toNat = chunk.val
  length : 1 ≤ p.payloadLen.toNat ∧ p.payloadLen.toNat ≤ 1185

/-- What the ring buffer looks like and what the three functions do to it. -/
structure WindowFacts (Addr : Type) (connection : ConnectionState) (s0 : UInt32)
    (input : InputFile) (r : WindowRun) : Prop where
  upper : r.state.base.toNat ≤ r.state.nextseqnum.toNat
  fits : r.state.nextseqnum.toNat ≤ r.state.base.toNat + windowSize
  valid : ∀ i : Fin windowSize, (r.state.buffer i).isValid = true ↔
    ∃ s, r.state.base.toNat ≤ s ∧ s < r.state.nextseqnum.toNat ∧ s % windowSize = i.val
  waits : ∀ s, r.state.base.toNat ≤ s → s < r.state.nextseqnum.toNat →
    ∃ chunk, (chunksOf input)[s - s0.toNat]? = some chunk ∧
      (r.state.buffer (RingBuffer.index windowSize s)).Waits connection s chunk
  ackTaken : ∀ ackNum : UInt32, (gbnProcessAck r.state ackNum).2 = true ↔
    r.state.base < ackNum ∧ ackNum ≤ r.state.nextseqnum
  ackMoves : ∀ ackNum : UInt32, (gbnProcessAck r.state ackNum).2 = true →
    (gbnProcessAck r.state ackNum).1.base = ackNum ∧
      (gbnProcessAck r.state ackNum).1.nextseqnum = r.state.nextseqnum
  ackIgnored : ∀ ackNum : UInt32, (gbnProcessAck r.state ackNum).2 = false →
    (gbnProcessAck r.state ackNum).1 = r.state
  fillFull : ∀ (e : Env Addr) (addr : Addr),
    (gbnFillAndSendWindow e addr connection r.state r.file).result = 0 →
    (gbnFillAndSendWindow e addr connection r.state r.file).state.nextseqnum.toNat =
      (gbnFillAndSendWindow e addr connection r.state r.file).state.base.toNat + windowSize
  /-- a fill sends what it reads, up to a full window, the end of the file or an error -/
  fill : ∀ (e : Env Addr) (addr : Addr), ∃ chunks rest, r.file = chunks.map .bytes ++ rest ∧
    (gbnFillAndSendWindow e addr connection r.state r.file).sends.map Send.data =
      packetsFrom connection r.state.nextseqnum.toNat chunks ∧
    (gbnFillAndSendWindow e addr connection r.state r.file).state.base = r.state.base ∧
    (gbnFillAndSendWindow e addr connection r.state r.file).state.nextseqnum.toNat =
      r.state.nextseqnum.toNat + chunks.length ∧
    FillEnd rest (gbnFillAndSendWindow e addr connection r.state r.file)
  first : ∀ i, s0.toNat + i < r.state.nextseqnum.toNat →
    ∃ chunk, (chunksOf input)[i]? = some chunk ∧
      r.firstSends[i]? = some (dataPacket connection (s0.toNat + i) chunk)
  firstLength : r.firstSends.length = r.state.nextseqnum.toNat - s0.toNat
  retransmit : ∀ (e : Env Addr) (addr : Addr),
    (gbnRetransmitWindow e addr r.state).2.map Send.data =
      r.firstSends.drop (r.state.base.toNat - s0.toNat)

theorem WindowPacket.Carries.waits {connection : ConnectionState} {seq : Nat} {chunk : Chunk}
    {p : WindowPacket} (h : p.Carries connection seq chunk) (hs : seq < 2 ^ 32) :
    p.Waits connection seq chunk := by
  have hl := chunk.ofNat_length
  have hp := chunk.property
  simp only [maxPacketSize, headerSize] at hp
  refine ⟨?_, by rw [h.header], by rw [h.header], by rw [h.header], by rw [h.header, h.payloadLen],
    by rw [h.payloadLen, hl], by rw [h.payloadLen, hl, h.payload], ?_⟩
  · rw [h.header]
    exact UInt32.toNat_ofNat_of_lt' hs
  · rw [h.payloadLen, hl]
    omega

/-- In every reachable state the buffer holds exactly the unacknowledged packets of the stream,
and a retransmission repeats their first transmissions byte for byte. -/
theorem window_represents_stream {connection : ConnectionState} {s0 : UInt32}
    {input : InputFile} {r : WindowRun} (hr : WindowReachable Addr connection s0 input r) :
    WindowFacts Addr connection s0 input r := by
  obtain ⟨sent, h⟩ := hr.consistent
  have hrep := h.represents
  have hnext := hrep.next
  have hlower := hrep.lower
  have hupper := hrep.upper
  have hlt := r.state.nextseqnum.toNat_lt
  have hinput (i : Nat) (hi : i < sent.length) : (chunksOf input)[i]? = sent[i]? := by
    rw [h.read, List.getElem?_append_left hi]
  have hinside (ackNum : UInt32) (ha : r.state.base < ackNum ∧ ackNum ≤ r.state.nextseqnum) :=
    gbnProcessAck_inside hrep ackNum ha.1 ha.2
  have htaken (ackNum : UInt32) : (gbnProcessAck r.state ackNum).2 = true ↔
      r.state.base < ackNum ∧ ackNum ≤ r.state.nextseqnum := by
    constructor
    · intro ht
      by_contra ha
      rw [gbnProcessAck_outside ackNum ha] at ht
      exact Bool.noConfusion ht
    · intro ha
      exact (hinside ackNum ha).1
  refine ⟨hupper, hrep.fits, ?_, ?_, htaken, ?_, ?_, ?_, ?_, ?_, ?_, ?_⟩
  · intro i
    refine (hrep.occupied i).trans ?_
    exact exists_congr (fun s => and_congr_right (fun _ => and_congr_right (fun _ =>
      ⟨fun hi => congrArg Fin.val hi, fun hi => Fin.ext hi⟩)))
  · intro s hlo hs
    have hfits := hrep.fits
    obtain ⟨chunk, hc, hcar⟩ := hrep.stores s (by omega) hs (by omega)
    exact ⟨chunk, by rw [hinput _ (by omega), hc], hcar.waits (by omega)⟩
  · intro ackNum ht
    have ha := hinside ackNum ((htaken ackNum).mp ht)
    exact ⟨ha.2.1, ha.2.2.1⟩
  · intro ackNum ht
    have ha : ¬ (r.state.base < ackNum ∧ ackNum ≤ r.state.nextseqnum) := by
      rw [← htaken ackNum, ht]
      exact Bool.noConfusion
    rw [gbnProcessAck_outside ackNum ha]
  · intro e addr hz
    obtain ⟨chunks, rest, ho⟩ := gbnFillAndSendWindow_outcome e addr r.file hrep h.room
    cases ho.ended with
    | full _ _ hn => exact hn
    | eof h1 _ _ => rw [hz] at h1; exact absurd h1 (by decide)
    | error h1 _ => rw [hz] at h1; exact absurd h1 (by decide)
  · intro e addr
    obtain ⟨chunks, rest, ho⟩ := gbnFillAndSendWindow_outcome e addr r.file hrep h.room
    refine ⟨chunks, rest, ho.read, ?_, ho.base, ?_, ho.ended⟩
    · rw [ho.sends, dataSends_map_data]
    · rw [ho.represents.next, List.length_append, hnext, Nat.add_assoc]
  · intro i hi
    have hs : i < sent.length := by omega
    refine ⟨sent[i], by rw [hinput i hs, List.getElem?_eq_getElem hs], ?_⟩
    rw [h.first, packetsFrom_getElem?, List.getElem?_eq_getElem hs]
    rfl
  · rw [h.first, packetsFrom_length]
    omega
  · intro e addr
    rw [gbnRetransmitWindow_sends e addr hrep, dataSends_map_data, h.first,
      packetsFrom_drop _ _ _ _ (by omega), Nat.add_sub_cancel' hlower]

def byteChunk (b : UInt8) : Chunk := ⟨[b], Nat.one_pos, Nat.le_of_ble_eq_true rfl⟩

/-- More chunks than a window holds. -/
def fortyChunks : InputFile :=
  (List.range 40).map (fun n => .bytes (byteChunk (UInt8.ofNat n)))

/-- The window has been filled, twelve of its packets have been acknowledged, and the rest of the
file has been read into the slots that are free again. -/
def refilled : WindowRun :=
  (((⟨.start 0, fortyChunks, []⟩ : WindowRun).call ⟨0, 10, 42⟩ (.fill (Env.calm Unit 1) ())).call
    ⟨0, 10, 42⟩ (WindowCall.processAck 12 : WindowCall Unit)).call ⟨0, 10, 42⟩
      (.fill (Env.calm Unit 1) ())

theorem window_represents_stream_refilled :
    refilled.state.base = 12 ∧ refilled.state.nextseqnum = 40 ∧
    WindowFacts Unit ⟨0, 10, 42⟩ 0 fortyChunks refilled :=
  ⟨by decide +kernel, by decide +kernel, window_represents_stream (.call (.call (.call
    (.start (by decide)) (.fill (Env.calm Unit 1) ()) (by decide +kernel)) (.processAck 12)
    (by decide +kernel)) (.fill (Env.calm Unit 1) ()) (by decide +kernel))⟩

end ReliableUdp
