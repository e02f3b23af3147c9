import ReliableUdp.Session.Refinement
import ReliableUdp.Session.Schedule

namespace ReliableUdp

section Facts

variable {L : Link} {whole : Bool} {S : Session L.size} {Addr : Type} {s : Server Addr}
  {c : Client Addr} {addr : Addr}

/-- What a server has written, with what is left of a write that came up short. -/
theorem ServerAt.written (h : ServerAt L whole S s) :
    ∃ rest, s.output = joinChunks (L.chunks.take S.delivered) ++ rest ∧
      (rest ≠ [] → s.state = .done) ∧ BrokenOff L S whole rest := by
  have hnone (hout : s.output = joinChunks (L.chunks.take S.delivered)) :
      ∃ rest, s.output = joinChunks (L.chunks.take S.delivered) ++ rest ∧
        (rest ≠ [] → s.state = .done) ∧ BrokenOff L S whole rest :=
    ⟨[], by rw [hout, List.append_nil], fun h => absurd rfl h, fun h => absurd rfl h⟩
  cases h with
  | handshake hp _ => exact hnone (by rw [hp.delivered, hp.output]; rfl)
  | established hp _ => exact hnone hp.output
  | lastAck hp _ => exact hnone hp.output_take
  | done hs _ _ _ rest hout hb => exact ⟨rest, hout, fun _ => hs, hb⟩

theorem joinChunks_take_prefix {chunks : List Chunk} {k : Nat} {rest : List UInt8}
    (h : rest ≠ [] → ∃ chunk, chunks[k]? = some chunk ∧ rest <+: chunk.val) :
    joinChunks (chunks.take k) ++ rest <+: joinChunks chunks := by
  by_cases hr : rest = []
  · refine ⟨joinChunks (chunks.drop k), ?_⟩
    rw [hr, List.append_nil, ← joinChunks_append, List.take_append_drop]
  · obtain ⟨chunk, hc, tail, htail⟩ := h hr
    obtain ⟨hk, hget⟩ := List.getElem?_eq_some_iff.mp hc
    refine ⟨tail ++ joinChunks (chunks.drop (k + 1)), ?_⟩
    have hdrop : joinChunks (chunks.drop k) = chunk.val ++ joinChunks (chunks.drop (k + 1)) := by
      rw [List.drop_eq_getElem_cons hk, hget]
      rfl
    conv_rhs => rw [← List.take_append_drop k chunks, joinChunks_append, hdrop, ← htail]
    simp only [List.append_assoc]

theorem ServerAt.output_prefix (h : ServerAt L whole S s) :
    s.output <+: joinChunks L.chunks := by
  obtain ⟨rest, hout, _, hbroken⟩ := h.written
  rw [hout]
  exact joinChunks_take_prefix (fun hne => (hbroken hne).2.2)

/-- A server that has taken the FIN has written everything and is on its way out. -/
theorem ServerAt.complete (h : ServerAt L whole S s) (hf : S.finSeen = true) :
    s.output = joinChunks L.chunks ∧ (s.state = .lastAck ∨ s.state = .done) := by
  cases h with
  | handshake hp _ => rw [hp.finSeen] at hf; exact Bool.noConfusion hf
  | established hp _ => rw [hp.finSeen] at hf; exact Bool.noConfusion hf
  | lastAck hp _ => exact ⟨hp.output, Or.inl hp.state⟩
  | done hs _ _ _ rest hout hb =>
    have hrest : rest = [] := by
      by_contra hne
      rw [(hb hne).2.1] at hf
      exact Bool.noConfusion hf
    refine ⟨?_, Or.inr hs⟩
    rw [hout, hrest, List.append_nil, (S.delivered_of_closing (S.closing_of_finSeen hf)).2.1]
    exact congrArg joinChunks List.take_length

/-- What the state of a server says about its session. -/
def Link.ServerIn (L : Link) (S : Session L.size) (s : Server Addr) : ServerState → Prop
  | .listen => False
  | .handshake => InHandshake L S s
  | .established => Receiving L S s
  | .lastAck => Closing L S s
  | .done => True

theorem ServerAt.inState (h : ServerAt L whole S s) {state : ServerState} (hs : s.state = state) :
    L.ServerIn S s state := by
  subst hs
  cases h with
  | handshake hp _ => rw [hp.state]; exact hp
  | established hp _ => rw [hp.state]; exact hp
  | lastAck hp _ => rw [hp.state]; exact hp
  | done hd _ _ _ _ _ _ => rw [hd]; trivial

theorem ServerAt.handshake_of (h : ServerAt L whole S s) (hs : s.state = .handshake) :
    InHandshake L S s := h.inState hs

theorem ServerAt.receiving (h : ServerAt L whole S s) (hs : s.state = .established) :
    Receiving L S s := h.inState hs

theorem ServerAt.closing_of (h : ServerAt L whole S s) (hs : s.state = .lastAck) :
    Closing L S s := h.inState hs

theorem ServerAt.numbers (h : ServerAt L whole S s) :
    s.connection.seqNum = L.serverSeq ∧ s.connection.connId = L.connId := by
  cases h with
  | handshake hp _ => rw [hp.connection]; exact ⟨rfl, rfl⟩
  | established hp _ => rw [hp.connection]; exact ⟨rfl, rfl⟩
  | lastAck hp _ => rw [hp.connection]; exact ⟨rfl, rfl⟩
  | done _ _ hseq hconn _ _ _ => exact ⟨hseq, hconn⟩

theorem Opening.state_ne {isn : UInt32} {input : InputFile} (h : Opening isn input addr c)
    {st : ClientState} (hs : c.state = st) : st = .closed ∨ st = .synSent ∨ st = .done := by
  cases h.phase with
  | closed h' _ _ => exact Or.inl (hs.symm.trans h')
  | synSent h' _ _ _ => exact Or.inr (Or.inl (hs.symm.trans h'))
  | done h' _ => exact Or.inr (Or.inr (hs.symm.trans h'))

theorem ClientAt.readToEnd (h : ClientAt L S addr c) (hc : S.closing = true) :
    ReadToEnd L.input c.file := by
  cases h.phase with
  | opening hS _ => rw [(S.untouched hS).2.2.1] at hc; exact Bool.noConfusion hc
  | entering ht _ _ _ _ => rw [ht.closing] at hc; exact Bool.noConfusion hc
  | transferring ht _ _ _ _ => rw [ht.closing] at hc; exact Bool.noConfusion hc
  | finWait hw _ => exact hw.ended
  | timeWait hw _ => exact hw.ended
  | done _ _ _ _ _ hended _ => exact hended hc

/-- What the state of a client says about its session. -/
def Link.ClientIn (L : Link) (S : Session L.size) (addr : Addr) (c : Client Addr) :
    ClientState → Prop
  | .closed => S.accepted = false ∧ Opening L.isn L.input addr c
  | .synSent => S.accepted = false ∧ Opening L.isn L.input addr c
  | .established => InTransfer L S c ∧
      (c.pc = .fsm ∧ c.file = L.input ∧ S.sent = 0 ∧ c.xfer = none ∨
      (c.pc = .transfer ∨ ∃ ms, c.pc = .select ms) ∧
        ∃ x, c.xfer = some x ∧ Sending L S x c.file)
  | .finWait => InFinWait L S c
  | .timeWait => InTimeWait L S c
  | .done => True

theorem ClientAt.inState (h : ClientAt L S addr c) {state : ClientState} (hs : c.state = state) :
    L.ClientIn S addr c state := by
  subst hs
  cases h.phase with
  | opening hS ho =>
    rcases ho.state_ne rfl with hst | hst | hst
    · rw [hst]
      exact ⟨hS, ho⟩
    · rw [hst]
      exact ⟨hS, ho⟩
    · rw [hst]
      trivial
  | entering ht hpc hfile hsent hx => rw [ht.state]; exact ⟨ht, Or.inl ⟨hpc, hfile, hsent, hx⟩⟩
  | transferring ht hpc x hx hs => rw [ht.state]; exact ⟨ht, Or.inr ⟨hpc, x, hx, hs⟩⟩
  | finWait hw _ => rw [hw.state]; exact hw
  | timeWait hw _ => rw [hw.state]; exact hw
  | done hd _ _ _ _ _ _ => rw [hd]; trivial

theorem ClientAt.finWait_of (h : ClientAt L S addr c) (hs : c.state = .finWait) :
    InFinWait L S c := h.inState hs

theorem ClientAt.timeWait_of (h : ClientAt L S addr c) (hs : c.state = .timeWait) :
    InTimeWait L S c := h.inState hs

/-- A client that has taken the SYN+ACK keeps the numbers it brought. -/
theorem ClientAt.numbers (h : ClientAt L S addr c) (hacc : S.accepted = true) :
    c.connection.ackNum = L.serverSeq + 1 ∧ c.connection.connId = L.connId := by
  cases h.phase with
  | opening hS _ => rw [hS] at hacc; exact Bool.noConfusion hacc
  | entering ht _ _ _ _ => rw [ht.connection]; exact ⟨rfl, rfl⟩
  | transferring ht _ _ _ _ => rw [ht.connection]; exact ⟨rfl, rfl⟩
  | finWait hw _ => rw [hw.connection]; exact ⟨rfl, rfl⟩
  | timeWait hw _ => rw [hw.connection]; exact ⟨rfl, rfl⟩
  | done _ _ _ hack hconn _ _ => exact ⟨hack, hconn⟩

theorem ClientAt.accepted (h : ClientAt L S addr c) (hc : c.connection.connId ≠ 0) :
    S.accepted = true := by
  cases hacc : S.accepted with
  | true => rfl
  | false =>
    cases h.phase with
    | opening _ ho => exact absurd ho.connId hc
    | entering ht _ _ _ _ => exact absurd (S.accepted_of_opened ht.opened) (by simp [hacc])
    | transferring ht _ _ _ _ => exact absurd (S.accepted_of_opened ht.opened) (by simp [hacc])
    | finWait hw _ =>
      exact absurd (S.accepted_of_opened (S.opened_of_closing hw.closing)) (by simp [hacc])
    | timeWait hw _ =>
      exact absurd (S.accepted_of_opened (S.opened_of_closing
        (S.closing_of_finSeen (S.finSeen_of_finished hw.finished)))) (by simp [hacc])
    | done _ _ hS _ _ _ _ => rw [hacc] at hS; exact hS

theorem ClientAt.accepted_of_running (h : ClientAt L S addr c)
    (hs : c.state = .established ∨ c.state = .finWait ∨ c.state = .timeWait) :
    S.accepted = true := by
  apply S.accepted_of_opened
  rcases hs with hs | hs | hs
  · exact (h.inState hs).1.opened
  · exact S.opened_of_closing (h.finWait_of hs).closing
  · exact S.opened_of_closing
      (S.closing_of_finSeen (S.finSeen_of_finished (h.timeWait_of hs).finished))

/-- Losing, duplicating or delaying packets cannot make a received header differ from the one
that was sent. -/
theorem Message.parsed {m : Message} (hp : m.payload.length ≤ maxPacketSize - headerSize)
    {h : RDTHeader} {payload : List UInt8} (hr : parsePacket m.bytes = .ok (h, payload)) :
    m.Read h payload := by
  obtain ⟨h', hr', hread⟩ := m.parse hp
  rw [hr] at hr'
  obtain ⟨rfl, rfl⟩ := Prod.mk.inj (Except.ok.inj hr')
  exact hread

theorem FromServer.acknowledges {m : Message} (hm : FromServer L S m) {h : RDTHeader}
    {payload : List UInt8} (hr : parsePacket m.bytes = .ok (h, payload)) (hf : h.flags = flagAck) :
    ∃ k, k ≤ S.delivered ∧ h.ackNum = L.num (1 + k) := by
  have hread := Message.parsed (by rw [hm.payload_nil]; exact Nat.zero_le _) hr
  obtain ⟨k, hk, hack⟩ := hm.dataAck_of (hread.flags.symm.trans hf)
  exact ⟨k, hk, hread.ackNum.trans hack⟩

theorem FromServer.not_data {m : Message} (hm : FromServer L S m) {h : RDTHeader}
    {payload : List UInt8} (hr : parsePacket m.bytes = .ok (h, payload)) : h.flags ≠ flagData := by
  intro hf
  have hread := Message.parsed (by rw [hm.payload_nil]; exact Nat.zero_le _) hr
  have hdata := hread.flags.symm.trans hf
  cases hm with
  | synAck => exact absurd hdata (by dsimp only; decide)
  | dataAck _ _ => exact absurd hdata (by dsimp only; decide)
  | finAck _ => exact absurd hdata (by dsimp only; decide)

theorem FromClient.carries {m : Message} (hm : FromClient L S m) {h : RDTHeader}
    {payload : List UInt8} (hr : parsePacket m.bytes = .ok (h, payload))
    (hf : h.flags = flagData) : ∃ j chunk, j < S.sent ∧ L.chunks[j]? = some chunk ∧
      h.seqNum = L.num (1 + j) ∧ payload = chunk.val := by
  have hread := Message.parsed hm.payload_le hr
  obtain ⟨j, chunk, hj, hchunk, hseq, hpayload⟩ := hm.data_of (hread.flags.symm.trans hf)
  exact ⟨j, chunk, hj, hchunk, hread.seqNum.trans hseq, hread.payload.trans hpayload⟩

theorem Link.num_sent (hroom : L.isn.toNat + 1 + S.sent < 2 ^ 32) {k : Nat} (hk : k ≤ S.sent) :
    (L.num (1 + k)).toNat = L.isn.toNat + 1 + k := by
  rw [L.num_toNat (by omega)]
  exact (Nat.add_assoc _ _ _).symm

/-- A slot that filling the window overwrites has either not been used before or holds a chunk
that has been acknowledged. -/
theorem Sending.overwrites {x : Transfer} {file : InputFile} (h : Sending L S x file)
    (e : Env Addr) (addr : Addr) {i : Fin windowSize}
    (hi : (gbnFillAndSendWindow e addr (L.connection 1) x.gbn file).state.buffer i ≠
      x.gbn.buffer i) :
    ∃ q, RingBuffer.index windowSize q = i ∧ x.gbn.nextseqnum.toNat ≤ q ∧
      (q < L.isn.toNat + 1 + windowSize ∨
        q - windowSize < x.gbn.base.toNat ∧
        ∃ chunk, L.chunks[q - windowSize - (L.isn.toNat + 1)]? = some chunk ∧
          (x.gbn.buffer i).Carries (L.connection 1) (q - windowSize) chunk) := by
  by_cases hmax : x.gbn.base.toNat + windowSize < 2 ^ 32
  · obtain ⟨q, hq, hlt, hslot⟩ := gbnFillAndSendWindow_frame e addr h.represents hmax hi
    refine ⟨q, hslot, hq, ?_⟩
    by_cases hfirst : q < L.isn.toNat + 1 + windowSize
    · exact Or.inl hfirst
    · have hq' : q - windowSize + windowSize = q := by omega
      have hupper := h.represents.upper
      obtain ⟨chunk, hchunk, hcarries⟩ :=
        h.represents.stores (q - windowSize) (by omega) (by omega) (by omega)
      rw [← RingBuffer.index_add, hq', hslot] at hcarries
      rw [List.getElem?_take] at hchunk
      split_ifs at hchunk
      exact Or.inr ⟨by omega, chunk, hchunk, hcarries⟩
  · rw [gbnFillAndSendWindow_wrapped e addr _ h.represents (Nat.not_lt.mp hmax)] at hi
    exact absurd rfl hi

end Facts

section Parties

variable {ι : Type} {p : Params ι} {a : Stage p} {s : Sys ι}

/-- A client in TIME_WAIT is the admitted one, and the server has taken its FIN. -/
theorem Joint.finSeen_of_timeWait (h : Joint p a s) {i : ι}
    (hs : (s.clients i).state = .timeWait) : ∃ S, a = some ⟨i, S⟩ ∧ S.finSeen = true := by
  rcases h.client i with ho | ⟨S, rfl, hclient⟩
  · exact absurd (ho.state_ne hs) (by decide)
  · exact ⟨S, rfl, S.finSeen_of_finished (hclient.timeWait_of hs).finished⟩

/-- A client with an identifier is the admitted one. -/
theorem Joint.accepted_of_connId (h : Joint p a s) {i : ι}
    (hc : (s.clients i).connection.connId ≠ 0) : ∃ S, a = some ⟨i, S⟩ ∧ S.accepted = true := by
  rcases h.client i with ho | ⟨S, rfl, hclient⟩
  · exact absurd ho.connId hc
  · exact ⟨S, rfl, hclient.accepted hc⟩

/-- Once the FIN has been taken everything has been read and written. -/
theorem Joint.complete {w : ι} {S : Session (p.link w).size} (h : Joint p (some ⟨w, S⟩) s)
    (hf : S.finSeen = true) : ReadToEnd (p.input w) (s.clients w).file ∧
      s.server.output = joinChunks (content (p.input w)) ∧
      (s.server.state = .lastAck ∨ s.server.state = .done) := by
  obtain ⟨hclient, hserver, _⟩ := h.parties
  exact ⟨hclient.readToEnd (S.closing_of_finSeen hf), hserver.complete hf⟩

theorem Allowed.acknowledges {w : ι} {S : Session (p.link w).size} {d : Datagram ι}
    (hd : Allowed p w S d) (hsrc : d.src = .server) {h : RDTHeader} {payload : List UInt8}
    (hr : parsePacket d.data = .ok (h, payload)) (hf : h.flags = flagAck) :
    ∃ k, k ≤ S.delivered ∧ h.ackNum = (p.link w).num (1 + k) := by
  cases hd with
  | syn i => exact absurd hsrc (by simp)
  | client m hm => exact absurd hsrc (by simp)
  | server m hm i => exact hm.acknowledges hr hf

theorem Allowed.carries {w : ι} {S : Session (p.link w).size} {d : Datagram ι}
    (hd : Allowed p w S d) {h : RDTHeader} {payload : List UInt8}
    (hr : parsePacket d.data = .ok (h, payload)) (hf : h.flags = flagData) :
    ∃ j chunk, j < S.sent ∧ (p.link w).chunks[j]? = some chunk ∧
      h.seqNum = (p.link w).num (1 + j) ∧ payload = chunk.val := by
  cases hd with
  | syn i =>
    have hread := Message.parsed (Nat.zero_le _) hr
    exact absurd (hread.flags.symm.trans hf) (by dsimp only [synMessage]; decide)
  | client m hm => exact hm.carries hr hf
  | server m hm i => exact absurd hf (hm.not_data hr)

end Parties

/-- A system with a single client. -/
theorem Params.isn_injective (p : Params Unit) : Function.Injective p.isn :=
  Function.injective_of_subsingleton p.isn

section Solo

variable {p : Params Unit} {past : List (Sys Unit)} {s : Sys Unit}

/-- What has been written are the first chunks of the input in order, `k` of them; a write that
came up short has left a part of the next one and ended the server. -/
theorem delivery_in_order (h : Sys.Run p past s) :
    ∃ k rest, k ≤ (content (p.input ())).length ∧
      s.server.output = joinChunks ((content (p.input ())).take k) ++ rest ∧
      (p.wholeWrites = true → rest = []) ∧ (rest ≠ [] → s.server.state = .done) ∧
      s.server.output <+: joinChunks (content (p.input ())) ∧
      (s.server.state = .established →
        (s.server.connection.ackNum - (p.isn () + 1)).toNat = k) := by
  obtain ⟨a, ha, _⟩ := h.follows p.isn_injective
  rcases ha.joint.server with hserver | ⟨_, S, rfl, hserver⟩
  · have hout := hserver.output_nil
    refine ⟨0, [], Nat.zero_le _, hout, fun _ => rfl, fun hne => absurd rfl hne, ?_, fun hs => ?_⟩
    · rw [hout]
      exact List.nil_prefix
    · exact absurd (hserver.state_ne hs) (by decide)
  · obtain ⟨hclient, hserver, _⟩ : ClientAt (p.link ()) S .server (s.clients ()) ∧
        ServerAt (p.link ()) p.wholeWrites S s.server ∧ _ := ha.joint.parties
    obtain ⟨rest, hout, hdone, hbroken⟩ := hserver.written
    refine ⟨S.delivered, rest, S.delivered_le.trans S.sent_le, hout, ?_, hdone, ?_, ?_⟩
    · intro hwhole
      by_contra hne
      rw [(hbroken hne).1] at hwhole
      exact Bool.noConfusion hwhole
    · exact hserver.output_prefix
    · intro hs
      have hrecv := hserver.receiving hs
      have hroom := hclient.room.sent
      have hle := S.delivered_le
      have hnum := (p.link ()).num_toNat (by omega : _ + (1 + S.delivered) < 2 ^ 32)
      have hone := (p.link ()).num_toNat (by omega : _ + 1 < 2 ^ 32)
      have hfirst : p.isn () + 1 = (p.link ()).num 1 := (p.link ()).isn_succ
      rw [hrecv.connection, hfirst, UInt32.toNat_sub, hone]
      simp only [Link.serverConnection, hnum]
      omega

theorem delivery_in_order_hello :
    (hello.schedule helloClosing).2.server.output = [104, 105] ∧
    (hello.schedule helloClosing).2.server.output <+: joinChunks (content (hello.input ())) := by
  obtain ⟨_, _, _, _, _, _, hprefix, _⟩ := delivery_in_order (hello.schedule_run helloClosing)
  exact ⟨by decide +kernel, hprefix⟩

/-- Of the packets that come in LAST_ACK the final ACK ends the server and no other does, a failed
answer apart. -/
theorem Server.lastAckPacket_ends_iff {Addr : Type} {s : Server Addr} {e : Env Addr}
    {h : RDTHeader} : (s.lastAckPacket e h).1.state = .done ∧
      (∀ o ∈ (s.lastAckPacket e h).2, o.sent = true) ↔ s.TakesFinalAck h := by
  rw [lastAckPacket]
  constructor
  · rintro ⟨hdone, hsent⟩
    split_ifs at hdone hsent with hfin hack
    · rw [reply] at hdone hsent
      split_ifs at hdone hsent with hout
      · exact absurd hdone (by simp [goto])
      · exact absurd (hsent _ (List.mem_singleton_self _)) hout
    · exact hack
    · exact absurd hdone (by simp [goto])
  · intro hack
    have hfin : ¬ (h.flags = flagFin ∧ h.connId = s.connection.connId ∧
        h.seqNum + 1 = s.connection.ackNum) :=
      fun hfin => absurd (hfin.1.symm.trans hack.1) (by decide)
    rw [if_neg hfin, if_pos hack]
    exact ⟨rfl, fun o ho => absurd ho List.not_mem_nil⟩

/-- A server that goes from LAST_ACK to DONE on a datagram it has read has taken the final ACK. -/
theorem Server.finalAck_of_step {Addr : Type} {config : AppConfig} {s : Server Addr} {e : Env Addr}
    (hs : s.state = .lastAck) {ms : Nat} (hpc : s.pc = .select ms) (hsel : e.selectResult > 0)
    (hdone : (s.step config e).1.state = .done)
    (hsent : ∀ o ∈ (s.step config e).2, o.sent = true) :
    ∃ src h payload, recvPacket e s.clientAddr = (src, .ok (h, payload)) ∧ s.TakesFinalAck h := by
  have h0 : ¬ waitForPacket e.selectResult = 0 := by
    rw [waitForPacket_eq_zero]
    omega
  have hneg : ¬ waitForPacket e.selectResult < 0 := by
    rw [waitForPacket_neg]
    omega
  rw [step_select hpc, resume_lastAck hs, lastAckReady, if_neg h0, if_neg hneg, receive]
    at hdone hsent
  cases hrecv : (recvPacket e s.clientAddr).2 with
  | error code =>
    rw [hrecv] at hdone
    exact absurd (hs.symm.trans hdone) (by decide)
  | ok received =>
    rw [hrecv] at hdone hsent
    refine ⟨(recvPacket e s.clientAddr).1, received.1, received.2, ?_, ?_⟩
    · rw [← hrecv]
    · exact (lastAckPacket_ends_iff
        (s := { s with clientAddr := (recvPacket e s.clientAddr).1 })).mp ⟨hdone, hsent⟩

/-- A step in which the server goes from LAST_ACK to DONE on a datagram from its socket. What it
sends goes out, so that it is not a failed answer to that datagram which ends it. -/
structure Sys.EndsOnPacket (p : Params Unit) (s s' : Sys Unit) : Prop where
  step : Sys.Step p s s'
  lastAck : s.server.state = .lastAck
  done : s'.server.state = .done
  packet : ∃ e net, s' = s.stepServer p e net ∧
    Receives .server (s.server.reads e) e s.net net ∧ e.recvfrom.isSome = true ∧
    ∀ o ∈ (s.server.step p.serverConfig e).2, o.sent = true

/-- The teardown never ends early: once the client is in TIME_WAIT or the server in LAST_ACK the
whole input has been read and written, and no packet ends the server unless the client has been in
TIME_WAIT. -/
theorem completion_agreement (h : Sys.Run p past s) :
    ((∃ t ∈ past, (t.clients ()).state = .timeWait ∨ t.server.state = .lastAck) →
      ReadToEnd (p.input ()) (s.clients ()).file ∧
      s.server.output = joinChunks (content (p.input ())) ∧
      (s.server.state = .lastAck ∨ s.server.state = .done)) ∧
    (∀ s', Sys.EndsOnPacket p s s' → ∃ t ∈ past, (t.clients ()).state = .timeWait) := by
  obtain ⟨a, ha, hpast⟩ := h.follows p.isn_injective
  constructor
  · intro hearlier
    obtain ⟨t, ht, hreach⟩ := hearlier
    obtain ⟨b, hb, hba⟩ := hpast t ht
    obtain ⟨S, rfl, hfin⟩ : ∃ S, b = some ⟨(), S⟩ ∧ S.finSeen = true := by
      rcases hreach with hreach | hreach
      · exact hb.finSeen_of_timeWait hreach
      · rcases hb.server with hserver | ⟨_, S, rfl, hserver⟩
        · exact absurd (hserver.state_ne hreach) (by decide)
        · exact ⟨S, rfl, (hserver.closing_of hreach).finSeen⟩
    obtain ⟨T, rfl, hle⟩ := Stage.Steps.le hba rfl
    exact ha.joint.complete (hle.finSeen hfin)
  · intro s' hends
    obtain ⟨e, net, rfl, hr, hsome, hsent⟩ := hends.packet
    have hs := hends.lastAck
    obtain ⟨⟨ms, hpc⟩, hsel⟩ : s.server.reads e := by
      cases hr with
      | nothing he => rw [he] at hsome; exact Bool.noConfusion hsome
      | datagram hreads _ _ _ _ => exact hreads
    obtain ⟨src, hd, payload, hrecv, htake⟩ :=
      Server.finalAck_of_step hs hpc hsel hends.done hsent
    rcases ha.joint.server with hserver | ⟨_, S, rfl, hserver⟩
    · exact absurd (hserver.state_ne hs) (by decide)
    · obtain ⟨hclient, _, hnet⟩ := ha.joint.parties
      exact ha.finished () ⟨rfl, (hserver.closing_of hs).finished hclient.room
        (hears_clients hnet hr) hrecv htake⟩

/-- The final ACK of `hello` is under way, and the server waits for it. -/
def helloFinalAck : List (Event Unit) :=
  helloClosing ++ [.clientRecv () 0 1000, .server 1000]

theorem completion_agreement_hello :
    (ReadToEnd (hello.input ()) ((hello.schedule helloFinalAck).2.clients ()).file ∧
      (hello.schedule helloFinalAck).2.server.output = joinChunks (content (hello.input ())) ∧
      ((hello.schedule helloFinalAck).2.server.state = .lastAck ∨
        (hello.schedule helloFinalAck).2.server.state = .done)) ∧
    ∃ t ∈ (hello.schedule helloFinalAck).1, (t.clients ()).state = .timeWait := by
  have hagree := completion_agreement (hello.schedule_run helloFinalAck)
  have hs : (hello.schedule helloFinalAck).2.server.state = .lastAck := by decide +kernel
  refine ⟨hagree.1 ⟨_, (hello.schedule_run helloFinalAck).mem_last, Or.inr hs⟩, ?_⟩
  let ack : Datagram Unit := ⟨.client (), .server, encode 20 501 42 flagAck []⟩
  let e : Env (Node Unit) := (hello.serverEnv 1000).receiving ack.src ack.data
  have hpc : (hello.schedule helloFinalAck).2.server.pc = .select 250 := by decide +kernel
  have hr : Receives .server ((hello.schedule helloFinalAck).2.server.reads e) e
      (hello.schedule helloFinalAck).2.net ((hello.schedule helloFinalAck).2.net.erase ack) :=
    .datagram ⟨⟨250, hpc⟩, Int.one_pos⟩ ack (by decide +kernel) rfl rfl
  have hsends :
      ((hello.schedule helloFinalAck).2.server.step hello.serverConfig e).2.length = 0 := by
    decide +kernel
  exact hagree.2 _ ⟨.server _ e _ hr ⟨rfl, rfl⟩ (fun _ => rfl), hs, by decide +kernel, e, _, rfl,
    hr, rfl, fun o ho => absurd ho (by
      rw [List.length_eq_zero_iff.mp hsends]
      exact List.not_mem_nil)⟩

/-- The window of `handle_established`, before its first turn the one it is going to start. -/
def Client.window {Addr : Type} (c : Client Addr) : GBNSenderState :=
  match c.xfer with
  | some x => x.gbn
  | none => .start c.connection.seqNum

theorem ClientAt.window {L : Link} {S : Session L.size} {Addr : Type} {addr : Addr}
    {c : Client Addr} (h : ClientAt L S addr c) (hs : c.state = .established) :
    InTransfer L S c ∧ ∃ x, c.window = x.gbn ∧ Sending L S x c.file := by
  obtain ⟨ht, ⟨_, hfile, hsent, hx⟩ | ⟨_, x, hx, hsending⟩⟩ := h.inState hs
  · refine ⟨ht, ⟨.start (L.num 1), false, 0, 0⟩, ?_, .start hfile hsent⟩
    rw [Client.window, hx, ht.connection]
    rfl
  · exact ⟨ht, x, by rw [Client.window, hx], hsending⟩

/-- A slot is used again only when the server has written what it held. -/
structure RecyclesWritten (p : Params Unit) (s : Sys Unit) (gbn : GBNSenderState) : Prop where
  base_le : gbn.base.toNat ≤ s.server.connection.ackNum.toNat
  ackNum_le : s.server.connection.ackNum.toNat ≤ gbn.nextseqnum.toNat
  next_le : gbn.nextseqnum.toNat ≤ gbn.base.toNat + windowSize
  acks : ∀ d ∈ s.net, d.src = .server → ∀ h payload, parsePacket d.data = .ok (h, payload) →
    h.flags = flagAck →
    (p.isn ()).toNat + 1 ≤ h.ackNum.toNat ∧ h.ackNum.toNat ≤ s.server.connection.ackNum.toNat
  data : ∀ d ∈ s.net, ∀ h payload, parsePacket d.data = .ok (h, payload) → h.flags = flagData →
    (p.isn ()).toNat + 1 ≤ h.seqNum.toNat ∧ h.seqNum.toNat < gbn.nextseqnum.toNat ∧
    ∃ chunk, (content (p.input ()))[h.seqNum.toNat - ((p.isn ()).toNat + 1)]? = some chunk ∧
      payload = chunk.val
  output : s.server.output = joinChunks ((content (p.input ())).take
    (s.server.connection.ackNum.toNat - ((p.isn ()).toNat + 1)))
  overwritten : ∀ (e : Env (Node Unit)) (addr : Node Unit) (i : Fin windowSize),
    (gbnFillAndSendWindow e addr (s.clients ()).connection gbn (s.clients ()).file).state.buffer i
      ≠ gbn.buffer i →
    ∃ q, RingBuffer.index windowSize q = i ∧ gbn.nextseqnum.toNat ≤ q ∧
      (q < (p.isn ()).toNat + 1 + windowSize ∨
        q - windowSize < s.server.connection.ackNum.toNat ∧
        ∃ chunk, (content (p.input ()))[q - windowSize - ((p.isn ()).toNat + 1)]? = some chunk ∧
          (gbn.buffer i).Carries (s.clients ()).connection (q - windowSize) chunk)

theorem slot_recycled_after_write (h : Sys.Run p past s)
    (hc : (s.clients ()).state = .established) (hs : s.server.state = .established) :
    RecyclesWritten p s (s.clients ()).window := by
  obtain ⟨a, ha, _⟩ := h.follows p.isn_injective
  rcases ha.joint.client () with ho | ⟨S, rfl, hclient⟩
  · exact absurd (ho.state_ne hc) (by decide)
  · obtain ⟨_, hserver, hnet⟩ := ha.joint.parties
    have hrecv := hserver.receiving hs
    obtain ⟨ht, x, hx, hsending⟩ := hclient.window hc
    have hbase := hsending.acked
    have hnext := hsending.next
    have hacked := S.acked_le
    have hsent := S.delivered_le
    have hnum (k : Nat) (hk : k ≤ S.sent) :
        ((p.link ()).num (1 + k)).toNat = (p.isn ()).toNat + 1 + k :=
      Link.num_sent hsending.room hk
    have hack : s.server.connection.ackNum.toNat = (p.isn ()).toNat + 1 + S.delivered := by
      rw [hrecv.connection]
      exact hnum S.delivered hsent
    have hisn : (p.link ()).isn.toNat = (p.isn ()).toNat := rfl
    rw [hisn] at hbase hnext
    rw [hx]
    refine ⟨by omega, by omega, hsending.represents.fits, ?_, ?_, ?_, ?_⟩
    · intro d hd hsrc hh payload hparse hflags
      obtain ⟨k, hk, hkn⟩ := (hnet d hd).acknowledges hsrc hparse hflags
      rw [hkn, hnum k (hk.trans hsent), hack]
      omega
    · intro d hd hh payload hparse hflags
      obtain ⟨j, chunk, hj, hchunk, hseq, hpayload⟩ := (hnet d hd).carries hparse hflags
      rw [hseq, hnum j hj.le, hnext]
      refine ⟨by omega, by omega, chunk, ?_, hpayload⟩
      rw [Nat.add_sub_cancel_left]
      exact hchunk
    · rw [hrecv.output, hack, Nat.add_sub_cancel_left]
      rfl
    · intro e addr i hi
      rw [ht.connection] at hi ⊢
      obtain ⟨q, hslot, hq, hfirst | ⟨hlt, hold⟩⟩ := hsending.overwrites e addr hi
      · exact ⟨q, hslot, hq, Or.inl hfirst⟩
      · exact ⟨q, hslot, hq, Or.inr ⟨by omega, hold⟩⟩

theorem slot_recycled_after_write_hello :
    RecyclesWritten hello (hello.schedule helloSent).2
      ((hello.schedule helloSent).2.clients ()).window :=
  slot_recycled_after_write (hello.schedule_run helloSent) (by decide +kernel)
    (by decide +kernel)

/-- What one client and the server know of each other in a run that has come to `s`. -/
structure HandshakeAgreed (p : Params Unit) (past : List (Sys Unit)) (s : Sys Unit) : Prop where
  /-- the identifier of a client is zero until it takes a SYN+ACK -/
  entered : ∀ t ∈ past, (t.clients ()).state = .established ∨ (t.clients ()).state = .finWait ∨
    (t.clients ()).state = .timeWait → (s.clients ()).connection.connId ≠ 0
  accepted : (s.clients ()).connection.connId ≠ 0 →
    (∃ t ∈ past, t.server.state = .handshake ∧
      t.server.connection = ⟨p.serverSeq, p.isn () + 1, p.connId⟩) ∧
    (s.clients ()).connection.connId = p.connId ∧
    (s.clients ()).connection.ackNum = p.serverSeq + 1
  established : (∃ t ∈ past, t.server.state = .established) →
    (∃ t ∈ past, (t.clients ()).state = .established) ∧
    s.server.connection.connId = (s.clients ()).connection.connId ∧
    (s.clients ()).connection.ackNum = s.server.connection.seqNum + 1
  firstData : (s.clients ()).state = .established →
    (s.clients ()).connection.seqNum = p.isn () + 1
  clientFrozen : ∀ t ∈ past, (t.clients ()).connection.connId ≠ 0 →
    (s.clients ()).connection.connId = (t.clients ()).connection.connId ∧
    (s.clients ()).connection.ackNum = (t.clients ()).connection.ackNum
  serverFrozen : ∀ t ∈ past, t.server.state ≠ .listen → t.server.state ≠ .done →
    s.server.connection.connId = t.server.connection.connId ∧
    s.server.connection.seqNum = t.server.connection.seqNum
  /-- with the ACK or with a DATA packet -/
  completed : ∀ s', Sys.Step p s s' → s.server.state = .handshake →
    s'.server.state = .established →
    s'.server.connection = ⟨p.serverSeq, p.isn () + 1, p.connId⟩

/-- No step out of HANDSHAKE changes a number, neither the one with the ACK nor the one with a DATA
packet. -/
theorem Server.step_handshake {Addr : Type} {config : AppConfig} {s : Server Addr} {e : Env Addr}
    (hs : s.state = .handshake) : (s.step config e).1.connection = s.connection := by
  cases hpc : s.pc with
  | returned code => rw [step_returned hpc]
  | fsm =>
    rw [step_fsm hpc, runServer_running (by rw [hs]; decide), enter]
    split_ifs <;> rfl
  | select ms =>
    rw [step_select hpc, resume_handshake hs, handshakeReady, ready]
    split_ifs with h0 hexp hneg
    · rfl
    · rfl
    · rfl
    · rw [receive]
      cases (recvPacket e s.clientAddr).2 with
      | error code => rfl
      | ok received =>
        dsimp only
        rw [handshakePacket]
        split_ifs with hsyn hack hdata
        · rw [reply]
          split_ifs <;> rfl
        · simp only [goto, marked, hack.2.2.2]
        · rfl
        · rfl

theorem handshake_agreement (h : Sys.Run p past s) : HandshakeAgreed p past s := by
  obtain ⟨a, ha, hpast⟩ := h.follows p.isn_injective
  have hfirst : (p.link ()).serverConnection 1 = ⟨p.serverSeq, p.isn () + 1, p.connId⟩ :=
    congrArg (fun n => (⟨p.serverSeq, n, p.connId⟩ : ConnectionState)) (p.link ()).isn_succ.symm
  have hclient (t : Sys Unit) (ht : t ∈ past) (hc : (t.clients ()).connection.connId ≠ 0) :
      (s.clients ()).connection.connId = (t.clients ()).connection.connId ∧
      (s.clients ()).connection.ackNum = (t.clients ()).connection.ackNum := by
    obtain ⟨b, hb, hba⟩ := hpast t ht
    obtain ⟨S, rfl, hacc⟩ := hb.accepted_of_connId hc
    have hnums := hb.parties.1.numbers hacc
    obtain ⟨T, rfl, hle⟩ := Stage.Steps.le hba rfl
    have hnow := ha.joint.parties.1.numbers (hle.accepted hacc)
    exact ⟨hnow.2.trans hnums.2.symm, hnow.1.trans hnums.1.symm⟩
  refine ⟨?_, ?_, ?_, ?_, hclient, ?_, ?_⟩
  · intro t ht hs
    obtain ⟨b, hb, hba⟩ := hpast t ht
    rcases hb.client () with ho | ⟨S, rfl, hcl⟩
    · rcases hs with hs | hs | hs
      · exact absurd (ho.state_ne hs) (by decide)
      · exact absurd (ho.state_ne hs) (by decide)
      · exact absurd (ho.state_ne hs) (by decide)
    · obtain ⟨T, rfl, hle⟩ := Stage.Steps.le hba rfl
      obtain ⟨hnow, _, _⟩ := ha.joint.parties
      rw [(hnow.numbers (hle.accepted (hcl.accepted_of_running hs))).2]
      exact p.connId_ne
  · intro hc
    obtain ⟨S, rfl, hacc⟩ := ha.joint.accepted_of_connId hc
    obtain ⟨hack, hconn⟩ := ha.joint.parties.1.numbers hacc
    obtain ⟨t, ht, hst, hc⟩ := ha.admitted () rfl
    exact ⟨⟨t, ht, hst, hc.trans hfirst⟩, hconn, hack⟩
  · intro hearlier
    obtain ⟨t, ht, hst⟩ := hearlier
    obtain ⟨b, hb, hba⟩ := hpast t ht
    rcases hb.server with hserver | ⟨w, S, rfl, hserver⟩
    · exact absurd (hserver.state_ne hst) (by decide)
    · obtain ⟨T, rfl, hle⟩ := Stage.Steps.le hba rfl
      obtain ⟨hcl, hsv, _⟩ := ha.joint.parties
      have hopened := hle.opened (hserver.receiving hst).opened
      have hnow := hcl.numbers (T.accepted_of_opened hopened)
      refine ⟨ha.opened () ⟨rfl, hopened⟩, hsv.numbers.2.trans hnow.2.symm, ?_⟩
      rw [hsv.numbers.1]
      exact hnow.1
  · intro hst
    rcases ha.joint.client () with ho | ⟨S, rfl, hcl⟩
    · exact absurd (ho.state_ne hst) (by decide)
    · rw [(hcl.window hst).1.connection]
      exact (p.link ()).isn_succ.symm
  · intro t ht hl hd
    obtain ⟨b, hb, hba⟩ := hpast t ht
    rcases hb.server with hserver | ⟨_, S, rfl, hserver⟩
    · rcases hserver.state_ne rfl with h' | h'
      · exact absurd h' hl
      · exact absurd h' hd
    · obtain ⟨T, rfl, _⟩ := Stage.Steps.le hba rfl
      obtain ⟨_, hnow, _⟩ := ha.joint.parties
      exact ⟨hnow.numbers.2.trans hserver.numbers.2.symm,
        hnow.numbers.1.trans hserver.numbers.1.symm⟩
  · intro s' hstep hst hst'
    have hconn : s.server.connection = ⟨p.serverSeq, p.isn () + 1, p.connId⟩ := by
      rcases ha.joint.server with hserver | ⟨_, S, rfl, hserver⟩
      · exact absurd (hserver.state_ne hst) (by decide)
      · exact (hserver.handshake_of hst).connection.trans hfirst
    cases hstep with
    | server e net _ _ _ => exact (Server.step_handshake hst).trans hconn
    | client i e net _ _ => exact absurd (hst.symm.trans hst') (by decide)
    | lose d _ => exact absurd (hst.symm.trans hst') (by decide)
    | duplicate d _ => exact absurd (hst.symm.trans hst') (by decide)

theorem handshake_agreement_hello :
    (((hello.schedule helloSent).2.clients ()).connection.connId = 42 ∧
      ((hello.schedule helloSent).2.clients ()).connection.ackNum = 501) ∧
    (∃ t ∈ (hello.schedule helloSent).1, (t.clients ()).state = .established) ∧
    ((hello.schedule helloSent).2.clients ()).connection.seqNum = 18 ∧
    ∃ s', Sys.Step hello (hello.schedule (helloSent.take 6)).2 s' ∧
      s'.server.connection = ⟨500, 18, 42⟩ := by
  have hagree := handshake_agreement (hello.schedule_run helloSent)
  have haccepted := (hagree.accepted (by decide +kernel)).2
  refine ⟨⟨haccepted.1.trans (by decide), haccepted.2.trans (by decide)⟩,
    (hagree.established ⟨_, (hello.schedule_run helloSent).mem_last, by decide +kernel⟩).1,
    (hagree.firstData (by decide +kernel)).trans (by decide), ?_⟩
  -- the server takes the handshake ACK
  have hplay : ((hello.schedule (helloSent.take 6)).2.play hello (.serverRecv 0 1000)).map
      (fun s => s.server.state) = some .established := by decide +kernel
  obtain ⟨s', hs', hst⟩ := Option.map_eq_some_iff.mp hplay
  have hnumbers := (handshake_agreement (hello.schedule_run (helloSent.take 6))).completed s'
    (Sys.play_step hs') (by decide +kernel) hst
  exact ⟨s', Sys.play_step hs', hnumbers.trans (by decide)⟩

end Solo

end ReliableUdp
