import ReliableUdp.Endpoint.Client
import ReliableUdp.Endpoint.Server
import ReliableUdp.Sender.Representation
import ReliableUdp.Session.Progress

namespace ReliableUdp

/-- The chunks a client hands out: those before the first end of file or read error. -/
def content : InputFile → List Chunk
  | .bytes chunk :: rest => chunk :: content rest
  | _ => []

theorem content_append (chunks : List Chunk) (rest : InputFile) :
    content (chunks.map .bytes ++ rest) = chunks ++ content rest := by
  induction chunks with
  | nil => rfl
  | cons chunk chunks ih => exact congrArg (List.cons chunk) ih

theorem content_of_readChunk {rest file : InputFile}
    (h : readChunk rest = (.eof, file) ∨ readChunk rest = (.error, file)) : content rest = [] := by
  cases rest with
  | nil => rfl
  | cons outcome rest =>
    cases outcome with
    | bytes chunk =>
      rcases h with h | h
      · exact absurd (Prod.mk.inj h).1 (by simp)
      · exact absurd (Prod.mk.inj h).1 (by simp)
    | eof => rfl
    | error => rfl

def joinChunks (chunks : List Chunk) : List UInt8 := (chunks.map Subtype.val).flatten

theorem joinChunks_append (xs ys : List Chunk) :
    joinChunks (xs ++ ys) = joinChunks xs ++ joinChunks ys := by
  simp [joinChunks]

/-- The fields of a packet that its receiver looks at. -/
structure Message where
  seqNum : UInt32
  ackNum : UInt32
  connId : UInt16
  flags : UInt8
  payload : List UInt8

def Message.bytes (m : Message) : List UInt8 :=
  encode m.seqNum m.ackNum m.connId m.flags m.payload

/-- The header and payload `recv_packet` hands out carry the message. -/
structure Message.Read (m : Message) (h : RDTHeader) (payload : List UInt8) : Prop where
  seqNum : h.seqNum = m.seqNum
  ackNum : h.ackNum = m.ackNum
  connId : h.connId = m.connId
  flags : h.flags = m.flags
  payload : payload = m.payload

theorem Message.parse (m : Message) (hp : m.payload.length ≤ maxPacketSize - headerSize) :
    ∃ h, parsePacket m.bytes = .ok (h, m.payload) ∧ m.Read h m.payload := by
  obtain ⟨checksum, h⟩ := parsePacket_encode m.seqNum m.ackNum m.connId m.flags m.payload hp
  exact ⟨_, h, ⟨rfl, rfl, rfl, rfl, rfl⟩⟩

theorem Message.recv {Addr : Type} (m : Message)
    (hp : m.payload.length ≤ maxPacketSize - headerSize) {e : Env Addr} {src : Addr}
    (addr : Addr) (he : e.recvfrom = some (src, m.bytes)) :
    ∃ h, recvPacket e addr = (src, .ok (h, m.payload)) ∧ m.Read h m.payload := by
  obtain ⟨checksum, h⟩ :=
    recvPacket_encode e addr src m.seqNum m.ackNum m.connId m.flags m.payload hp he
  exact ⟨_, h, ⟨rfl, rfl, rfl, rfl, rfl⟩⟩

/-- The numbers and the data of one session. -/
structure Link where
  isn : UInt32
  serverSeq : UInt32
  connId : UInt16
  input : InputFile
  isn_lt : isn.toNat < moduler
  connId_ne : connId ≠ 0

namespace Link

def chunks (L : Link) : List Chunk := content L.input

def size (L : Link) : Nat := L.chunks.length

theorem take_length (L : Link) {m : Nat} (h : m ≤ L.size) : (L.chunks.take m).length = m := by
  rw [List.length_take]
  exact Nat.min_eq_left h

/-- The client's sequence number `k` places behind its first one. -/
def num (L : Link) (k : Nat) : UInt32 := UInt32.ofNat (L.isn.toNat + k)

variable (L : Link)

theorem num_zero : L.num 0 = L.isn := UInt32.ofNat_toNat

theorem num_toNat {k : Nat} (h : L.isn.toNat + k < 2 ^ 32) : (L.num k).toNat = L.isn.toNat + k :=
  UInt32.toNat_ofNat_of_lt' h

theorem num_succ (k : Nat) : L.num k + 1 = L.num (k + 1) := by
  apply UInt32.toNat_inj.mp
  simp only [num, UInt32.toNat_add, UInt32.toNat_ofNat', UInt32.toNat_one]
  omega

theorem num_inj {j k : Nat} (hj : L.isn.toNat + j < 2 ^ 32) (hk : L.isn.toNat + k < 2 ^ 32)
    (h : L.num j = L.num k) : j = k := by
  have ht := congrArg UInt32.toNat h
  rw [L.num_toNat hj, L.num_toNat hk] at ht
  omega

theorem isn_succ : L.isn + 1 = L.num 1 := by
  rw [← L.num_succ 0, L.num_zero]

end Link

/-- The SYN of a client. -/
def synMessage (isn : UInt32) : Message := ⟨isn, 0, 0, flagSyn, []⟩

/-- The ACK of the handshake, which the client sends once. -/
def Link.handshakeAck (L : Link) : Message := ⟨L.num 1, L.serverSeq + 1, L.connId, flagAck, []⟩

/-- The packets the client of a session can have sent after the handshake. -/
inductive Onward (L : Link) (S : Session L.size) : Message → Prop where
  | data (j : Nat) (chunk : Chunk) (hj : j < S.sent) (hc : L.chunks[j]? = some chunk) :
      Onward L S ⟨L.num (1 + j), L.serverSeq + 1, L.connId, flagData, chunk.val⟩
  | fin (h : S.closing = true) :
      Onward L S ⟨L.num (1 + L.size), L.serverSeq + 1, L.connId, flagFin, []⟩
  | lastAck (h : S.finished = true) :
      Onward L S ⟨L.num (2 + L.size), L.serverSeq + 1, L.connId, flagAck, []⟩

/-- The packets the client of a session can have sent besides its SYN. -/
inductive FromClient (L : Link) (S : Session L.size) : Message → Prop where
  | ack (h : S.opened = true) : FromClient L S L.handshakeAck
  | onward (m : Message) (h : Onward L S m) : FromClient L S m

/-- The packets the server of a session can have sent. -/
inductive FromServer (L : Link) (S : Session L.size) : Message → Prop where
  | synAck : FromServer L S ⟨L.serverSeq, L.num 1, L.connId, flagSyn ||| flagAck, []⟩
  | dataAck (k : Nat) (h : k ≤ S.delivered) :
      FromServer L S ⟨L.serverSeq, L.num (1 + k), L.connId, flagAck, []⟩
  | finAck (h : S.finSeen = true) :
      FromServer L S ⟨L.serverSeq, L.num (2 + L.size), L.connId, flagFin ||| flagAck, []⟩

variable {L : Link} {S T : Session L.size} {m : Message}

theorem Onward.mono (h : S.Le T) (hm : Onward L S m) : Onward L T m := by
  cases hm with
  | data j chunk hj hc => exact .data j chunk (hj.trans_le h.sent) hc
  | fin hc => exact .fin (h.closing hc)
  | lastAck hf => exact .lastAck (h.finished hf)

theorem FromClient.mono (h : S.Le T) (hm : FromClient L S m) : FromClient L T m := by
  cases hm with
  | ack ho => exact .ack (h.opened ho)
  | onward _ ho => exact .onward _ (ho.mono h)

theorem FromServer.mono (h : S.Le T) (hm : FromServer L S m) : FromServer L T m := by
  cases hm with
  | synAck => exact .synAck
  | dataAck k hk => exact .dataAck k (hk.trans h.delivered)
  | finAck hf => exact .finAck (h.finSeen hf)

theorem FromClient.payload_le (hm : FromClient L S m) :
    m.payload.length ≤ maxPacketSize - headerSize := by
  rcases hm with _ | ⟨_, hm⟩
  · exact Nat.zero_le _
  · cases hm with
    | data j chunk hj hc => exact chunk.property.2
    | fin _ => exact Nat.zero_le _
    | lastAck _ => exact Nat.zero_le _

theorem FromServer.payload_nil (hm : FromServer L S m) : m.payload = [] := by
  cases hm <;> rfl

end ReliableUdp
