import Mathlib.Tactic

namespace ReliableUdp

def flagSyn : UInt8 := (1 : UInt8) <<< 0
def flagAck : UInt8 := (1 : UInt8) <<< 1
def flagFin : UInt8 := (1 : UInt8) <<< 2
def flagData : UInt8 := (1 : UInt8) <<< 3

def maxPacketSize : Nat := 1200

/-- `sizeof(RDTHeader)`: the packed struct has no padding. -/
def headerSize : Nat := 15

def exOk : Int := 0
def exDataErr : Int := 65
def exSoftware : Int := 70
def exOsErr : Int := 71
def exIoErr : Int := 74
def exProtocol : Int := 76

structure RDTHeader where
  seqNum : UInt32
  ackNum : UInt32
  connId : UInt16
  checksum : UInt16
  payloadLen : UInt16
  flags : UInt8
  deriving DecidableEq, Repr

/-- The memory image of `htonl(x)`. -/
def htonl (x : UInt32) : List UInt8 :=
  [UInt8.ofNat (x.toNat / 16777216), UInt8.ofNat (x.toNat / 65536),
    UInt8.ofNat (x.toNat / 256), UInt8.ofNat x.toNat]

/-- The memory image of `htons(x)`. -/
def htons (x : UInt16) : List UInt8 :=
  [UInt8.ofNat (x.toNat / 256), UInt8.ofNat x.toNat]

def ntohl (a b c d : UInt8) : UInt32 :=
  UInt32.ofNat (a.toNat * 16777216 + b.toNat * 65536 + c.toNat * 256 + d.toNat)

def ntohs (a b : UInt8) : UInt16 :=
  UInt16.ofNat (a.toNat * 256 + b.toNat)

theorem ntohl_htonl (x : UInt32) :
    ntohl (UInt8.ofNat (x.toNat / 16777216)) (UInt8.ofNat (x.toNat / 65536))
      (UInt8.ofNat (x.toNat / 256)) (UInt8.ofNat x.toNat) = x := by
  have h := x.toNat_lt
  apply UInt32.toNat_inj.mp
  simp only [ntohl, UInt8.toNat_ofNat', UInt32.toNat_ofNat']
  omega

theorem ntohs_htons (x : UInt16) :
    ntohs (UInt8.ofNat (x.toNat / 256)) (UInt8.ofNat x.toNat) = x := by
  have h := x.toNat_lt
  apply UInt16.toNat_inj.mp
  simp only [ntohs, UInt8.toNat_ofNat', UInt16.toNat_ofNat']
  omega

/-- The word loop of `calculate_checksum` with its odd tail; `sum` is the 32-bit accumulator. -/
def checksumLoop : UInt32 → List UInt8 → UInt32
  | sum, hi :: lo :: rest =>
    let word : UInt16 := (hi.toUInt16 <<< (8 : UInt16)) ||| lo.toUInt16
    let sum : UInt32 := sum + word.toUInt32
    checksumLoop (if sum > 0xFFFF then (sum &&& (0xFFFF : UInt32)) + 1 else sum) rest
  | sum, [hi] =>
    let sum : UInt32 := sum + (hi.toUInt32 <<< (8 : UInt32))
    (sum &&& (0xFFFF : UInt32)) + (sum >>> (16 : UInt32))
  | sum, [] => sum

def calculateChecksum (data : List UInt8) : UInt16 :=
  (~~~(checksumLoop 0 data)).toUInt16

/-- The packed `RDTHeader` in network byte order. -/
def headerBytes (h : RDTHeader) : List UInt8 :=
  htonl h.seqNum ++ htonl h.ackNum ++ htons h.connId ++ htons h.checksum ++
    htons h.payloadLen ++ [h.flags]

/-- The checksum is computed over the packet with a zeroed checksum field and then stored in it;
the checksum and length fields of `header` itself are not read. -/
def buildPacket (header : RDTHeader) (payload : List UInt8) (payloadLen : UInt16) :
    List UInt8 :=
  let netHeader := { header with checksum := 0, payloadLen := payloadLen }
  let data := payload.take payloadLen.toNat
  let checksum := calculateChecksum (headerBytes netHeader ++ data)
  headerBytes { netHeader with checksum := checksum } ++ data

/-- The header at the front of a buffer, converted to host byte order. -/
def readHeader (b : List UInt8) : RDTHeader where
  seqNum := ntohl (b.getD 0 0) (b.getD 1 0) (b.getD 2 0) (b.getD 3 0)
  ackNum := ntohl (b.getD 4 0) (b.getD 5 0) (b.getD 6 0) (b.getD 7 0)
  connId := ntohs (b.getD 8 0) (b.getD 9 0)
  checksum := ntohs (b.getD 10 0) (b.getD 11 0)
  payloadLen := ntohs (b.getD 12 0) (b.getD 13 0)
  flags := b.getD 14 0

/-- `tmp_buff`: the received packet with its checksum field set to zero. -/
def clearChecksum (b : List UInt8) : List UInt8 := (b.set 10 0).set 11 0

def parsePacket (inBuffer : List UInt8) : Except Int (RDTHeader × List UInt8) :=
  if inBuffer.length < headerSize then .error (-exDataErr)
  else if inBuffer.length > maxPacketSize then .error (-exDataErr)
  else if calculateChecksum (clearChecksum inBuffer) ≠ (readHeader inBuffer).checksum then
    .error (-exDataErr)
  else if inBuffer.length < headerSize + (readHeader inBuffer).payloadLen.toNat then
    .error (-exDataErr)
  else .ok (readHeader inBuffer,
    (inBuffer.drop headerSize).take (readHeader inBuffer).payloadLen.toNat)

@[simp] theorem headerBytes_length (h : RDTHeader) : (headerBytes h).length = headerSize := rfl

theorem readHeader_headerBytes (h : RDTHeader) (data : List UInt8) :
    readHeader (headerBytes h ++ data) = h := by
  simp only [readHeader, headerBytes, htonl, htons, List.cons_append, List.nil_append,
    List.getD_cons_zero, List.getD_cons_succ, ntohl_htonl, ntohs_htons]

theorem clearChecksum_headerBytes (h : RDTHeader) (data : List UInt8) :
    clearChecksum (headerBytes h ++ data) = headerBytes { h with checksum := 0 } ++ data := by
  simp [clearChecksum, headerBytes, htonl, htons]

theorem drop_headerBytes (h : RDTHeader) (data : List UInt8) :
    (headerBytes h ++ data).drop headerSize = data := rfl

/-- The bytes of a packet with `payload` as its whole payload. -/
def encode (seq ack : UInt32) (connId : UInt16) (flags : UInt8) (payload : List UInt8) :
    List UInt8 :=
  buildPacket ⟨seq, ack, connId, 0, UInt16.ofNat payload.length, flags⟩ payload
    (UInt16.ofNat payload.length)

/-- `build_packet` reads nothing of the header but the sequence numbers, the id and the flags. -/
theorem buildPacket_eq_encode (h : RDTHeader) (payload : List UInt8) (len : UInt16)
    (hl : len.toNat ≤ payload.length) :
    buildPacket h payload len =
      encode h.seqNum h.ackNum h.connId h.flags (payload.take len.toNat) := by
  have hlen : (payload.take len.toNat).length = len.toNat := by simpa using hl
  have hofNat : UInt16.ofNat len.toNat = len := UInt16.ofNat_toNat
  simp only [encode, buildPacket, hlen, hofNat, List.take_take, Nat.min_self]

/-- What the receiver sees of a packet built with a payload that fits. -/
theorem parsePacket_encode (seq ack : UInt32) (connId : UInt16) (flags : UInt8)
    (payload : List UInt8) (hp : payload.length ≤ maxPacketSize - headerSize) :
    ∃ checksum, parsePacket (encode seq ack connId flags payload) =
      .ok (⟨seq, ack, connId, checksum, UInt16.ofNat payload.length, flags⟩, payload) := by
  have hlen : (UInt16.ofNat payload.length).toNat = payload.length := by
    simp only [maxPacketSize, headerSize] at hp
    simp only [UInt16.toNat_ofNat']
    omega
  refine ⟨calculateChecksum (headerBytes
    ⟨seq, ack, connId, 0, UInt16.ofNat payload.length, flags⟩ ++ payload), ?_⟩
  simp only [encode, buildPacket, parsePacket, readHeader_headerBytes, hlen,
    List.take_length, clearChecksum_headerBytes, drop_headerBytes, List.length_append,
    headerBytes_length]
  rw [if_neg (by omega), if_neg (by simp only [maxPacketSize, headerSize] at hp ⊢; omega),
    if_neg (by simp), if_neg (by omega)]

theorem encode_length (seq ack : UInt32) (connId : UInt16) (flags : UInt8)
    (payload : List UInt8) (hp : payload.length ≤ maxPacketSize - headerSize) :
    (encode seq ack connId flags payload).length ≤ maxPacketSize := by
  simp only [encode, buildPacket, List.length_append, headerBytes_length, List.length_take,
    maxPacketSize, headerSize] at hp ⊢
  omega

end ReliableUdp
