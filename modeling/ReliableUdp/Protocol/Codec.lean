import ReliableUdp.Framework.OnesComplement
import ReliableUdp.Protocol.Runtime

namespace ReliableUdp

open OnesComplement

theorem ofNat_of_mod {n : Nat} (x : UInt8) (hn : n % 256 = x.toNat) : UInt8.ofNat n = x := by
  apply UInt8.toNat_inj.mp
  rw [UInt8.toNat_ofNat']
  exact hn

theorem htonl_ntohl (a b c d : UInt8) : htonl (ntohl a b c d) = [a, b, c, d] := by
  have ha := a.toNat_lt
  have hb := b.toNat_lt
  have hc := c.toNat_lt
  have hd := d.toNat_lt
  have hx : (ntohl a b c d).toNat =
      a.toNat * 16777216 + b.toNat * 65536 + c.toNat * 256 + d.toNat :=
    UInt32.toNat_ofNat_of_lt' (by simp only [UInt32.size]; omega)
  rw [htonl, hx, ofNat_of_mod a (by omega), ofNat_of_mod b (by omega), ofNat_of_mod c (by omega),
    ofNat_of_mod d (by omega)]

theorem htons_ntohs (a b : UInt8) : htons (ntohs a b) = [a, b] := by
  have ha := a.toNat_lt
  have hb := b.toNat_lt
  have hx : (ntohs a b).toNat = a.toNat * 256 + b.toNat :=
    UInt16.toNat_ofNat_of_lt' (by simp only [UInt16.size]; omega)
  rw [htons, hx, ofNat_of_mod a (by omega), ofNat_of_mod b (by omega)]

theorem take_eq_map_getD (b : List UInt8) {n : Nat} (hn : n ≤ b.length) :
    b.take n = (List.range n).map (b.getD · 0) := by
  apply List.ext_getElem
  · simp [hn]
  · intro i h1 h2
    simp only [List.length_map, List.length_range] at h2
    simp [List.getElem?_eq_getElem (show i < b.length by omega)]

/-- Reading a header and writing it back restores its bytes. -/
theorem headerBytes_readHeader {b : List UInt8} (hb : headerSize ≤ b.length) :
    headerBytes (readHeader b) = b.take headerSize := by
  rw [take_eq_map_getD b hb]
  simp only [headerBytes, readHeader, htonl_ntohl, htons_ntohs]
  rfl

theorem eq_headerBytes_append {b : List UInt8} (hb : headerSize ≤ b.length) :
    b = headerBytes (readHeader b) ++ b.drop headerSize := by
  rw [headerBytes_readHeader hb, List.take_append_drop]

/-- What follows the header has no part in it. -/
theorem readHeader_append {b : List UInt8} (hb : headerSize ≤ b.length) (rest : List UInt8) :
    readHeader (b ++ rest) = readHeader b := by
  calc readHeader (b ++ rest)
      = readHeader (headerBytes (readHeader b) ++ (b.drop headerSize ++ rest)) := by
        rw [← List.append_assoc, ← eq_headerBytes_append hb]
    _ = readHeader b := readHeader_headerBytes _ _

/-- What it takes for a packet to be accepted. -/
structure Accepts (b : List UInt8) (h : RDTHeader) (payload : List UInt8) : Prop where
  header : headerSize ≤ b.length
  size : b.length ≤ maxPacketSize
  checksum : calculateChecksum (clearChecksum b) = h.checksum
  fits : headerSize + h.payloadLen.toNat ≤ b.length
  read : readHeader b = h
  payload : payload = (b.drop headerSize).take h.payloadLen.toNat

theorem parsePacket_accepts {b : List UInt8} {h : RDTHeader} {payload : List UInt8} :
    parsePacket b = .ok (h, payload) ↔ Accepts b h payload := by
  constructor
  · intro hp
    rw [parsePacket] at hp
    split_ifs at hp with h1 h2 h3 h4
    obtain ⟨rfl, rfl⟩ := Prod.mk.inj (Except.ok.inj hp)
    exact ⟨Nat.le_of_not_lt h1, Nat.le_of_not_lt h2, not_not.mp h3, Nat.le_of_not_lt h4, rfl, rfl⟩
  · intro ha
    obtain ⟨h1, h2, h3, h4, rfl, rfl⟩ := ha
    rw [parsePacket, if_neg (Nat.not_lt.mpr h1), if_neg (Nat.not_lt.mpr h2),
      if_neg (not_not.mpr h3), if_neg (Nat.not_lt.mpr h4)]

theorem Accepts.payload_length {b : List UInt8} {h : RDTHeader} {payload : List UInt8}
    (ha : Accepts b h payload) : payload.length = h.payloadLen.toNat := by
  have hfits := ha.fits
  rw [ha.payload, List.length_take, List.length_drop]
  omega

theorem parsePacket_error_of_not {b : List UInt8} (h : ∀ h payload, ¬ Accepts b h payload) :
    ∃ code, parsePacket b = .error code := by
  cases hp : parsePacket b with
  | error code => exact ⟨code, rfl⟩
  | ok r => exact absurd (parsePacket_accepts.mp hp) (h r.1 r.2)

/-- A packet of exactly the declared length is what `build_packet` makes of its parts. -/
theorem Accepts.eq_buildPacket {b : List UInt8} {h : RDTHeader} {payload : List UInt8}
    (ha : Accepts b h payload) (hlen : b.length = headerSize + h.payloadLen.toNat) :
    b = buildPacket h payload (UInt16.ofNat payload.length) := by
  have hrest : b.drop headerSize = payload := by
    rw [ha.payload, List.take_of_length_le]
    rw [List.length_drop]
    omega
  have hb : b = headerBytes h ++ payload := by
    rw [← hrest, ← ha.read]
    exact eq_headerBytes_append ha.header
  have hdecl : UInt16.ofNat payload.length = h.payloadLen := by
    rw [ha.payload_length]
    exact UInt16.ofNat_toNat
  have hsum : calculateChecksum (headerBytes { h with checksum := 0 } ++ payload) = h.checksum := by
    rw [← clearChecksum_headerBytes, ← hb]
    exact ha.checksum
  rw [buildPacket, hdecl, ← ha.payload_length, List.take_length, hsum]
  exact hb

section Decode

variable (h : RDTHeader) (payload : List UInt8)

theorem ofNat_length_toNat {payload : List UInt8}
    (hp : payload.length ≤ maxPacketSize - headerSize) :
    (UInt16.ofNat payload.length).toNat = payload.length := by
  apply UInt16.toNat_ofNat_of_lt'
  simp only [maxPacketSize, headerSize] at hp
  simp only [UInt16.size]
  omega

/-- The layout of a packet, with the checksum of its bytes in the checksum field. -/
theorem buildPacket_layout (hp : payload.length ≤ maxPacketSize - headerSize) :
    ∃ checksum, buildPacket h payload (UInt16.ofNat payload.length) =
      headerBytes ⟨h.seqNum, h.ackNum, h.connId, checksum, UInt16.ofNat payload.length, h.flags⟩ ++
        payload ∧
      checksum = calculateChecksum
        (clearChecksum (buildPacket h payload (UInt16.ofNat payload.length))) := by
  have hlen := ofNat_length_toNat hp
  rw [buildPacket, hlen, List.take_length, clearChecksum_headerBytes]
  exact ⟨_, rfl, rfl⟩

theorem buildPacket_length (hp : payload.length ≤ maxPacketSize - headerSize) :
    (buildPacket h payload (UInt16.ofNat payload.length)).length =
      headerSize + payload.length := by
  obtain ⟨checksum, hb, _⟩ := buildPacket_layout h payload hp
  rw [hb, List.length_append, headerBytes_length]

end Decode

theorem htonl_bigEndian (x : UInt32) : bigEndian (htonl x) = x.toNat := by
  have hx := x.toNat_lt
  simp only [htonl, bigEndian, List.length_cons, List.length_nil, UInt8.toNat_ofNat']
  omega

theorem htons_bigEndian (x : UInt16) : bigEndian (htons x) = x.toNat := by
  have hx := x.toNat_lt
  simp only [htons, bigEndian, List.length_cons, List.length_nil, UInt8.toNat_ofNat']
  omega

/-- The bytes of a packet: every field in its place, most significant byte first. -/
structure NetworkOrder (h : RDTHeader) (payload packet : List UInt8) : Prop where
  seqNum : bigEndian (packet.take 4) = h.seqNum.toNat
  ackNum : bigEndian ((packet.drop 4).take 4) = h.ackNum.toNat
  connId : bigEndian ((packet.drop 8).take 2) = h.connId.toNat
  checksum : bigEndian ((packet.drop 10).take 2) =
    (calculateChecksum (clearChecksum packet)).toNat
  payloadLen : bigEndian ((packet.drop 12).take 2) = payload.length
  flags : packet[14]? = some h.flags
  payload : packet.drop headerSize = payload

theorem buildPacket_networkOrder (h : RDTHeader) {payload : List UInt8}
    (hp : payload.length ≤ maxPacketSize - headerSize) :
    NetworkOrder h payload (buildPacket h payload (UInt16.ofNat payload.length)) := by
  obtain ⟨checksum, hb, hsum⟩ := buildPacket_layout h payload hp
  rw [hb] at hsum ⊢
  refine ⟨htonl_bigEndian _, htonl_bigEndian _, htons_bigEndian _, ?_, ?_, rfl,
    drop_headerBytes _ _⟩
  · rw [← hsum]
    exact htons_bigEndian _
  · exact (htons_bigEndian _).trans (ofNat_length_toNat hp)

/-- A prefix holds less than its header declares, so no checksum saves it. -/
theorem prefix_rejected (h : RDTHeader) {payload part : List UInt8}
    (hp : payload.length ≤ maxPacketSize - headerSize)
    (hpre : part <+: buildPacket h payload (UInt16.ofNat payload.length))
    (hne : part ≠ buildPacket h payload (UInt16.ofNat payload.length)) :
    ∃ code, parsePacket part = .error code := by
  obtain ⟨checksum, hb, _⟩ := buildPacket_layout h payload hp
  obtain ⟨rest, hrest⟩ := hpre
  have hlen := buildPacket_length h payload hp
  have hrestpos : 0 < rest.length := by
    apply List.length_pos_iff.mpr
    intro hnil
    rw [hnil, List.append_nil] at hrest
    exact hne hrest
  rw [← hrest, List.length_append] at hlen
  apply parsePacket_error_of_not
  intro hd data ha
  have hdecl : hd.payloadLen.toNat = payload.length := by
    rw [← ha.read, ← readHeader_append ha.header rest, hrest, hb, readHeader_headerBytes]
    exact ofNat_length_toNat hp
  have hfits := ha.fits
  omega

/-- Parsing what has been built gives back the fields and the payload, whatever the checksum and
length fields of the header were; no proper prefix of a packet is accepted. -/
theorem parse_build (h : RDTHeader) (payload : List UInt8)
    (hp : payload.length ≤ maxPacketSize - headerSize) :
    (buildPacket h payload (UInt16.ofNat payload.length)).length = headerSize + payload.length ∧
    (buildPacket h payload (UInt16.ofNat payload.length)).length ≤ maxPacketSize ∧
    NetworkOrder h payload (buildPacket h payload (UInt16.ofNat payload.length)) ∧
    (∃ hd, parsePacket (buildPacket h payload (UInt16.ofNat payload.length)) = .ok (hd, payload) ∧
      hd.seqNum = h.seqNum ∧ hd.ackNum = h.ackNum ∧ hd.connId = h.connId ∧ hd.flags = h.flags ∧
      hd.payloadLen.toNat = payload.length) ∧
    ∀ part, part <+: buildPacket h payload (UInt16.ofNat payload.length) →
      part ≠ buildPacket h payload (UInt16.ofNat payload.length) →
      ∃ code, parsePacket part = .error code := by
  have hlen := buildPacket_length h payload hp
  refine ⟨hlen, ?_, buildPacket_networkOrder h hp, ?_, ?_⟩
  · rw [hlen]
    simp only [maxPacketSize, headerSize] at hp ⊢
    omega
  · obtain ⟨checksum, hparse⟩ := parsePacket_encode h.seqNum h.ackNum h.connId h.flags payload hp
    exact ⟨_, hparse, rfl, rfl, rfl, rfl, ofNat_length_toNat hp⟩
  · intro part hpre hne
    exact prefix_rejected h hp hpre hne

theorem parse_build_three :
    (buildPacket ⟨7, 8, 9, 0xABCD, 500, 0xFF⟩ [1, 2, 3] 3).length = 18 ∧
    ∃ hd, parsePacket (buildPacket ⟨7, 8, 9, 0xABCD, 500, 0xFF⟩ [1, 2, 3] 3) =
      .ok (hd, [1, 2, 3]) := by
  obtain ⟨hlen, _, _, ⟨hd, hparse, _⟩, _⟩ :=
    parse_build ⟨7, 8, 9, 0xABCD, 500, 0xFF⟩ [1, 2, 3] (by decide)
  exact ⟨hlen, hd, hparse⟩

/-- The payload length that the header of a datagram declares. -/
def declaredLen (datagram : List UInt8) : Nat := (readHeader datagram).payloadLen.toNat

section Receive

variable {Addr : Type} {e : Env Addr} {addr src : Addr} {datagram : List UInt8} {h : RDTHeader}
  {payload : List UInt8}

/-- What `recv_packet` accepts is accepted from the first 1200 bytes of the datagram. -/
theorem recvPacket_accepts (he : e.recvfrom = some (src, datagram))
    (hr : recvPacket e addr = (src, .ok (h, payload))) :
    Accepts (datagram.take maxPacketSize) h payload := by
  rw [recvPacket, he] at hr
  exact parsePacket_accepts.mp (Prod.mk.inj hr).2

/-- The buffer holds the whole header, so the declared length is that of the datagram. -/
theorem Accepts.declared (ha : Accepts (datagram.take maxPacketSize) h payload) :
    declaredLen datagram = payload.length := by
  have hread := readHeader_append ha.header (datagram.drop maxPacketSize)
  rw [List.take_append_drop, ha.read] at hread
  rw [declaredLen, hread, ha.payload_length]

theorem Accepts.eq_build_iff (ha : Accepts (datagram.take maxPacketSize) h payload) :
    datagram = buildPacket h payload (UInt16.ofNat payload.length) ↔
      datagram.length ≤ headerSize + declaredLen datagram := by
  have hsize := ha.size
  have hfits := ha.fits
  have hlen := ha.payload_length
  have hpre : (datagram.take maxPacketSize).length ≤ datagram.length := List.length_take_le' _ _
  rw [ha.declared]
  constructor
  · intro hd
    have hbuild := buildPacket_length h payload (by
      simp only [maxPacketSize, headerSize] at hsize hfits ⊢; omega)
    rw [← hd] at hbuild
    omega
  · intro hle
    have hwhole : datagram.take maxPacketSize = datagram :=
      List.take_of_length_le (by omega)
    rw [hwhole] at ha hfits
    exact ha.eq_buildPacket (by omega)

/-- An accepted datagram is what `build_packet` makes of the header and the payload read from it
exactly if no byte follows the declared payload; among such datagrams no two are read alike. -/
theorem received_is_built_iff (he : e.recvfrom = some (src, datagram))
    (hr : recvPacket e addr = (src, .ok (h, payload))) :
    (datagram = buildPacket h payload (UInt16.ofNat payload.length) ∧
      datagram.length = headerSize + payload.length ∧ datagram.length ≤ maxPacketSize ↔
        datagram.length ≤ headerSize + declaredLen datagram) ∧
    ∀ (e' : Env Addr) (addr' src' : Addr) (datagram' : List UInt8),
      e'.recvfrom = some (src', datagram') → recvPacket e' addr' = (src', .ok (h, payload)) →
      datagram.length ≤ headerSize + declaredLen datagram →
      datagram'.length ≤ headerSize + declaredLen datagram' → datagram' = datagram := by
  have ha := recvPacket_accepts he hr
  have hsize := ha.size
  have hfits := ha.fits
  have hlen := ha.payload_length
  constructor
  · constructor
    · intro hall
      exact ha.eq_build_iff.mp hall.1
    · intro hle
      have hd := ha.eq_build_iff.mpr hle
      have hbuild := buildPacket_length h payload (by
        simp only [maxPacketSize, headerSize] at hsize hfits ⊢; omega)
      rw [← hd] at hbuild
      exact ⟨hd, hbuild, by omega⟩
  · intro e' addr' src' datagram' he' hr' hle hle'
    have ha' := recvPacket_accepts he' hr'
    rw [ha.eq_build_iff.mpr hle]
    exact ha'.eq_build_iff.mpr hle'

end Receive

theorem received_is_built_iff_syn :
    encode 7 0 0 flagSyn [] = buildPacket ⟨7, 0, 0, 0xFEF8, 0, flagSyn⟩ [] 0 := by
  have hr : recvPacket (Env.arrival 1 (encode 7 0 0 flagSyn []) 1) 0 =
      (1, .ok (⟨7, 0, 0, 0xFEF8, 0, flagSyn⟩, [])) := by decide +kernel
  exact ((received_is_built_iff rfl hr).1.mpr (by decide +kernel)).1

/-- Two zero bytes behind a packet change no checksum and are not noticed. -/
theorem padded_packet_accepted :
    ¬ ∀ (e : Env Nat) (addr src : Nat) (datagram : List UInt8) (h : RDTHeader)
      (payload : List UInt8), e.recvfrom = some (src, datagram) →
      recvPacket e addr = (src, .ok (h, payload)) →
      datagram = buildPacket h payload (UInt16.ofNat payload.length) := by
  intro hall
  have hr : recvPacket (Env.arrival 1 (encode 7 0 0 flagSyn [] ++ [0, 0]) 1) 0 =
      (1, .ok (⟨7, 0, 0, 0xFEF8, 0, flagSyn⟩, [])) := by decide +kernel
  have hlen := congrArg List.length (hall _ 0 1 _ _ _ rfl hr)
  exact absurd hlen (by decide)

end ReliableUdp
