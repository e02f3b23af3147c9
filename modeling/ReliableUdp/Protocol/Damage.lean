import ReliableUdp.Protocol.Detection

namespace ReliableUdp

open OnesComplement

/-- The sum of all words is that of the words under the checksum, and the checksum. -/
theorem words16_clearChecksum_sum {b : List UInt8} (hb : headerSize ≤ b.length) :
    (words16 b).sum = (words16 (clearChecksum b)).sum + (readHeader b).checksum.toNat := by
  have hsum := words16_headerBytes_sum (readHeader b) (b.drop headerSize)
  rw [← clearChecksum_headerBytes, ← eq_headerBytes_append hb] at hsum
  exact hsum

/-- The checksum is right when all words cancel, where an all-ones checksum stands for nothing but
zeros. -/
theorem checksum_right_iff {b : List UInt8} (hb : headerSize ≤ b.length) :
    calculateChecksum (clearChecksum b) = (readHeader b).checksum ↔
      (words16 b).sum ≡ 0 [MOD 65535] ∧
        ((readHeader b).checksum.toNat = 65535 ↔ (words16 (clearChecksum b)).sum = 0) := by
  have hlt := (readHeader b).checksum.toNat_lt
  rw [words16_clearChecksum_sum hb, ← eq_complement_iff (by decide) (by omega),
    ← checksumLoop_eq_reduce, ← calculateChecksum_toNat, UInt16.toNat_inj]
  exact eq_comm

theorem readHeader_take {p q : List UInt8} (hp : headerSize ≤ p.length)
    (hq : headerSize ≤ q.length) (h : q.take headerSize = p.take headerSize) :
    readHeader q = readHeader p := by
  rw [← headerBytes_readHeader hp, ← headerBytes_readHeader hq] at h
  have hread := congrArg readHeader h
  rw [← List.append_nil (headerBytes (readHeader q)),
    ← List.append_nil (headerBytes (readHeader p))] at hread
  simpa only [readHeader_headerBytes] using hread

/-- Within the bounds on its length a packet is accepted when its words cancel and it declares no
more than there is. -/
theorem parsePacket_ok_iff {b : List UInt8} (hb : headerSize ≤ b.length)
    (hsize : b.length ≤ maxPacketSize) :
    (∃ hd data, parsePacket b = .ok (hd, data)) ↔
      headerSize + (readHeader b).payloadLen.toNat ≤ b.length ∧
      (words16 b).sum ≡ 0 [MOD 65535] ∧
      ((readHeader b).checksum.toNat = 65535 ↔ (words16 (clearChecksum b)).sum = 0) := by
  rw [← checksum_right_iff hb]
  constructor
  · intro hok
    obtain ⟨hd, data, hparse⟩ := hok
    have ha := parsePacket_accepts.mp hparse
    have hfits := ha.fits
    have hchecksum := ha.checksum
    rw [← ha.read] at hfits hchecksum
    exact ⟨hfits, hchecksum⟩
  · intro h
    exact ⟨_, _, parsePacket_accepts.mpr ⟨hb, hsize, h.2, h.1, rfl, rfl⟩⟩

/-- The words behind the header may change places. -/
theorem Accepts.reordered {p q : List UInt8} {h : RDTHeader} {payload : List UInt8}
    (ha : Accepts p h payload) (hwhole : p.length = headerSize + h.payloadLen.toNat)
    (hlen : q.length = p.length) (htake : q.take 16 = p.take 16)
    (hperm : (words16 (q.drop 16)).Perm (words16 (p.drop 16))) :
    Accepts q h (q.drop headerSize) := by
  have hq : headerSize ≤ q.length := hlen ▸ ha.header
  have hread : readHeader q = readHeader p := by
    apply readHeader_take ha.header hq
    have h15 := congrArg (List.take headerSize) htake
    rwa [List.take_take, List.take_take] at h15
  have hsum : (words16 q).sum = (words16 p).sum := by
    rw [words16_sum_split q 8, words16_sum_split p 8, htake, hperm.sum_eq]
  have hclear : (words16 (clearChecksum q)).sum = (words16 (clearChecksum p)).sum := by
    have hp := words16_clearChecksum_sum ha.header
    have hq := words16_clearChecksum_sum hq
    rw [hread] at hq
    omega
  refine ⟨hq, hlen ▸ ha.size, ?_, hlen ▸ ha.fits, hread.trans ha.read, ?_⟩
  · rw [← ha.read, ← hread, checksum_right_iff hq, hread, hsum, hclear,
      ← checksum_right_iff ha.header, ha.read]
    exact ha.checksum
  · rw [List.take_of_length_le]
    rw [List.length_drop]
    omega

/-- Of all that may become of a packet on its way, as long as its length stays, `parse_packet`
accepts exactly what declares no more than there is and has the same sum, with the checksum in its
usual form. In particular the words behind the header may change places unnoticed. -/
theorem damage_passes_iff (h : RDTHeader) (payload : List UInt8) {p q : List UInt8}
    (hpayload : payload.length ≤ maxPacketSize - headerSize)
    (hp : p = buildPacket h payload (UInt16.ofNat payload.length)) (hlen : q.length = p.length) :
    ((∃ hd data, parsePacket q = .ok (hd, data)) ↔
      headerSize + (readHeader q).payloadLen.toNat ≤ q.length ∧
      (words16 q).sum ≡ (words16 p).sum [MOD 65535] ∧
      ((readHeader q).checksum.toNat = 65535 ↔ (words16 (clearChecksum q)).sum = 0)) ∧
    (q.take 16 = p.take 16 → (words16 (q.drop 16)).Perm (words16 (p.drop 16)) →
      parsePacket q = .ok (readHeader p, q.drop headerSize)) := by
  obtain ⟨hd, hap⟩ := buildPacket_accepts h hpayload
  rw [← hp] at hap
  constructor
  · have hsum : (words16 q).sum ≡ 0 [MOD 65535] ↔
        (words16 q).sum ≡ (words16 p).sum [MOD 65535] :=
      ⟨fun hq => hq.trans hap.sum_modEq.symm, fun hq => hq.trans hap.sum_modEq⟩
    rw [parsePacket_ok_iff (hlen ▸ hap.header) (hlen ▸ hap.size), hsum]
  · intro htake hperm
    have hwhole : p.length = headerSize + hd.payloadLen.toNat := by
      rw [hp, buildPacket_length h payload hpayload, hap.payload_length]
    rw [parsePacket_accepts, hap.read]
    exact hap.reordered hwhole hlen htake hperm

/-- Two words of a payload that have changed places. -/
theorem damage_passes_iff_swap :
    parsePacket ((encode 7 0 42 flagData [1, 2, 3, 4, 5]).take 16 ++ [4, 5, 2, 3]) =
      .ok (readHeader (encode 7 0 42 flagData [1, 2, 3, 4, 5]), [1, 4, 5, 2, 3]) :=
  (damage_passes_iff ⟨7, 0, 42, 0, 5, flagData⟩ [1, 2, 3, 4, 5] (by decide) rfl (by decide)).2
    (by decide) (by decide)

end ReliableUdp
