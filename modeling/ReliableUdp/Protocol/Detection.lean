import ReliableUdp.Framework.BurstErrors
import ReliableUdp.Protocol.Checksum
import ReliableUdp.Protocol.Codec

namespace ReliableUdp

open OnesComplement BurstErrors

/-- The checksum field is a word of its own. -/
theorem words16_headerBytes_sum (h : RDTHeader) (rest : List UInt8) :
    (words16 (headerBytes h ++ rest)).sum =
      (words16 (headerBytes { h with checksum := 0 } ++ rest)).sum + h.checksum.toNat := by
  have hword : (UInt8.ofNat (h.checksum.toNat / 256)).toNat * 256 +
      (UInt8.ofNat h.checksum.toNat).toNat = h.checksum.toNat := by
    have hlt := h.checksum.toNat_lt
    simp only [UInt8.toNat_ofNat']
    omega
  have hzero : (UInt8.ofNat ((0 : UInt16).toNat / 256)).toNat * 256 +
      (UInt8.ofNat (0 : UInt16).toNat).toNat = 0 := by decide
  simp only [headerBytes, htonl, htons, List.cons_append, List.nil_append, words16, List.sum_cons]
  rw [hword, hzero]
  ring

/-- The words of an accepted packet, its checksum among them, cancel. -/
theorem Accepts.sum_modEq {b : List UInt8} {h : RDTHeader} {payload : List UInt8}
    (ha : Accepts b h payload) : (words16 b).sum ≡ 0 [MOD 65535] := by
  have hb : b = headerBytes h ++ b.drop headerSize := by
    conv_lhs => rw [eq_headerBytes_append ha.header, ha.read]
  have hsum := words16_headerBytes_sum h (b.drop headerSize)
  rw [← clearChecksum_headerBytes, ← hb] at hsum
  have hck := congrArg UInt16.toNat ha.checksum
  rw [calculateChecksum_toNat, checksumLoop_eq_reduce] at hck
  rw [hsum, ← hck]
  exact add_complement_modEq (by decide) _

/-- Two packets of one length that are both accepted stand for congruent numbers. -/
theorem Accepts.bigEndian_modEq {p q : List UInt8} {hp hq : RDTHeader} {datap dataq : List UInt8}
    (hap : Accepts p hp datap) (haq : Accepts q hq dataq) (hlen : p.length = q.length) :
    bigEndian p ≡ bigEndian q [MOD 2 ^ 16 - 1] := by
  have h := ((words16_sum_modEq p).symm.trans hap.sum_modEq).trans
    ((words16_sum_modEq q).symm.trans haq.sum_modEq).symm
  rw [← hlen] at h
  apply Nat.ModEq.cancel_right_of_coprime _ h
  rw [show 256 = 2 ^ 8 by decide, ← pow_mul]
  exact two_pow_sub_one_coprime (n := 16) (by decide) _

theorem buildPacket_accepts (h : RDTHeader) {payload : List UInt8}
    (hp : payload.length ≤ maxPacketSize - headerSize) :
    ∃ hd, Accepts (buildPacket h payload (UInt16.ofNat payload.length)) hd payload := by
  obtain ⟨checksum, hparse⟩ := parsePacket_encode h.seqNum h.ackNum h.connId h.flags payload hp
  exact ⟨_, parsePacket_accepts.mp hparse⟩

/-- A change of one byte is a change within its eight bits. -/
theorem agreeOutside_byte {p q : List UInt8} {k : Nat} (h : ∀ j : Nat, j ≠ k → q[j]? = p[j]?) :
    AgreeOutside (8 * k) 8 p q := by
  intro i hi
  have hne : i / 8 ≠ k := by omega
  simp only [bitAt, List.getD_eq_getElem?_getD, h _ hne]

/-- A packet whose bits have changed within a window of at most 16 is rejected, unless the window
has 16 bits that were all clear and are all set, or the other way round. A changed byte is always
noticed. -/
theorem burst_rejected (h : RDTHeader) (payload : List UInt8) {p q : List UInt8}
    (hpayload : payload.length ≤ maxPacketSize - headerSize)
    (hp : p = buildPacket h payload (UInt16.ofNat payload.length)) (hlen : q.length = p.length)
    (hne : q ≠ p) :
    (∀ start width, width ≤ 16 → AgreeOutside start width p q →
      ¬ (width = 16 ∧ (Uniform false start 16 p ∧ Uniform true start 16 q ∨
        Uniform true start 16 p ∧ Uniform false start 16 q)) →
      ∃ code, parsePacket q = .error code) ∧
    ∀ k : Nat, (∀ j : Nat, j ≠ k → q[j]? = p[j]?) → ∃ code, parsePacket q = .error code := by
  obtain ⟨hd, hap⟩ := buildPacket_accepts h hpayload
  rw [← hp] at hap
  have hwindow (start width : Nat) (hw : width ≤ 16) (hout : AgreeOutside start width p q)
      (hflip : ¬ (width = 16 ∧ (Uniform false start 16 p ∧ Uniform true start 16 q ∨
        Uniform true start 16 p ∧ Uniform false start 16 q))) :
      ∃ code, parsePacket q = .error code := by
    apply parsePacket_error_of_not
    intro hq data haq
    have hmod := hap.bigEndian_modEq haq hlen.symm
    rcases eq_or_inverts (by decide) hw hlen.symm hout hmod with heq | hinv
    · exact hne heq.symm
    · exact hflip hinv
  refine ⟨hwindow, ?_⟩
  intro k hk
  apply hwindow (8 * k) 8 (by decide) (agreeOutside_byte hk)
  intro hwide
  exact absurd hwide.1 (by decide)

/-- A SYN with the number 7. -/
def synSeven : List UInt8 := buildPacket ⟨7, 0, 0, 0, 0, flagSyn⟩ [] 0

/-- The last bit of the number and the first of the field behind it, two bits in two words. -/
def acrossWords : List UInt8 := (synSeven.set 3 6).set 4 128

theorem acrossWords_agree : AgreeOutside 31 2 synSeven acrossWords := by
  intro i hi
  rcases Nat.lt_or_ge i 40 with hlt | hge
  · have hall : ∀ i : Fin 40, ¬ (31 ≤ i.val ∧ i.val < 31 + 2) →
        bitAt synSeven i.val = bitAt acrossWords i.val := by decide +kernel
    exact hall ⟨i, hlt⟩ hi
  · have hbyte : 5 ≤ i / 8 := by omega
    rw [bitAt, bitAt, acrossWords, List.getD_eq_getElem?_getD, List.getD_eq_getElem?_getD,
      List.getElem?_set_ne (by omega), List.getElem?_set_ne (by omega)]

theorem burst_rejected_syn :
    (∃ code, parsePacket acrossWords = .error code) ∧
    ∃ code, parsePacket (synSeven.set 3 6) = .error code := by
  constructor
  · exact (burst_rejected ⟨7, 0, 0, 0, 0, flagSyn⟩ [] (by decide) rfl (by decide) (by decide)).1
      31 2 (by decide) acrossWords_agree (fun hwide => absurd hwide.1 (by decide))
  · apply (burst_rejected ⟨7, 0, 0, 0, 0, flagSyn⟩ [] (by decide) rfl (by decide) (by decide)).2 3
    intro j hj
    exact List.getElem?_set_ne (Ne.symm hj)

end ReliableUdp
