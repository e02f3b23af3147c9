import ReliableUdp.Framework.OnesComplement
import ReliableUdp.Protocol.Packet

namespace ReliableUdp

open OnesComplement

/-- `(data[0] << 8) | data[1]` -/
theorem checksumWord_toNat (hi lo : UInt8) :
    ((hi.toUInt16 <<< (8 : UInt16)) ||| lo.toUInt16).toNat = hi.toNat * 256 + lo.toNat := by
  have hhi := hi.toNat_lt
  have hlo := lo.toNat_lt
  have hshift : hi.toNat <<< 8 % 2 ^ 16 = hi.toNat <<< 8 := by
    rw [Nat.shiftLeft_eq]
    omega
  simp only [UInt16.toNat_or, UInt16.toNat_shiftLeft, UInt8.toNat_toUInt16]
  rw [show (8 : UInt16).toNat % 16 = 8 from rfl, hshift,
    ← Nat.shiftLeft_add_eq_or_of_lt (by omega), Nat.shiftLeft_eq]

theorem lowHalf_toNat (x : UInt32) : (x &&& (0xFFFF : UInt32)).toNat = x.toNat % 65536 := by
  rw [UInt32.toNat_and]
  exact Nat.and_two_pow_sub_one_eq_mod x.toNat 16

/-- A round adds its word with end-around carry. -/
theorem checksumRound_toNat {sum : UInt32} (hs : sum.toNat ≤ 65535) (word : UInt16) :
    (if sum + word.toUInt32 > 0xFFFF then ((sum + word.toUInt32) &&& (0xFFFF : UInt32)) + 1
      else sum + word.toUInt32).toNat = add 65535 sum.toNat word.toNat := by
  have hw := word.toNat_lt
  have hsum : (sum + word.toUInt32).toNat = sum.toNat + word.toNat := by
    rw [UInt32.toNat_add, UInt16.toNat_toUInt32]
    exact Nat.mod_eq_of_lt (by omega)
  have hover : sum + word.toUInt32 > 0xFFFF ↔ sum.toNat + word.toNat > 65535 := by
    rw [gt_iff_lt, UInt32.lt_iff_toNat_lt, hsum]
    exact Iff.rfl
  unfold add
  by_cases h : sum.toNat + word.toNat > 65535
  · rw [if_pos (hover.mpr h), if_pos h, UInt32.toNat_add, lowHalf_toNat, hsum,
      show (1 : UInt32).toNat = 1 from rfl]
    omega
  · rw [if_neg (fun hc => h (hover.mp hc)), if_neg h, hsum]

/-- The odd tail is folded by adding the high half, to the same effect. -/
theorem checksumTail_toNat {sum : UInt32} (hs : sum.toNat ≤ 65535) (hi : UInt8) :
    (((sum + (hi.toUInt32 <<< (8 : UInt32))) &&& (0xFFFF : UInt32)) +
      ((sum + (hi.toUInt32 <<< (8 : UInt32))) >>> (16 : UInt32))).toNat =
      add 65535 sum.toNat (hi.toNat * 256) := by
  have hhi := hi.toNat_lt
  have hword : (hi.toUInt32 <<< (8 : UInt32)).toNat = hi.toNat * 256 := by
    rw [UInt32.toNat_shiftLeft, UInt8.toNat_toUInt32, show (8 : UInt32).toNat % 32 = 8 from rfl,
      Nat.shiftLeft_eq]
    omega
  have hsum : (sum + (hi.toUInt32 <<< (8 : UInt32))).toNat = sum.toNat + hi.toNat * 256 := by
    rw [UInt32.toNat_add, hword]
    exact Nat.mod_eq_of_lt (by omega)
  rw [UInt32.toNat_add, lowHalf_toNat, UInt32.toNat_shiftRight, hsum,
    show (16 : UInt32).toNat % 32 = 16 from rfl, Nat.shiftRight_eq_div_pow]
  unfold add
  split_ifs with h
  · have hhigh : (sum.toNat + hi.toNat * 256) / 2 ^ 16 = 1 := by omega
    omega
  · have hhigh : (sum.toNat + hi.toNat * 256) / 2 ^ 16 = 0 := by omega
    omega

theorem checksumLoop_toNat {sum : UInt32} (hs : sum.toNat ≤ 65535) (data : List UInt8) :
    (checksumLoop sum data).toNat = (words16 data).foldl (add 65535) sum.toNat := by
  induction data using words16.induct generalizing sum with
  | case1 hi lo rest ih =>
    have hround := checksumRound_toNat hs ((hi.toUInt16 <<< (8 : UInt16)) ||| lo.toUInt16)
    have hword := checksumWord_toNat hi lo
    have hw : hi.toNat * 256 + lo.toNat ≤ 65535 :=
      words16_le (hi :: lo :: rest) _ (by simp [words16])
    rw [hword] at hround
    have hle : add 65535 sum.toNat (hi.toNat * 256 + lo.toNat) ≤ 65535 := by
      rw [add_eq_reduce hs hw]
      exact reduce_le (by decide) _
    rw [checksumLoop, words16, List.foldl_cons, ← hround]
    exact ih (by rw [hround]; exact hle)
  | case2 hi =>
    rw [checksumLoop, words16, List.foldl_cons, List.foldl_nil]
    exact checksumTail_toNat hs hi
  | case3 => rfl

/-- The accumulator never leaves 16 bits and holds the one's-complement sum of the words. -/
theorem checksumLoop_eq_sum (data : List UInt8) :
    (checksumLoop 0 data).toNat = OnesComplement.sum 65535 (words16 data) :=
  checksumLoop_toNat (by decide) data

theorem checksumLoop_eq_reduce (data : List UInt8) :
    (checksumLoop 0 data).toNat = reduce 65535 (words16 data).sum := by
  rw [checksumLoop_eq_sum, sum_eq_reduce (by decide) _ (words16_le data)]

theorem checksumLoop_le (data : List UInt8) : (checksumLoop 0 data).toNat ≤ 65535 := by
  rw [checksumLoop_eq_reduce]
  exact reduce_le (by decide) _

/-- `(uint16_t)~sum` -/
theorem calculateChecksum_toNat (data : List UInt8) :
    (calculateChecksum data).toNat = 65535 - (checksumLoop 0 data).toNat := by
  have hle := checksumLoop_le data
  have hlt := (checksumLoop 0 data).toNat_lt
  rw [calculateChecksum, UInt32.toNat_toUInt16, UInt32.toNat_not]
  simp only [UInt32.size]
  omega

/-- The state of the loop after `k` rounds is all that the later rounds depend on. -/
theorem checksumLoop_split (k : Nat) (sum : UInt32) (data : List UInt8) :
    checksumLoop sum data =
      checksumLoop (checksumLoop sum (data.take (2 * k))) (data.drop (2 * k)) := by
  induction k generalizing sum data with
  | zero => simp [checksumLoop]
  | succ k ih =>
    rw [Nat.mul_succ]
    match data with
    | [] => simp [checksumLoop]
    | [hi] => simp [checksumLoop]
    | hi :: lo :: rest =>
      simp only [List.take_succ_cons, List.drop_succ_cons, checksumLoop]
      exact ih _ rest

/-- The checksum complements the one's-complement sum of the words: with `T` their exact sum it is
`0xFFFF` for `T = 0` and otherwise `0xFFFF - ((T - 1) % 65535 + 1)`. No round overflows the
accumulator, and the complement of its low half is what is returned. -/
theorem checksum_is_rfc1071 (data : List UInt8) :
    (calculateChecksum data).toNat = 0xFFFF - OnesComplement.sum 0xFFFF (words16 data) ∧
    (calculateChecksum data).toNat =
      (if (words16 data).sum = 0 then 0xFFFF
        else 0xFFFF - (((words16 data).sum - 1) % 65535 + 1)) ∧
    (calculateChecksum data).toNat = 0xFFFF - (checksumLoop 0 data).toNat ∧
    ∀ k, (checksumLoop 0 (data.take (2 * k))).toNat ≤ 0xFFFF ∧
      (∀ word : UInt16, (checksumLoop 0 (data.take (2 * k))).toNat + word.toNat < 2 ^ 32) ∧
      checksumLoop 0 data =
        checksumLoop (checksumLoop 0 (data.take (2 * k))) (data.drop (2 * k)) := by
  have hvalue := calculateChecksum_toNat data
  refine ⟨?_, ?_, hvalue, ?_⟩
  · rw [hvalue, checksumLoop_eq_sum]
  · rw [hvalue, checksumLoop_eq_reduce]
    unfold reduce
    split_ifs with h0
    · rfl
    · rfl
  · intro k
    have hle := checksumLoop_le (data.take (2 * k))
    refine ⟨hle, ?_, checksumLoop_split k 0 data⟩
    intro word
    have hword := word.toNat_lt
    omega

example : calculateChecksum [0x45, 0x00, 0x00, 0x1c, 0xab] = 0x0fe3 := by decide

end ReliableUdp
