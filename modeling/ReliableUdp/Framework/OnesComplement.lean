import Mathlib.Tactic

namespace OnesComplement

/-- The representative of `n` modulo `m` among `1, …, m`; only `0` itself is kept as `0`. -/
def reduce (m n : Nat) : Nat := if n = 0 then 0 else (n - 1) % m + 1

section Reduce

variable {m : Nat}

theorem reduce_le (hm : 0 < m) (n : Nat) : reduce m n ≤ m := by
  have h := Nat.mod_lt (n - 1) hm
  unfold reduce
  split_ifs <;> omega

theorem reduce_modEq (n : Nat) : reduce m n ≡ n [MOD m] := by
  unfold reduce
  split_ifs with h0
  · rw [h0]
  · have h : (n - 1) % m + 1 ≡ n - 1 + 1 [MOD m] := (Nat.mod_modEq _ _).add_right 1
    rwa [Nat.sub_add_cancel (by omega)] at h

@[simp] theorem reduce_eq_zero {n : Nat} : reduce m n = 0 ↔ n = 0 := by
  unfold reduce
  split_ifs with h0 <;> simp [h0]

/-- The two representatives of zero are told apart by whether the sum is empty. -/
theorem eq_reduce {r n : Nat} (hr : r ≤ m) (hmod : r ≡ n [MOD m]) (hz : r = 0 ↔ n = 0) :
    r = reduce m n := by
  by_cases h0 : n = 0
  · rw [h0, hz.mpr h0]
    rfl
  · have hpos : r ≠ 0 := fun h => h0 (hz.mp h)
    have hle : reduce m n ≤ m := reduce_le (by omega) n
    have hne : reduce m n ≠ 0 := fun h => h0 (reduce_eq_zero.mp h)
    have hpred : r - 1 ≡ reduce m n - 1 [MOD m] := by
      have h : r - 1 + 1 ≡ reduce m n - 1 + 1 [MOD m] := by
        rw [Nat.sub_add_cancel (by omega), Nat.sub_add_cancel (by omega)]
        exact hmod.trans (reduce_modEq n).symm
      exact h.add_right_cancel' 1
    have h := hpred.eq_of_lt_of_lt (by omega) (by omega)
    omega

theorem reduce_of_le {n : Nat} (hn : n ≤ m) : reduce m n = n :=
  (eq_reduce hn rfl Iff.rfl).symm

theorem reduce_reduce_add (hm : 0 < m) (a b : Nat) :
    reduce m (reduce m a + b) = reduce m (a + b) := by
  refine eq_reduce (reduce_le hm _) ?_ ?_
  · exact (reduce_modEq _).trans ((reduce_modEq a).add_right b)
  · simp

/-- The complement of a sum cancels it. -/
theorem add_complement_modEq (hm : 0 < m) (n : Nat) : n + (m - reduce m n) ≡ 0 [MOD m] := by
  have hle := reduce_le hm n
  have h : n + (m - reduce m n) ≡ reduce m n + (m - reduce m n) [MOD m] :=
    (reduce_modEq n).symm.add_right _
  rw [Nat.add_sub_cancel' hle] at h
  exact h.trans (Nat.modEq_zero_iff_dvd.mpr (dvd_refl m))

/-- What cancels a sum is its complement, up to the two ways to write zero. -/
theorem eq_complement_iff (hm : 0 < m) {c : Nat} (hc : c ≤ m) (n : Nat) :
    c = m - reduce m n ↔ n + c ≡ 0 [MOD m] ∧ (c = m ↔ n = 0) := by
  have hle := reduce_le hm n
  constructor
  · intro h
    have hzero : c = m ↔ reduce m n = 0 := by omega
    rw [reduce_eq_zero] at hzero
    refine ⟨?_, hzero⟩
    rw [h]
    exact add_complement_modEq hm n
  · intro h
    obtain ⟨hmod, hzero⟩ := h
    have hcancel : m - c + c ≡ n + c [MOD m] := by
      rw [Nat.sub_add_cancel hc]
      exact (Nat.modEq_zero_iff_dvd.mpr (dvd_refl m)).trans hmod.symm
    have hreduce : m - c = reduce m n :=
      eq_reduce (Nat.sub_le m c) (hcancel.add_right_cancel' c) (by rw [← hzero]; omega)
    omega

end Reduce

/-- Addition with end-around carry in words below `m + 1`. -/
def add (m a b : Nat) : Nat := if a + b > m then a + b - m else a + b

theorem add_eq_reduce {m a b : Nat} (ha : a ≤ m) (hb : b ≤ m) : add m a b = reduce m (a + b) := by
  unfold add
  split_ifs with hover
  · apply eq_reduce (by omega)
    · have h : a + b - m + m ≡ a + b [MOD m] := by rw [Nat.sub_add_cancel (by omega)]
      exact (Nat.add_modEq_right.symm).trans h
    · omega
  · exact (reduce_of_le (by omega)).symm

/-- The one's-complement sum of a list of words. -/
def sum (m : Nat) (words : List Nat) : Nat := words.foldl (add m) 0

theorem foldl_add_eq {m : Nat} (hm : 0 < m) (words : List Nat) (hw : ∀ w ∈ words, w ≤ m)
    {a : Nat} (ha : a ≤ m) : words.foldl (add m) a = reduce m (a + words.sum) := by
  induction words generalizing a with
  | nil => exact (reduce_of_le ha).symm
  | cons w words ih =>
    have hle : w ≤ m := hw w List.mem_cons_self
    have hadd : add m a w = reduce m (a + w) := add_eq_reduce ha hle
    rw [List.foldl_cons, hadd, ih (fun v hv => hw v (List.mem_cons_of_mem _ hv)) (reduce_le hm _),
      reduce_reduce_add hm, List.sum_cons, Nat.add_assoc]

/-- It is the exact sum, reduced. -/
theorem sum_eq_reduce {m : Nat} (hm : 0 < m) (words : List Nat) (hw : ∀ w ∈ words, w ≤ m) :
    sum m words = reduce m words.sum := by
  rw [sum, foldl_add_eq hm words hw (Nat.zero_le m), Nat.zero_add]

/-- The big-endian 16-bit words of a byte string; an odd last byte is padded with a zero byte. -/
def words16 : List UInt8 → List Nat
  | hi :: lo :: rest => (hi.toNat * 256 + lo.toNat) :: words16 rest
  | [hi] => [hi.toNat * 256]
  | [] => []

theorem words16_le (bytes : List UInt8) : ∀ w ∈ words16 bytes, w ≤ 65535 := by
  induction bytes using words16.induct with
  | case1 hi lo rest ih =>
    intro w hw
    have hhi := hi.toNat_lt
    have hlo := lo.toNat_lt
    rcases List.mem_cons.mp hw with rfl | hw
    · omega
    · exact ih w hw
  | case2 hi =>
    intro w hw
    have hhi := hi.toNat_lt
    rw [words16, List.mem_singleton] at hw
    omega
  | case3 =>
    intro w hw
    exact absurd hw List.not_mem_nil

/-- The sum of a byte string may be taken in two parts. -/
theorem words16_sum_split (bytes : List UInt8) (k : Nat) : (words16 bytes).sum =
    (words16 (bytes.take (2 * k))).sum + (words16 (bytes.drop (2 * k))).sum := by
  induction bytes using words16.induct generalizing k with
  | case1 hi lo rest ih =>
    cases k with
    | zero => exact (Nat.zero_add _).symm
    | succ k =>
      show (hi.toNat * 256 + lo.toNat) + (words16 rest).sum =
        (hi.toNat * 256 + lo.toNat) + (words16 (rest.take (2 * k))).sum +
          (words16 (rest.drop (2 * k))).sum
      rw [ih k, Nat.add_assoc _ (words16 (rest.take (2 * k))).sum]
  | case2 hi =>
    cases k with
    | zero => exact (Nat.zero_add _).symm
    | succ k =>
      rw [Nat.mul_succ, List.take_succ_cons, List.drop_succ_cons, List.take_nil, List.drop_nil]
      exact (Nat.add_zero _).symm
  | case3 =>
    rw [List.take_nil, List.drop_nil]
    rfl

/-- The number a byte string stands for, most significant byte first. -/
def bigEndian : List UInt8 → Nat
  | [] => 0
  | b :: bytes => b.toNat * 256 ^ bytes.length + bigEndian bytes

theorem bigEndian_lt (bytes : List UInt8) : bigEndian bytes < 256 ^ bytes.length := by
  induction bytes with
  | nil => simp [bigEndian]
  | cons b bytes ih =>
    have hb := b.toNat_lt
    rw [bigEndian, List.length_cons, pow_succ]
    nlinarith

theorem bigEndian_inj {p q : List UInt8} (hlen : p.length = q.length)
    (h : bigEndian p = bigEndian q) : p = q := by
  induction p generalizing q with
  | nil => exact (List.length_eq_zero_iff.mp hlen.symm).symm
  | cons b p ih =>
    cases q with
    | nil => simp at hlen
    | cons c q =>
      have hl : p.length = q.length := by simpa using hlen
      have hp := bigEndian_lt p
      have hq := bigEndian_lt q
      rw [bigEndian, bigEndian, hl] at h
      rw [hl] at hp
      have hhead : b.toNat = c.toNat := by
        have hb : (b.toNat * 256 ^ q.length + bigEndian p) / 256 ^ q.length = b.toNat := by
          rw [Nat.mul_comm, Nat.mul_add_div (by positivity), Nat.div_eq_of_lt hp, Nat.add_zero]
        have hc : (c.toNat * 256 ^ q.length + bigEndian q) / 256 ^ q.length = c.toNat := by
          rw [Nat.mul_comm, Nat.mul_add_div (by positivity), Nat.div_eq_of_lt hq, Nat.add_zero]
        rw [← hb, h, hc]
      rw [hhead] at h
      rw [UInt8.toNat_inj.mp hhead, ih hl (Nat.add_left_cancel h)]

theorem pow_even_modEq (k : Nat) : 256 ^ (2 * k) ≡ 1 [MOD 65535] := by
  have h : (65536 : Nat) ≡ 1 [MOD 65535] := by decide
  have hk := h.pow k
  rw [one_pow] at hk
  rw [pow_mul]
  exact hk

/-- Casting out: the words add up to the whole number, an odd string being shifted by its pad. -/
theorem words16_sum_modEq (bytes : List UInt8) :
    (words16 bytes).sum ≡ bigEndian bytes * 256 ^ (bytes.length % 2) [MOD 65535] := by
  induction bytes using words16.induct with
  | case1 hi lo rest ih =>
    obtain ⟨k, hk⟩ : ∃ k, rest.length + rest.length % 2 = 2 * k :=
      ⟨(rest.length + rest.length % 2) / 2, by omega⟩
    have hmod : (hi :: lo :: rest).length % 2 = rest.length % 2 := by
      simp only [List.length_cons]
      omega
    have hnum : bigEndian (hi :: lo :: rest) * 256 ^ (rest.length % 2) =
        (hi.toNat * 256 + lo.toNat) * 256 ^ (2 * k) +
          bigEndian rest * 256 ^ (rest.length % 2) := by
      simp only [bigEndian, List.length_cons, ← hk, pow_add, pow_one]
      ring
    rw [hmod, hnum, words16, List.sum_cons]
    have hword := (pow_even_modEq k).mul_left (hi.toNat * 256 + lo.toNat)
    rw [mul_one] at hword
    exact hword.symm.add ih
  | case2 hi => simp [words16, bigEndian, Nat.ModEq]
  | case3 => simp [words16, bigEndian, Nat.ModEq]

end OnesComplement
