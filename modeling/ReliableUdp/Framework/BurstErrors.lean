import ReliableUdp.Framework.OnesComplement

namespace BurstErrors

open OnesComplement

section Numbers

variable {n w k a b : Nat}

theorem two_pow_sub_one_coprime (hn : 0 < n) (k : Nat) : (2 ^ n - 1).Coprime (2 ^ k) := by
  have hodd : (2 ^ n - 1) % 2 = 1 := by
    obtain ⟨i, rfl⟩ : ∃ i, n = i + 1 := ⟨n - 1, by omega⟩
    have hpos := Nat.two_pow_pos i
    rw [pow_succ]
    omega
  exact (Nat.coprime_two_right.mpr (Nat.odd_iff.mpr hodd)).pow_right k

/-- The bits of a number inside a window. -/
def window (k w a : Nat) : Nat := a / 2 ^ k % 2 ^ w

theorem window_testBit (a : Nat) {j : Nat} (hlo : k ≤ j) (hhi : j < k + w) :
    (window k w a).testBit (j - k) = a.testBit j := by
  have hlt : j - k < w := by omega
  rw [window, Nat.testBit_mod_two_pow, Nat.testBit_div_two_pow, Nat.sub_add_cancel hlo]
  simp [hlt]

theorem eq_window (k w a : Nat) :
    a = a / 2 ^ (k + w) * 2 ^ (k + w) + a % 2 ^ k + 2 ^ k * window k w a := by
  have h1 := Nat.div_add_mod a (2 ^ k)
  have h2 := Nat.div_add_mod (a / 2 ^ k) (2 ^ w)
  have h3 : a / 2 ^ k / 2 ^ w = a / 2 ^ (k + w) := by rw [Nat.div_div_eq_div_mul, pow_add]
  have h4 : a / 2 ^ (k + w) * 2 ^ (k + w) = 2 ^ k * (2 ^ w * (a / 2 ^ k / 2 ^ w)) := by
    rw [h3, pow_add]
    ring
  rw [h4, window, add_right_comm, ← mul_add, h2, h1]

/-- Numbers that differ inside a window only differ by what the window holds, shifted. -/
theorem window_modEq (hn : 0 < n)
    (hout : ∀ j, ¬ (k ≤ j ∧ j < k + w) → a.testBit j = b.testBit j)
    (hmod : a ≡ b [MOD 2 ^ n - 1]) : window k w a ≡ window k w b [MOD 2 ^ n - 1] := by
  have hhigh : a / 2 ^ (k + w) = b / 2 ^ (k + w) := by
    apply Nat.eq_of_testBit_eq
    intro j
    rw [Nat.testBit_div_two_pow, Nat.testBit_div_two_pow]
    exact hout _ (by omega)
  have hlow : a % 2 ^ k = b % 2 ^ k := by
    apply Nat.eq_of_testBit_eq
    intro j
    rw [Nat.testBit_mod_two_pow, Nat.testBit_mod_two_pow]
    by_cases hj : j < k
    · rw [hout j (by omega)]
    · simp [hj]
  rw [eq_window k w a, eq_window k w b, hhigh, hlow] at hmod
  exact Nat.ModEq.cancel_left_of_coprime (two_pow_sub_one_coprime hn k) (hmod.add_left_cancel' _)

/-- In a window of at most `n` bits, two values are congruent modulo `2 ^ n - 1` only if they are
equal or the window has `n` bits, all clear in one value and all set in the other. -/
theorem eq_or_extremes {x y : Nat} (hw : w ≤ n) (hx : x < 2 ^ w) (hy : y < 2 ^ w)
    (hmod : x ≡ y [MOD 2 ^ n - 1]) :
    x = y ∨ w = n ∧ (x = 0 ∧ y = 2 ^ w - 1 ∨ x = 2 ^ w - 1 ∧ y = 0) := by
  have hpow : 2 ^ w ≤ 2 ^ n := Nat.pow_le_pow_right (by decide) hw
  have hpos := Nat.two_pow_pos n
  have hwidth (h : 2 ^ n - 1 < 2 ^ w) : w = n := by
    by_contra hne
    have hlt : 2 ^ w < 2 ^ n := Nat.pow_lt_pow_right (by decide) (by omega)
    omega
  have hzero {z : Nat} (hz : z < 2 ^ w) (hne : z ≠ 2 ^ n - 1) (h : 2 ^ n - 1 ≡ z [MOD 2 ^ n - 1]) :
      z = 0 := by
    have hm : z ≡ 0 [MOD 2 ^ n - 1] :=
      h.symm.trans (Nat.modEq_zero_iff_dvd.mpr (dvd_refl _))
    exact Nat.eq_zero_of_dvd_of_lt (Nat.modEq_zero_iff_dvd.mp hm) (by omega)
  by_cases hxm : x = 2 ^ n - 1
  · by_cases hym : y = 2 ^ n - 1
    · exact Or.inl (hxm.trans hym.symm)
    · have hwn := hwidth (by omega)
      rw [hxm] at hmod
      exact Or.inr ⟨hwn, Or.inr ⟨by rw [hwn]; exact hxm, hzero hy hym hmod⟩⟩
  · by_cases hym : y = 2 ^ n - 1
    · have hwn := hwidth (by omega)
      rw [hym] at hmod
      exact Or.inr ⟨hwn, Or.inl ⟨hzero hx hxm hmod.symm, by rw [hwn]; exact hym⟩⟩
    · exact Or.inl (hmod.eq_of_lt_of_lt (by omega) (by omega))

end Numbers

/-- Bit `i` of a byte string, counted from the most significant bit of its first byte. -/
def bitAt (bytes : List UInt8) (i : Nat) : Bool :=
  (bytes.getD (i / 8) 0).toNat.testBit (7 - i % 8)

theorem bigEndian_testBit (bytes : List UInt8) {i : Nat} (hi : i < 8 * bytes.length) :
    (bigEndian bytes).testBit (8 * bytes.length - 1 - i) = bitAt bytes i := by
  induction bytes generalizing i with
  | nil => simp at hi
  | cons b bytes ih =>
    have hlt : bigEndian bytes < 2 ^ (8 * bytes.length) := by
      have h := bigEndian_lt bytes
      rwa [pow_mul]
    have hnum : bigEndian (b :: bytes) = 2 ^ (8 * bytes.length) * b.toNat + bigEndian bytes := by
      rw [bigEndian, pow_mul, mul_comm]
      norm_num
    rw [List.length_cons] at hi ⊢
    rw [hnum, Nat.testBit_two_pow_mul_add _ hlt]
    by_cases h8 : i < 8
    · have hdiv : i / 8 = 0 := by omega
      have hmod : i % 8 = i := by omega
      rw [if_neg (by omega), bitAt, hdiv, hmod, List.getD_cons_zero]
      congr 1
      omega
    · have hdiv : i / 8 = (i - 8) / 8 + 1 := by omega
      have hmod : i % 8 = (i - 8) % 8 := by omega
      rw [if_pos (by omega), bitAt, hdiv, hmod, List.getD_cons_succ]
      have hidx : 8 * (bytes.length + 1) - 1 - i = 8 * bytes.length - 1 - (i - 8) := by omega
      rw [hidx]
      exact ih (by omega)

/-- The bits of the number are those of the string, from the other end. -/
theorem testBit_bigEndian (bytes : List UInt8) (j : Nat) : (bigEndian bytes).testBit j =
    (decide (j < 8 * bytes.length) && bitAt bytes (8 * bytes.length - 1 - j)) := by
  by_cases hj : j < 8 * bytes.length
  · have h := bigEndian_testBit bytes (i := 8 * bytes.length - 1 - j) (by omega)
    have hidx : 8 * bytes.length - 1 - (8 * bytes.length - 1 - j) = j := by omega
    rw [hidx] at h
    simp [hj, h]
  · have hlt : bigEndian bytes < 2 ^ j := by
      calc bigEndian bytes < 256 ^ bytes.length := bigEndian_lt bytes
        _ = 2 ^ (8 * bytes.length) := by rw [pow_mul]; norm_num
        _ ≤ 2 ^ j := Nat.pow_le_pow_right (by decide) (by omega)
    rw [Nat.testBit_lt_two_pow hlt]
    simp [hj]

/-- The two byte strings differ in bits of the window only. -/
def AgreeOutside (start width : Nat) (p q : List UInt8) : Prop :=
  ∀ i, ¬ (start ≤ i ∧ i < start + width) → bitAt p i = bitAt q i

/-- All bits of the window have the value `v`. -/
def Uniform (v : Bool) (start width : Nat) (p : List UInt8) : Prop :=
  ∀ i, start ≤ i → i < start + width → bitAt p i = v

/-- Two strings of one length whose numbers are congruent modulo `2 ^ n - 1` and which differ in a
window of at most `n` bits only are equal, or the window has `n` bits and is inverted as a whole,
from all clear to all set or back. -/
theorem eq_or_inverts {n start width : Nat} {p q : List UInt8} (hn : 0 < n) (hw : width ≤ n)
    (hlen : p.length = q.length) (hout : AgreeOutside start width p q)
    (hmod : bigEndian p ≡ bigEndian q [MOD 2 ^ n - 1]) :
    p = q ∨ width = n ∧ (Uniform false start n p ∧ Uniform true start n q ∨
      Uniform true start n p ∧ Uniform false start n q) := by
  -- the bits are numbered from the other end, and a window that sticks out is cut off
  obtain ⟨k, w, hk, hwle, hbits⟩ : ∃ k w, k + w = 8 * p.length - start ∧ w ≤ width ∧
      ∀ j, ¬ (k ≤ j ∧ j < k + w) → j < 8 * p.length →
        ¬ (start ≤ 8 * p.length - 1 - j ∧ 8 * p.length - 1 - j < start + width) :=
    ⟨8 * p.length - start - width, min width (8 * p.length - start), by omega, by omega,
      by intro j hj hlt; omega⟩
  have hagree (j : Nat) (hj : ¬ (k ≤ j ∧ j < k + w)) :
      (bigEndian p).testBit j = (bigEndian q).testBit j := by
    rw [testBit_bigEndian, testBit_bigEndian, ← hlen]
    by_cases hlt : j < 8 * p.length
    · rw [hout _ (hbits j hj hlt)]
    · simp [hlt]
  have huniform (v : Bool) (r : List UInt8) (hr : r.length = p.length) (hwn : w = n)
      (hv : ∀ j, j < w → (window k w (bigEndian r)).testBit j = v) : Uniform v start n r := by
    intro i hlo hhi
    have hj : (bigEndian r).testBit (8 * p.length - 1 - i) = v := by
      rw [← window_testBit (k := k) (w := w) _ (by omega) (by omega)]
      exact hv _ (by omega)
    have hidx : 8 * p.length - 1 - (8 * p.length - 1 - i) = i := by omega
    rw [testBit_bigEndian, hr, hidx, decide_eq_true (by omega), Bool.true_and] at hj
    exact hj
  have hlt (r : List UInt8) : window k w (bigEndian r) < 2 ^ w :=
    Nat.mod_lt _ (Nat.two_pow_pos w)
  have hzero (j : Nat) (_ : j < w) : (0 : Nat).testBit j = false := Nat.zero_testBit j
  have hones (j : Nat) (hj : j < w) : (2 ^ w - 1).testBit j = true := by
    rw [Nat.testBit_two_pow_sub_one]
    exact decide_eq_true hj
  rcases eq_or_extremes (hwle.trans hw) (hlt p) (hlt q) (window_modEq hn hagree hmod) with
    heq | ⟨hwn, ⟨hp, hq⟩ | ⟨hp, hq⟩⟩
  · left
    apply bigEndian_inj hlen
    apply Nat.eq_of_testBit_eq
    intro j
    by_cases hj : k ≤ j ∧ j < k + w
    · rw [← window_testBit _ hj.1 hj.2, ← window_testBit (bigEndian q) hj.1 hj.2, heq]
    · exact hagree j hj
  · refine Or.inr ⟨by omega, Or.inl ⟨huniform false p rfl hwn ?_, huniform true q hlen.symm hwn ?_⟩⟩
    · rw [hp]
      exact hzero
    · rw [hq]
      exact hones
  · refine Or.inr ⟨by omega, Or.inr ⟨huniform true p rfl hwn ?_, huniform false q hlen.symm hwn ?_⟩⟩
    · rw [hp]
      exact hones
    · rw [hq]
      exact hzero

end BurstErrors
