import Mathlib.Tactic

namespace RingBuffer

variable {α : Type*} {w : Nat} [NeZero w]

/-- The slot of position `s` of an unbounded sequence kept in `w` slots. -/
def index (w : Nat) [NeZero w] (s : Nat) : Fin w := Fin.ofNat w s

@[simp] theorem index_val (s : Nat) : (index w s).val = s % w := rfl

@[simp] theorem index_add (s : Nat) : index w (s + w) = index w s :=
  Fin.ext (Nat.add_mod_right s w)

theorem index_inj {a b : Nat} (h : index w a = index w b) (hab : a ≤ b) (hb : b < a + w) :
    a = b := by
  have hv : a % w = b % w := congrArg Fin.val h
  have hd : w ∣ b - a := (Nat.modEq_iff_dvd' hab).mp hv
  have hz : b - a = 0 := Nat.eq_zero_of_dvd_of_lt hd (by omega)
  omega

/-- The slots of the last `w` positions below `hi`, from `lo` on, hold what `P` asks of them. -/
def Stores (P : Nat → α → Prop) (lo hi : Nat) (buf : Fin w → α) : Prop :=
  ∀ s, lo ≤ s → s < hi → hi ≤ s + w → P s (buf (index w s))

theorem Stores.empty (P : Nat → α → Prop) (lo : Nat) (buf : Fin w → α) : Stores P lo lo buf :=
  fun _ h1 h2 _ => absurd h2 (Nat.not_lt.mpr h1)

theorem Stores.push {P : Nat → α → Prop} {lo hi : Nat} {buf : Fin w → α}
    (h : Stores P lo hi buf) {x : α} (hx : P hi x) :
    Stores P lo (hi + 1) (Function.update buf (index w hi) x) := by
  intro s hlo hs hw
  by_cases he : s = hi
  · subst he; simpa using hx
  · have hne : index w s ≠ index w hi := fun hi' => he (index_inj hi' (by omega) (by omega))
    rw [Function.update_of_ne hne]
    exact h s hlo (by omega) (by omega)

theorem Stores.congr {P Q : Nat → α → Prop} {lo hi : Nat} {buf buf' : Fin w → α}
    (h : Stores P lo hi buf) (hq : ∀ s i, P s (buf i) → Q s (buf' i)) : Stores Q lo hi buf' :=
  fun s h1 h2 h3 => hq s _ (h s h1 h2 h3)

/-- Exactly the slots of the positions `lo, …, hi - 1` are live. -/
def Occupied (live : α → Prop) (lo hi : Nat) (buf : Fin w → α) : Prop :=
  ∀ i, live (buf i) ↔ ∃ s, lo ≤ s ∧ s < hi ∧ index w s = i

theorem Occupied.mem {live : α → Prop} {lo hi : Nat} {buf : Fin w → α}
    (h : Occupied live lo hi buf) {s : Nat} (hlo : lo ≤ s) (hs : s < hi) :
    live (buf (index w s)) :=
  (h _).mpr ⟨s, hlo, hs, rfl⟩

theorem Occupied.push {live : α → Prop} {lo hi : Nat} {buf : Fin w → α}
    (h : Occupied live lo hi buf) (hle : lo ≤ hi) {x : α} (hx : live x) :
    Occupied live lo (hi + 1) (Function.update buf (index w hi) x) := by
  intro i
  by_cases he : i = index w hi
  · subst he
    rw [Function.update_self]
    exact ⟨fun _ => ⟨hi, hle, by omega, rfl⟩, fun _ => hx⟩
  · rw [Function.update_of_ne he, h i]
    constructor
    · intro hocc
      obtain ⟨s, h1, h2, h3⟩ := hocc
      exact ⟨s, h1, by omega, h3⟩
    · intro hocc
      obtain ⟨s, h1, h2, h3⟩ := hocc
      have hne : s ≠ hi := fun hh => he (by rw [← h3, hh])
      exact ⟨s, h1, by omega, h3⟩

/-- Killing the slots of `lo, …, mid - 1` leaves those of `mid, …, hi - 1` alive as long as the
positions in use fit the buffer. -/
theorem Occupied.retire {live : α → Prop} {lo mid hi : Nat} {buf buf' : Fin w → α}
    (h : Occupied live lo hi buf) (hlo : lo ≤ mid) (hfit : hi ≤ lo + w)
    (hdead : ∀ i, (∃ s, lo ≤ s ∧ s < mid ∧ index w s = i) → ¬ live (buf' i))
    (hkeep : ∀ i, (¬ ∃ s, lo ≤ s ∧ s < mid ∧ index w s = i) → buf' i = buf i) :
    Occupied live mid hi buf' := by
  intro i
  by_cases he : ∃ s, lo ≤ s ∧ s < mid ∧ index w s = i
  · refine ⟨fun hl => absurd hl (hdead i he), ?_⟩
    intro hocc
    obtain ⟨t, h1, h2, h3⟩ := hocc
    obtain ⟨s, h4, h5, h6⟩ := he
    have hst : s = t := index_inj (h6.trans h3.symm) (by omega) (by omega)
    omega
  · rw [hkeep i he, h i]
    constructor
    · intro hocc
      obtain ⟨s, h1, h2, h3⟩ := hocc
      by_cases hs : s < mid
      · exact absurd ⟨s, h1, hs, h3⟩ he
      · exact ⟨s, by omega, h2, h3⟩
    · intro hocc
      obtain ⟨s, h1, h2, h3⟩ := hocc
      exact ⟨s, by omega, h2, h3⟩

end RingBuffer
