import ReliableUdp.Framework.Machine

namespace Machine

/-- A clock with a watchdog in the states of a machine. `allowance` is how much later than the
timeout a living state may still be seen, `slack` what a whole round may take. -/
structure Watchdog (σ : Type*) where
  now : σ → Nat
  last : σ → Nat
  allowance : σ → Nat
  Alive : σ → Prop
  timeout : Nat
  slack : Nat

namespace Watchdog

variable {σ ε ο : Type*} (W : Watchdog σ)

/-- A step between living states feeds the watchdog, which is of the kind `P`, or finds the timeout
not yet reached, or does neither and has to be quick. -/
inductive Move (P : Prop) (s s' : σ) : Prop where
  | feeds (kind : P) (since : W.now s ≤ W.last s') (upTo : W.last s' ≤ W.now s')
      (soon : W.now s' ≤ W.now s + W.allowance s')
      (spent : W.now s' + W.allowance s ≤ W.now s + W.slack)
  | checks (same : W.last s' = W.last s) (early : W.now s < W.last s + W.timeout)
      (soon : W.now s' ≤ W.now s + W.allowance s')
  | passes (same : W.last s' = W.last s)
      (spent : W.now s' + W.allowance s ≤ W.now s + W.allowance s')

/-- Fed not too long ago. -/
def Fed (s : σ) : Prop := W.now s ≤ W.last s + W.timeout + W.allowance s

variable {W} {P : Prop} {s s' : σ}

theorem Move.fed (h : W.Move P s s') (hs : W.Fed s) : W.Fed s' := by
  rw [Fed] at hs ⊢
  cases h with
  | feeds _ since _ soon _ => omega
  | checks same early soon => omega
  | passes same spent => omega

theorem Move.last_le (h : W.Move P s s') (hs : W.Fed s) :
    W.last s' ≤ W.last s ∨ P ∧ W.last s' ≤ W.last s + (W.timeout + W.slack) := by
  rw [Fed] at hs
  cases h with
  | feeds kind _ upTo _ spent => exact Or.inr ⟨kind, by omega⟩
  | checks same _ _ => exact Or.inl same.le
  | passes same _ => exact Or.inl same.le

variable {step : σ → ε → σ × List ο} {I : σ → Prop} {J P : σ → ε → Prop}
  [∀ s e, Decidable (P s e)]

/-- A living machine was fed not too long ago, and each feeding buys it no more than the timeout and
the slack. -/
theorem on_time (hmove : ∀ s e, I s → J s e → I (step s e).1 ∧
      (W.Alive (step s e).1 → W.Alive s ∧ W.Move (P s e) s (step s e).1))
    {s : σ} (hI : I s) (hfed : W.Fed s) (es : List ε) (hall : Always step J s es) :
    I (after step s es) ∧ (W.Alive (after step s es) → W.Fed (after step s es) ∧
      W.last (after step s es) ≤
        W.last s + count P step s es * (W.timeout + W.slack)) := by
  induction es using List.reverseRecOn with
  | nil => exact ⟨hI, fun _ => ⟨hfed, Nat.le_add_right _ _⟩⟩
  | append_singleton es e ih =>
    rw [always_snoc] at hall
    obtain ⟨hI', hbound⟩ := ih hall.1
    obtain ⟨hnext, hgoes⟩ := hmove _ e hI' hall.2
    rw [after_snoc, count_snoc]
    refine ⟨hnext, ?_⟩
    intro halive
    obtain ⟨hbefore, hm⟩ := hgoes halive
    obtain ⟨hf, hl⟩ := hbound hbefore
    refine ⟨hm.fed hf, ?_⟩
    rw [Nat.add_mul]
    rcases hm.last_le hf with hsame | ⟨hP, hfeeds⟩
    · omega
    · rw [if_pos hP, Nat.one_mul]
      omega

variable (W) (step) in
/-- As `on_time`, for the time that has passed. -/
theorem in_time (hmove : ∀ s e, I s → J s e → I (step s e).1 ∧
      (W.Alive (step s e).1 → W.Alive s ∧ W.Move (P s e) s (step s e).1))
    (hallow : ∀ s, W.allowance s ≤ W.slack) {s : σ} (hI : I s) (hfed : W.Fed s) (es : List ε)
    (hall : Always step J s es) (halive : W.Alive (after step s es)) :
    W.now (after step s es) ≤ W.last (after step s es) + (W.timeout + W.slack) ∧
      W.now (after step s es) ≤
        W.last s + (count P step s es + 1) * (W.timeout + W.slack) := by
  obtain ⟨hnow, hlast⟩ := (on_time hmove hI hfed es hall).2 halive
  have hslack := hallow (after step s es)
  rw [Fed] at hnow
  rw [Nat.succ_mul]
  constructor
  · omega
  · omega

end Watchdog

end Machine
