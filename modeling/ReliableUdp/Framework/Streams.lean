import ReliableUdp.Framework.Machine

namespace Machine

variable {σ ε ο : Type*} (step : σ → ε → σ × List ο)

/-- The states of a machine that takes its inputs from an endless sequence. -/
def states (s : σ) (es : ℕ → ε) : ℕ → σ
  | 0 => s
  | n + 1 => (step (states s es n) (es n)).1

variable {step}

theorem states_succ (s : σ) (es : ℕ → ε) (n : ℕ) :
    states step s es (n + 1) = (step (states step s es n) (es n)).1 := rfl

/-- Every state is reached by the finite run that comes before it. -/
theorem states_eq_after (s : σ) (es : ℕ → ε) (n : ℕ) :
    states step s es n = after step s ((List.range n).map es) := by
  induction n with
  | zero => rfl
  | succ n ih =>
    rw [states_succ, ih, List.range_succ, List.map_append]
    exact (after_snoc s _ (es n)).symm

/-- A property that the steps from the state number `k` on keep. -/
theorem states_invariant {P : σ → Prop} {s : σ} {es : ℕ → ε} {k : ℕ} (h : P (states step s es k))
    (hs : ∀ n ≥ k, P (states step s es n) → P (states step s es (n + 1))) :
    ∀ n ≥ k, P (states step s es n) := by
  intro n hn
  induction n, hn using Nat.le_induction with
  | base => exact h
  | succ n hn ih => exact hs n hn ih

/-- A region in which a bounded measure would have to grow for ever is left. -/
theorem leaves (c : ℕ → σ) (R : σ → Prop) (measure : σ → ℕ) {bound k : ℕ}
    (hbound : ∀ n ≥ k, R (c n) → measure (c n) ≤ bound)
    (hgrows : ∀ m ≥ k, (∀ n ≥ m, R (c n)) → ∃ n ≥ m, measure (c m) < measure (c n)) :
    ∃ n ≥ k, ¬ R (c n) := by
  by_contra hno
  have hstays (n : ℕ) (hn : n ≥ k) : R (c n) := by
    by_contra hR
    exact hno ⟨n, hn, hR⟩
  -- the measure gets past every number
  have hpasses (j : ℕ) : ∃ n ≥ k, j ≤ measure (c n) := by
    induction j with
    | zero => exact ⟨k, Nat.le_refl k, Nat.zero_le _⟩
    | succ j ih =>
      obtain ⟨m, hm, hj⟩ := ih
      obtain ⟨n, hn, hlt⟩ := hgrows m hm (fun n hn => hstays n (hm.trans hn))
      exact ⟨n, hm.trans hn, hj.trans_lt hlt⟩
  obtain ⟨n, hn, hlt⟩ := hpasses (bound + 1)
  exact absurd (hbound n hn (hstays n hn)) (Nat.not_le.mpr hlt)

end Machine
