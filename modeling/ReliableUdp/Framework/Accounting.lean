import ReliableUdp.Framework.Machine

namespace Machine

variable {σ ε ο : Type*}

/-- The weights of the steps of a run, added up. -/
def total (step : σ → ε → σ × List ο) (w : σ → ε → Nat) : σ → List ε → Nat
  | _, [] => 0
  | s, e :: es => w s e + total step w (step s e).1 es

variable {step : σ → ε → σ × List ο} {v w : σ → ε → Nat}

/-- A sum over the outputs of a run, taken step by step. -/
theorem sum_outputs (f : ο → Nat) (s : σ) (es : List ε) :
    ((outputs step s es).map f).sum = total step (fun s e => ((step s e).2.map f).sum) s es := by
  induction es generalizing s with
  | nil => rfl
  | cons e es ih =>
    rw [total, ← ih, outputs, logged, List.map_append, List.sum_append]

theorem countP_outputs (p : ο → Bool) (s : σ) (es : List ε) :
    (outputs step s es).countP p = total step (fun s e => (step s e).2.countP p) s es := by
  induction es generalizing s with
  | nil => rfl
  | cons e es ih => rw [total, ← ih, outputs, logged, List.countP_append]

theorem count_eq_total (P : σ → ε → Prop) [∀ s e, Decidable (P s e)] (s : σ) (es : List ε) :
    count P step s es = total step (fun s e => if P s e then 1 else 0) s es := by
  induction es generalizing s with
  | nil => rfl
  | cons e es ih => rw [count, total, ih]

theorem total_add (s : σ) (es : List ε) :
    total step (fun s e => v s e + w s e) s es = total step v s es + total step w s es := by
  induction es generalizing s with
  | nil => rfl
  | cons e es ih =>
    rw [total, total, total, ih]
    omega

theorem total_mul (n : Nat) (s : σ) (es : List ε) :
    total step (fun s e => n * w s e) s es = n * total step w s es := by
  induction es generalizing s with
  | nil => rfl
  | cons e es ih => rw [total, total, ih, Nat.mul_add]

/-- The amortised bound: what a step costs beyond its weight is taken from a potential, and what it
costs less is put there. -/
theorem total_le_of_potential (potential : σ → Nat) {I : σ → Prop}
    (hI : ∀ s e, I s → I (step s e).1)
    (h : ∀ s e, I s → v s e + potential (step s e).1 ≤ w s e + potential s) {s : σ} (hs : I s)
    (es : List ε) : total step v s es + potential (after step s es) ≤
      total step w s es + potential s := by
  induction es generalizing s with
  | nil => exact Nat.le_refl _
  | cons e es ih =>
    have hstep := h s e hs
    have hrest := ih (hI s e hs)
    rw [total, total, after]
    omega

theorem total_mono (h : ∀ s e, v s e ≤ w s e) (s : σ) (es : List ε) :
    total step v s es ≤ total step w s es :=
  total_le_of_potential (fun _ => 0) (I := fun _ => True) (fun _ _ _ => trivial)
    (fun s e _ => h s e) trivial es

end Machine
