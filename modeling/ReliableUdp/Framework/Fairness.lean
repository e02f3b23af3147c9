import ReliableUdp.Framework.Runs

open Filter

namespace Transition

variable {σ α β : Type*}

/-- A run without an end; `action i` leads from `state i` to the next state. -/
structure Endless (step : σ → α → σ → Prop) (init : σ) where
  state : ℕ → σ
  action : ℕ → α
  start : state 0 = init
  next : ∀ i, step (state i) (action i) (state (i + 1))

namespace Endless

variable {step : σ → α → σ → Prop} {init : σ} (r : Endless step init)

/-- The states up to a moment make a run. -/
theorem run {move : σ → σ → Prop} (hmove : ∀ s a t, step s a t → move s t) (i : ℕ) :
    Run move init ((List.range (i + 1)).reverse.map r.state) (r.state i) := by
  induction i with
  | zero =>
    rw [r.start]
    simpa [r.start] using Run.start
  | succ i ih =>
    rw [List.range_succ, List.reverse_append]
    exact ih.step (hmove _ _ _ (r.next i))

/-- A simulation of single steps makes an endless run of the abstract states. -/
theorem simulate {R : β → σ → Prop} {F : β → σ → β → Prop} {b₀ : β} (h0 : R b₀ init)
    (hstep : ∀ b s a t, R b s → step s a t → ∃ c, F b t c ∧ R c t) :
    ∃ b : ℕ → β, b 0 = b₀ ∧
      ∀ i, R (b i) (r.state i) ∧ F (b i) (r.state (i + 1)) (b (i + 1)) := by
  have hnext (i : ℕ) (b : { b // R b (r.state i) }) :
      ∃ c : { c // R c (r.state (i + 1)) }, F b.val (r.state (i + 1)) c.val := by
    obtain ⟨c, hF, hR⟩ := hstep _ _ _ _ b.property (r.next i)
    exact ⟨⟨c, hR⟩, hF⟩
  choose follow hfollow using hnext
  have hinit : R b₀ (r.state 0) := by
    rw [r.start]
    exact h0
  let b (i : ℕ) : { b // R b (r.state i) } := Nat.rec ⟨b₀, hinit⟩ follow i
  exact ⟨fun i => (b i).val, rfl, fun i => ⟨(b i).property, hfollow i (b i)⟩⟩

/-- A step before the run. -/
def cons {a : α} {s : σ} (h : step init a s) (r : Endless step s) : Endless step init where
  state
    | 0 => init
    | i + 1 => r.state i
  action
    | 0 => a
    | i + 1 => r.action i
  start := rfl
  next
    | 0 => by
      change step init a (r.state 0)
      rw [r.start]
      exact h
    | i + 1 => r.next i

/-- Steps that lead to the beginning of a run can be put before it. -/
theorem exists_behind {s : σ} (h : Relation.ReflTransGen (fun s t => ∃ a, step s a t) init s)
    (r : Endless step s) : ∃ (r' : Endless step init) (n : ℕ),
      ∀ i, r'.state (i + n) = r.state i ∧ r'.action (i + n) = r.action i := by
  induction h using Relation.ReflTransGen.head_induction_on with
  | refl => exact ⟨r, 0, fun i => ⟨rfl, rfl⟩⟩
  | head hs _ ih =>
    obtain ⟨a, hs⟩ := hs
    obtain ⟨r', n, hr'⟩ := ih
    exact ⟨cons hs r', n + 1, hr'⟩

end Endless

/-- What holds from some moment on holds of the next moments too. -/
theorem eventually_next {P : ℕ → Prop} (h : ∀ᶠ i in atTop, P i) : ∀ᶠ i in atTop, P (i + 1) :=
  (tendsto_add_atTop_nat 1).eventually h

/-- What every later step keeps holds from then on. -/
theorem eventually_of_kept {P : ℕ → Prop} {i : ℕ} (h : P i)
    (hkeep : ∀ j, i ≤ j → P j → P (j + 1)) : ∀ᶠ j in atTop, P j := by
  rw [eventually_atTop]
  refine ⟨i, ?_⟩
  intro j hj
  induction j, hj using Nat.le_induction with
  | base => exact h
  | succ j hj ih => exact hkeep j hj ih

/-- A sequence that climbs whenever it changes, below a bound, comes to rest. -/
theorem exists_rest {b : ℕ → β} (rank : β → ℕ) {bound : ℕ} (hb : ∀ i, rank (b i) ≤ bound)
    (hstep : ∀ i, b (i + 1) = b i ∨ rank (b i) < rank (b (i + 1))) :
    ∃ c, ∀ᶠ i in atTop, b i = c := by
  obtain ⟨top, htop⟩ : ∃ top, ∀ i, rank (b i) ≤ rank (b top) := by
    by_contra hno
    push Not at hno
    have hclimb (n : ℕ) : ∃ i, n ≤ rank (b i) := by
      induction n with
      | zero => exact ⟨0, Nat.zero_le _⟩
      | succ n ih =>
        obtain ⟨i, hi⟩ := ih
        obtain ⟨j, hj⟩ := hno i
        exact ⟨j, by omega⟩
    obtain ⟨i, hi⟩ := hclimb (bound + 1)
    have hle := hb i
    omega
  refine ⟨b top, eventually_of_kept (i := top) rfl ?_⟩
  intro j _ hj
  rcases hstep j with hsame | hlt
  · exact hsame.trans hj
  · have hle := htop (j + 1)
    rw [hj] at hlt
    omega

/-- A turn leads to the other place, and only turns leave it: then turns are taken there again and
again. -/
theorem frequently_there {Turn There : ℕ → Prop} (hturns : ∃ᶠ i in atTop, Turn i)
    (hturn : ∀ᶠ i in atTop, Turn i → ¬ There i → There (i + 1))
    (hstay : ∀ᶠ i in atTop, ¬ Turn i → There i → There (i + 1)) :
    ∃ᶠ i in atTop, Turn i ∧ There i := by
  intro hnot
  obtain ⟨n, hn⟩ := eventually_atTop.mp (hnot.and (hturn.and hstay))
  obtain ⟨i, hi, hturned⟩ := frequently_atTop.mp hturns n
  have hthere : ∀ᶠ j in atTop, There j := by
    apply eventually_of_kept (i := i + 1)
    · exact (hn i hi).2.1 hturned (fun hthere => (hn i hi).1 ⟨hturned, hthere⟩)
    · intro j hj hthere
      have hj := hn j (by omega)
      exact hj.2.2 (fun hturned => hj.1 ⟨hturned, hthere⟩) hthere
  exact hturns ((hnot.and hthere).mono (fun j hj hturned => hj.1 ⟨hturned, hj.2⟩))

end Transition
