import Mathlib.Data.Finset.Basic
import ReliableUdp.Framework.Machine

/-- What a program does with a resource. -/
inductive ResourceOp (ρ : Type*) where
  | acquire (r : ρ)
  | use (r : ρ)
  | release (r : ρ)
  deriving DecidableEq

namespace ResourceOp

variable {ρ : Type*} [DecidableEq ρ]

/-- What is held behind an operation; `none` stands for a mistake: to acquire what is held already,
to use or to release what is not. -/
def apply (held : Finset ρ) : ResourceOp ρ → Option (Finset ρ)
  | .acquire r => if r ∈ held then none else some (insert r held)
  | .use r => if r ∈ held then some held else none
  | .release r => if r ∈ held then some (held.erase r) else none

/-- The operations `ops` lead from the resources `held` to `held'` without a mistake. -/
def Leads (held : Finset ρ) (ops : List (ResourceOp ρ)) (held' : Finset ρ) : Prop :=
  ops.foldlM apply held = some held'

variable {held held' held'' : Finset ρ} {ops ops' : List (ResourceOp ρ)} {r : ρ}

theorem Leads.nil (held : Finset ρ) : Leads held [] held := rfl

theorem Leads.acquire (h : r ∉ held) (hs : Leads (insert r held) ops held') :
    Leads held (.acquire r :: ops) held' := by
  rw [Leads, List.foldlM_cons, apply, if_neg h]
  exact hs

theorem Leads.use (h : r ∈ held) (hs : Leads held ops held') :
    Leads held (.use r :: ops) held' := by
  rw [Leads, List.foldlM_cons, apply, if_pos h]
  exact hs

theorem Leads.release (h : r ∈ held) (hs : Leads (held.erase r) ops held') :
    Leads held (.release r :: ops) held' := by
  rw [Leads, List.foldlM_cons, apply, if_pos h]
  exact hs

theorem Leads.append (h : Leads held ops held') (h' : Leads held' ops' held'') :
    Leads held (ops ++ ops') held'' := by
  rw [Leads] at h ⊢
  rw [List.foldlM_append, h]
  exact h'

/-- To use what is held changes nothing. -/
theorem Leads.uses (h : ∀ op ∈ ops, ∃ r ∈ held, op = .use r) : Leads held ops held := by
  induction ops with
  | nil => exact .nil held
  | cons op ops ih =>
    obtain ⟨⟨r, hr, rfl⟩, hops⟩ := List.forall_mem_cons.mp h
    exact .use hr (ih hops)

theorem Leads.drop (h : r ∉ held) : Leads (insert r held) [.release r] held := by
  refine .release (Finset.mem_insert_self r held) ?_
  rw [Finset.erase_insert h]
  exact .nil held

/-- In operations without a mistake every resource is acquired as often as it is released or held in
the end. -/
theorem Leads.balance (h : Leads held ops held') (r : ρ) :
    ops.count (.acquire r) + (if r ∈ held then 1 else 0) =
      ops.count (.release r) + if r ∈ held' then 1 else 0 := by
  induction ops generalizing held with
  | nil =>
    obtain rfl : held = held' := Option.some.inj h
    rfl
  | cons op ops ih =>
    rw [Leads, List.foldlM_cons] at h
    simp only [List.count_cons, beq_iff_eq]
    cases op with
    | acquire r' =>
      rw [apply] at h
      split_ifs at h with hr'
      · exact nomatch h
      · have hrest := ih (show Leads (insert r' held) ops held' from h)
        by_cases heq : r = r'
        · subst heq
          simp only [Finset.mem_insert_self, hr', if_true, if_false] at hrest ⊢
          simp
          omega
        · simp only [Finset.mem_insert, heq, false_or] at hrest
          simpa [Ne.symm heq] using hrest
    | use r' =>
      rw [apply] at h
      split_ifs at h with hr'
      · simpa using ih (show Leads held ops held' from h)
      · exact nomatch h
    | release r' =>
      rw [apply] at h
      split_ifs at h with hr'
      · have hrest := ih (show Leads (held.erase r') ops held' from h)
        by_cases heq : r = r'
        · subst heq
          simp only [Finset.notMem_erase, hr', if_true, if_false] at hrest ⊢
          simp
          omega
        · simp only [Finset.mem_erase, ne_eq, heq, not_false_iff, true_and] at hrest
          simpa [Ne.symm heq] using hrest
      · exact nomatch h

/-- A machine whose steps lead from what a state holds to what the next state holds makes no mistake
in any run. -/
theorem outputs_lead {σ ε : Type*} {step : σ → ε → σ × List (ResourceOp ρ)} (holds : σ → Finset ρ)
    {I : σ → Prop} (hI : ∀ s e, I s → I (step s e).1)
    (h : ∀ s e, I s → Leads (holds s) (step s e).2 (holds (step s e).1)) {s : σ} (hs : I s)
    (es : List ε) :
    Leads (holds s) (Machine.outputs step s es) (holds (Machine.after step s es)) := by
  induction es generalizing s with
  | nil => exact .nil _
  | cons e es ih => exact (h s e hs).append (ih (hI s e hs))

end ResourceOp
