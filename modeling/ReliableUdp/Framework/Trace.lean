import ReliableUdp.Framework.Machine
import ReliableUdp.Framework.Runs

namespace Transition

variable {σ ε : Type*} (act : σ → List ε → σ → Prop) (init : σ)

/-- A run of a system that notes the inputs one of its components is given, oldest first. -/
inductive Trace : List ε → σ → Prop
  | start : Trace [] init
  | step {es given : List ε} {s s' : σ} (h : Trace es s) (hs : act s given s') :
    Trace (es ++ given) s'

variable {act init} {es : List ε} {s : σ}

theorem Trace.run {step : σ → σ → Prop} (hact : ∀ s given s', act s given s' → step s s')
    (h : Trace act init es s) : ∃ past, Run step init past s := by
  induction h with
  | start => exact ⟨_, .start⟩
  | step _ hs ih =>
    obtain ⟨past, hrun⟩ := ih
    exact ⟨_, hrun.step (hact _ _ _ hs)⟩

/-- The component is in the state to which the inputs noted bring it. -/
theorem Trace.component {μ ο : Type*} {step : μ → ε → μ × List ο} (proj : σ → μ)
    (hact : ∀ s given s', act s given s' → proj s' = Machine.after step (proj s) given)
    (h : Trace act init es s) : proj s = Machine.after step (proj init) es := by
  induction h with
  | start => rfl
  | step _ hs ih => rw [hact _ _ _ hs, ih, Machine.after_append]

/-- Where at most one input is noted at a time, each was given in a state that the inputs before it
lead to. -/
theorem Trace.given (hone : ∀ s given s', act s given s' → given.length ≤ 1)
    (h : Trace act init es s) {pre post : List ε} {e : ε} (hes : es = pre ++ e :: post) :
    ∃ t t', Trace act init pre t ∧ act t [e] t' := by
  induction h generalizing post with
  | start => exact absurd hes (by simp)
  | @step es given s s' htrace hs ih =>
    have hlen := hone _ _ _ hs
    cases given with
    | nil =>
      rw [List.append_nil] at hes
      exact ih hes
    | cons d rest =>
      obtain rfl : rest = [] := by
        apply List.eq_nil_of_length_eq_zero
        rw [List.length_cons] at hlen
        omega
      rcases Machine.split_snoc hes with ⟨rfl, rfl⟩ | ⟨post', hes⟩
      · exact ⟨s, s', htrace, hs⟩
      · exact ih hes

end Transition
