import Mathlib.Logic.Relation
import Mathlib.Tactic

namespace Transition

variable {σ : Type*} (step : σ → σ → Prop) (init : σ)

/-- A run from `init` to the last state; `past` lists the states visited, newest first. -/
inductive Run : List σ → σ → Prop
  | start : Run [init] init
  | step {past : List σ} {s s' : σ} (h : Run past s) (hs : step s s') : Run (s' :: past) s'

variable {step init}

theorem Run.mem_last {past : List σ} {s : σ} (h : Run step init past s) : s ∈ past := by
  cases h with
  | start => exact List.mem_cons_self
  | step _ _ => exact List.mem_cons_self

/-- A forward simulation: the abstract state follows the run, and every visited state was related
to an abstract state that the present one comes from. The relation may speak about the past. -/
theorem Run.simulate {α : Type*} {astep : α → α → Prop} {R : List σ → α → σ → Prop} {a₀ : α}
    (h0 : R [init] a₀ init)
    (hs : ∀ past a s s', R past a s → step s s' →
      ∃ a', Relation.ReflTransGen astep a a' ∧ R (s' :: past) a' s')
    {past : List σ} {s : σ} (h : Run step init past s) :
    ∃ a, Relation.ReflTransGen astep a₀ a ∧ R past a s ∧
      ∀ t ∈ past, ∃ past₀ b, R past₀ b t ∧ Relation.ReflTransGen astep b a := by
  induction h with
  | start =>
    refine ⟨a₀, .refl, h0, fun t ht => ?_⟩
    rw [List.mem_singleton.mp ht]
    exact ⟨_, a₀, h0, .refl⟩
  | step _ hstep ih =>
    obtain ⟨a, ha, hr, hpast⟩ := ih
    obtain ⟨a', haa', hr'⟩ := hs _ a _ _ hr hstep
    refine ⟨a', ha.trans haa', hr', fun t ht => ?_⟩
    rcases List.mem_cons.mp ht with rfl | ht
    · exact ⟨_, a', hr', .refl⟩
    · obtain ⟨past₀, b, hb, hba⟩ := hpast t ht
      exact ⟨past₀, b, hb, hba.trans haa'⟩

/-- Some continuation of `s` gets to `goal`. -/
def CanReach (step : σ → σ → Prop) (goal : σ → Prop) (s : σ) : Prop :=
  ∃ t, Relation.ReflTransGen step s t ∧ goal t

section CanReach

variable {P Q R : σ → Prop} {s s' : σ}

theorem CanReach.now (h : Q s) : CanReach step Q s := ⟨s, .refl, h⟩

theorem CanReach.next (hs : step s s') (h : CanReach step Q s') : CanReach step Q s := by
  obtain ⟨t, ht, hq⟩ := h
  exact ⟨t, .head hs ht, hq⟩

theorem CanReach.trans (h : CanReach step Q s) (hq : ∀ t, Q t → CanReach step R t) :
    CanReach step R s := by
  obtain ⟨t, ht, hQ⟩ := h
  obtain ⟨u, hu, hR⟩ := hq t hQ
  exact ⟨u, ht.trans hu, hR⟩

/-- A rank that can be made smaller as long as the goal is not reached. -/
theorem CanReach.descend (rank : σ → Nat)
    (h : ∀ s, P s → CanReach step (fun t => Q t ∨ P t ∧ rank t < rank s) s) (hP : P s) :
    CanReach step Q s := by
  induction hn : rank s using Nat.strong_induction_on generalizing s with
  | _ n ih =>
    apply (h s hP).trans
    intro t hcase
    rcases hcase with hQ | ⟨hPt, hlt⟩
    · exact .now hQ
    · exact ih (rank t) (by omega) hPt rfl

/-- What every step keeps cannot be left. -/
theorem CanReach.of_invariant {I : σ → Prop} (hI : ∀ s s', I s → step s s' → I s') (hs : I s)
    (h : CanReach step Q s) : ∃ t, I t ∧ Q t := by
  obtain ⟨t, ht, hq⟩ := h
  have hkeep : I t := by
    clear hq
    induction ht with
    | refl => exact hs
    | tail _ hstep ih => exact hI _ _ ih hstep
  exact ⟨t, hkeep, hq⟩

end CanReach

end Transition
