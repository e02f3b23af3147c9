import ReliableUdp.Framework.Machine

namespace Machine

variable {σ ε ο κ : Type*} (allows : κ → ο → κ → Prop)

/-- A description of allowed outputs takes a whole list of them, one after the other. -/
inductive Conforms : κ → List ο → κ → Prop where
  | nil (k : κ) : Conforms k [] k
  | cons {k k' k'' : κ} {o : ο} {os : List ο} (h : allows k o k') (hs : Conforms k' os k'') :
      Conforms k (o :: os) k''

variable {allows} {k k' k'' : κ} {o : ο} {os os' : List ο}

theorem Conforms.single (h : allows k o k') : Conforms allows k [o] k' := .cons h (.nil k')

theorem Conforms.append (h : Conforms allows k os k') (h' : Conforms allows k' os' k'') :
    Conforms allows k (os ++ os') k'' := by
  induction h with
  | nil k => exact h'
  | cons ho _ ih => exact .cons ho (ih h')

/-- Every output is allowed between two states of the description, of which the first was reached by
the outputs before it. -/
theorem Conforms.split {pre post : List ο} (h : Conforms allows k (pre ++ o :: post) k') :
    ∃ m m', Conforms allows k pre m ∧ allows m o m' ∧ Conforms allows m' post k' := by
  induction pre generalizing k with
  | nil =>
    cases h with
    | cons ho hs => exact ⟨_, _, .nil k, ho, hs⟩
  | cons p pre ih =>
    cases h with
    | cons hp hs =>
      obtain ⟨m, m', hm, ho, hpost⟩ := ih hs
      exact ⟨m, m', .cons hp hm, ho, hpost⟩

/-- What every move of the description keeps. -/
theorem Conforms.invariant {I : κ → Prop} (hI : ∀ k o k', I k → allows k o k' → I k')
    (h : Conforms allows k os k') (hk : I k) : I k' := by
  induction h with
  | nil k => exact hk
  | cons ho _ ih => exact ih (hI _ _ _ hk ho)

/-- A machine whose steps all say what a description allows does so in every run. -/
theorem outputs_conform {step : σ → ε → σ × List ο} {R : σ → κ → Prop}
    (hs : ∀ s k e, R s k → ∃ k', Conforms allows k (step s e).2 k' ∧ R (step s e).1 k') {s : σ}
    (h : R s k) (es : List ε) :
    ∃ k', Conforms allows k (outputs step s es) k' ∧ R (after step s es) k' := by
  induction es generalizing s k with
  | nil => exact ⟨k, .nil k, h⟩
  | cons e es ih =>
    obtain ⟨m, hm, hR⟩ := hs s k e h
    obtain ⟨k', hk', hR'⟩ := ih hR
    exact ⟨k', hm.append hk', hR'⟩

end Machine
