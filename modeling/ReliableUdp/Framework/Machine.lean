import Mathlib.Tactic

namespace Machine

variable {σ ε ο : Type*} (step : σ → ε → σ × List ο)

/-- The state of a deterministic machine after a list of inputs. -/
def after : σ → List ε → σ
  | s, [] => s
  | s, e :: es => after (step s e).1 es

/-- What `entries` picks from the steps of the machine, in order. -/
def logged {α : Type*} (entries : σ → ε → List α) : σ → List ε → List α
  | _, [] => []
  | s, e :: es => entries s e ++ logged entries (step s e).1 es

/-- What the machine has put out by then. -/
def outputs : σ → List ε → List ο := logged step (fun s e => (step s e).2)

variable {step}

theorem after_append (s : σ) (xs ys : List ε) :
    after step s (xs ++ ys) = after step (after step s xs) ys := by
  induction xs generalizing s with
  | nil => rfl
  | cons x xs ih => exact ih (step s x).1

theorem after_snoc (s : σ) (xs : List ε) (e : ε) :
    after step s (xs ++ [e]) = (step (after step s xs) e).1 := by
  rw [after_append]
  rfl

/-- A place in `es ++ [e]` is the last one or lies in `es`. -/
theorem split_snoc {es pre post : List ε} {d e : ε} (h : es ++ [e] = pre ++ d :: post) :
    (pre = es ∧ d = e) ∨ ∃ post', es = pre ++ d :: post' := by
  rcases List.eq_nil_or_concat post with rfl | ⟨post', e', rfl⟩
  · obtain ⟨hpre, hd⟩ := List.append_inj' h rfl
    exact Or.inl ⟨hpre.symm, (List.cons.inj hd).1.symm⟩
  · rw [List.concat_eq_append, ← List.cons_append, ← List.append_assoc] at h
    exact Or.inr ⟨post', (List.append_inj' h rfl).1⟩

/-- A property that every step keeps holds after all inputs. -/
theorem after_invariant {P : σ → Prop} (hs : ∀ s e, P s → P (step s e).1) {s : σ} (h : P s)
    (es : List ε) : P (after step s es) := by
  induction es generalizing s with
  | nil => exact h
  | cons e es ih => exact ih (hs s e h)

/-- As `after_invariant`, for a property that may speak about the inputs so far. -/
theorem run_invariant {I : List ε → σ → Prop} {s : σ} (h : I [] s)
    (hs : ∀ pre e, I pre (after step s pre) → I (pre ++ [e]) (step (after step s pre) e).1)
    (es : List ε) : I es (after step s es) := by
  induction es using List.reverseRecOn with
  | nil => exact h
  | append_singleton pre e ih =>
    rw [after_snoc]
    exact hs pre e ih

section Log

variable {α : Type*} {entries : σ → ε → List α}

theorem logged_append (s : σ) (xs ys : List ε) : logged step entries s (xs ++ ys) =
    logged step entries s xs ++ logged step entries (after step s xs) ys := by
  induction xs generalizing s with
  | nil => rfl
  | cons x xs ih =>
    simp only [List.cons_append, logged, after]
    rw [ih, List.append_assoc]

theorem logged_snoc (s : σ) (xs : List ε) (e : ε) : logged step entries s (xs ++ [e]) =
    logged step entries s xs ++ entries (after step s xs) e := by
  rw [logged_append]
  simp [logged]

theorem logged_prefix (s : σ) (xs ys : List ε) :
    logged step entries s xs <+: logged step entries s (xs ++ ys) := by
  rw [logged_append]
  exact List.prefix_append _ _

/-- Picking less from every step picks less from the run. -/
theorem logged_sublist {picked : σ → ε → List α}
    (h : ∀ s e, (picked s e).Sublist (entries s e)) (s : σ) (es : List ε) :
    (logged step picked s es).Sublist (logged step entries s es) := by
  induction es generalizing s with
  | nil => exact List.Sublist.refl _
  | cons e es ih => exact (h s e).append (ih (step s e).1)

theorem mem_logged {s : σ} {es : List ε} {a : α} : a ∈ logged step entries s es ↔
    ∃ pre e post, es = pre ++ e :: post ∧ a ∈ entries (after step s pre) e := by
  induction es generalizing s with
  | nil => simp [logged]
  | cons e es ih =>
    rw [logged, List.mem_append, ih]
    constructor
    · intro hlog
      rcases hlog with h | ⟨pre, d, post, rfl, h⟩
      · exact ⟨[], e, es, rfl, h⟩
      · exact ⟨e :: pre, d, post, rfl, h⟩
    · intro hlog
      obtain ⟨pre, d, post, heq, h⟩ := hlog
      cases pre with
      | nil =>
        obtain ⟨rfl, rfl⟩ := List.cons.inj heq
        exact Or.inl h
      | cons e' pre =>
        obtain ⟨rfl, rfl⟩ := List.cons.inj heq
        exact Or.inr ⟨pre, d, post, rfl, h⟩

/-- Every output comes from one of the steps. -/
theorem mem_outputs {s : σ} {es : List ε} {o : ο} : o ∈ outputs step s es ↔
    ∃ pre e post, es = pre ++ e :: post ∧ o ∈ (step (after step s pre) e).2 :=
  mem_logged

/-- A machine that has fallen silent puts out nothing any more. -/
theorem outputs_nil {P : σ → Prop} (hs : ∀ s e, P s → P (step s e).1 ∧ (step s e).2 = []) {s : σ}
    (h : P s) (es : List ε) : outputs step s es = [] := by
  induction es generalizing s with
  | nil => rfl
  | cons e es ih =>
    obtain ⟨hnext, hnil⟩ := hs s e h
    rw [outputs, logged, hnil]
    exact ih hnext

end Log

section Component

variable {τ δ π : Type*} {part : τ → δ → τ × List π} {proj : σ → τ} {inputs : σ → ε → List δ}

/-- A machine that drives another one with `inputs` at each of its steps. -/
theorem component_after (h : ∀ s e, proj (step s e).1 = after part (proj s) (inputs s e)) (s : σ)
    (es : List ε) : proj (after step s es) = after part (proj s) (logged step inputs s es) := by
  induction es generalizing s with
  | nil => rfl
  | cons e es ih => rw [after, ih, h, logged, after_append]

theorem component_logged {α : Type*} {entries : σ → ε → List α} {picked : τ → δ → List α}
    (h : ∀ s e, proj (step s e).1 = after part (proj s) (inputs s e))
    (hpick : ∀ s e, entries s e = logged part picked (proj s) (inputs s e)) (s : σ)
    (es : List ε) :
    logged step entries s es = logged part picked (proj s) (logged step inputs s es) := by
  induction es generalizing s with
  | nil => rfl
  | cons e es ih => rw [logged, ih, h, hpick, logged, logged_append]

end Component

/-- Every step of the run `es` is of the kind `P`. -/
def Always (step : σ → ε → σ × List ο) (P : σ → ε → Prop) (s : σ) (es : List ε) : Prop :=
  ∀ pre e post, es = pre ++ e :: post → P (after step s pre) e

section Always

variable {P : σ → ε → Prop}

theorem Always.left {s : σ} {xs ys : List ε} (h : Always step P s (xs ++ ys)) :
    Always step P s xs := by
  intro pre e post hxs
  apply h pre e (post ++ ys)
  rw [hxs]
  simp

theorem always_snoc {s : σ} {es : List ε} {e : ε} :
    Always step P s (es ++ [e]) ↔ Always step P s es ∧ P (after step s es) e := by
  constructor
  · intro h
    exact ⟨h.left, h es e [] rfl⟩
  · intro h pre d post hes
    rcases split_snoc hes with ⟨rfl, rfl⟩ | ⟨post', hes⟩
    · exact h.2
    · exact h.1 pre d post' hes

theorem always_nil (s : σ) : Always step P s [] := by
  intro pre e post h
  exact absurd h (by simp)

theorem always_cons {s : σ} {e : ε} {es : List ε} :
    Always step P s (e :: es) ↔ P s e ∧ Always step P (step s e).1 es := by
  constructor
  · intro h
    refine ⟨h [] e es rfl, ?_⟩
    intro pre d post hes
    exact h (e :: pre) d post (by rw [hes]; rfl)
  · intro h pre d post hes
    cases pre with
    | nil =>
      obtain ⟨rfl, rfl⟩ := List.cons.inj hes
      exact h.1
    | cons d' pre =>
      obtain ⟨rfl, rfl⟩ := List.cons.inj hes
      exact h.2 pre d post rfl

instance Always.decidable [∀ s e, Decidable (P s e)] :
    (s : σ) → (es : List ε) → Decidable (Always step P s es)
  | s, [] => isTrue (always_nil s)
  | s, e :: es =>
    have := Always.decidable (step s e).1 es
    decidable_of_iff _ always_cons.symm

/-- A property that every step of the kind `P` keeps holds after all such steps. -/
theorem Always.invariant {I : σ → Prop} (hs : ∀ s e, I s → P s e → I (step s e).1) {s : σ}
    (h : I s) {es : List ε} (hall : Always step P s es) : I (after step s es) := by
  induction es generalizing s with
  | nil => exact h
  | cons e es ih =>
    rw [always_cons] at hall
    exact ih (hs s e h hall.1) hall.2

/-- A rank that every step of the kind `P` takes down runs out. -/
theorem Always.runs_out {I : σ → Prop} (rank : σ → Nat)
    (hs : ∀ s e, I s → P s e → I (step s e).1 ∧ rank (step s e).1 ≤ rank s - 1) {s : σ} (h : I s)
    {es : List ε} (hall : Always step P s es) : rank (after step s es) ≤ rank s - es.length := by
  induction es generalizing s with
  | nil => exact Nat.le_refl _
  | cons e es ih =>
    rw [always_cons] at hall
    obtain ⟨hnext, hlower⟩ := hs s e h hall.1
    have hrest := ih hnext hall.2
    simp only [after, List.length_cons]
    omega

/-- A machine that works until it ends well or badly, and ends badly exactly by a step that is not
of the kind `P`. -/
theorem verdict (Works Well Badly : σ → Prop) (input : ε → Prop)
    (hworks : ∀ s e, Works s → input e → P s e → Works (step s e).1 ∨ Well (step s e).1)
    (hfails : ∀ s e, Works s → input e → ¬ P s e → Badly (step s e).1)
    (hwell : ∀ s e, Well s → input e → Well (step s e).1 ∧ P s e)
    (hbadly : ∀ s e, Badly s → input e → Badly (step s e).1) {s : σ} (h : Works s) (es : List ε)
    (hin : ∀ e ∈ es, input e) :
    (Works (after step s es) ∨ Well (after step s es)) ∧ Always step P s es ∨
      Badly (after step s es) ∧ ¬ Always step P s es := by
  induction es using List.reverseRecOn with
  | nil =>
    left
    refine ⟨Or.inl h, ?_⟩
    intro pre e post hes
    exact absurd hes (by simp)
  | append_singleton es e ih =>
    have he : input e := hin e (by simp)
    rw [after_snoc, always_snoc]
    rcases ih (fun d hd => hin d (by simp [hd])) with ⟨hw | hw, hall⟩ | ⟨hb, hnot⟩
    · by_cases hP : P (after step s es) e
      · exact Or.inl ⟨hworks _ e hw he hP, hall, hP⟩
      · exact Or.inr ⟨hfails _ e hw he hP, fun hcon => hP hcon.2⟩
    · obtain ⟨hnext, hP⟩ := hwell _ e hw he
      exact Or.inl ⟨Or.inr hnext, hall, hP⟩
    · exact Or.inr ⟨hbadly _ e hb he, fun hcon => hnot hcon.1⟩

/-- A machine that works and then ends with a value, which its next step returns; the value is
`good` when all its steps are of the kind `P`. -/
structure Exits {ν : Type*} (step : σ → ε → σ × List ο) (P : σ → ε → Prop) (input : ε → Prop)
    (Works : σ → Prop) (Ended Returned : σ → ν → Prop) (good : ν) : Prop where
  works : ∀ s e, Works s → input e → P s e → Works (step s e).1 ∨ Ended (step s e).1 good
  fails : ∀ s e, Works s → input e → ¬ P s e → ∃ v, v ≠ good ∧ Ended (step s e).1 v
  calm : ∀ s e v, Ended s v → input e → P s e
  stays : ∀ s e v, Ended s v → input e → Ended (step s e).1 v ∧ Returned (step s e).1 v
  busy : ∀ s v, Works s → ¬ Returned s v
  value : ∀ s v w, Ended s v → Returned s w → w = v

section Exits

variable {ν : Type*} {input : ε → Prop} {Works : σ → Prop} {Ended Returned : σ → ν → Prop}
  {good : ν}

theorem Exits.verdict (h : Exits step P input Works Ended Returned good) {s : σ} (hs : Works s)
    (es : List ε) (hes : ∀ e ∈ es, input e) :
    (Works (after step s es) ∨ Ended (after step s es) good) ∧ Always step P s es ∨
      (∃ v, v ≠ good ∧ Ended (after step s es) v) ∧ ¬ Always step P s es := by
  apply Machine.verdict Works (Ended · good) (fun s => ∃ v, v ≠ good ∧ Ended s v) input h.works
    h.fails _ _ hs es hes
  · intro s e hw he
    exact ⟨(h.stays s e good hw he).1, h.calm s e good hw he⟩
  · intro s e hworks he
    obtain ⟨v, hv, hw⟩ := hworks
    exact ⟨v, hv, (h.stays s e v hw he).1⟩

/-- The value tells whether all steps were of the kind `P`. -/
theorem Exits.good_iff (h : Exits step P input Works Ended Returned good) {s : σ} (hs : Works s)
    (es : List ε) (hes : ∀ e ∈ es, input e) {v : ν} (hv : Returned (after step s es) v) :
    v = good ↔ Always step P s es := by
  rcases h.verdict hs es hes with ⟨hw | hw, hall⟩ | ⟨⟨w, hne, hw⟩, hnot⟩
  · exact absurd hv (h.busy _ v hw)
  · exact ⟨fun _ => hall, fun _ => h.value _ _ _ hw hv⟩
  · have hvw := h.value _ _ _ hw hv
    exact ⟨fun hgood => absurd (hvw.symm.trans hgood) hne, fun hall => absurd hall hnot⟩

/-- A machine that the inputs `ds` bring to its end returns with the input after them. -/
theorem Exits.returns (h : Exits step P input Works Ended Returned good) {s : σ} (hs : Works s)
    (es ds : List ε) {e : ε} (hes : ∀ d ∈ es, input d) (hds : ∀ d ∈ ds, input d) (he : input e)
    (hend : Works (after step s es) → ∃ v, Ended (after step (after step s es) ds) v) :
    ∃ v, Returned (after step s (es ++ (ds ++ [e]))) v := by
  have hstays (v : ν) (s : σ) (hw : Ended s v) (ds : List ε) (hds : ∀ d ∈ ds, input d) :
      Ended (after step s ds) v := by
    induction ds generalizing s with
    | nil => exact hw
    | cons d ds ih =>
      exact ih (step s d).1 (h.stays s d v hw (hds d (by simp))).1
        (fun d hd => hds d (by simp [hd]))
  have hended : ∃ v, Ended (after step (after step s es) ds) v := by
    rcases h.verdict hs es hes with ⟨hw | hw, _⟩ | ⟨⟨v, _, hw⟩, _⟩
    · exact hend hw
    · exact ⟨good, hstays good _ hw ds hds⟩
    · exact ⟨v, hstays v _ hw ds hds⟩
  obtain ⟨v, hw⟩ := hended
  rw [← List.append_assoc, after_snoc, after_append]
  exact ⟨v, (h.stays _ e v hw he).2⟩

end Exits

end Always

section Count

variable (P : σ → ε → Prop) [∀ s e, Decidable (P s e)]

/-- How many steps of a run are of the kind `P`. -/
def count (step : σ → ε → σ × List ο) : σ → List ε → Nat
  | _, [] => 0
  | s, e :: es => (if P s e then 1 else 0) + count step (step s e).1 es

variable {P} {step : σ → ε → σ × List ο}

theorem count_append (s : σ) (xs ys : List ε) : count P step s (xs ++ ys) =
    count P step s xs + count P step (after step s xs) ys := by
  induction xs generalizing s with
  | nil => simp [count, after]
  | cons x xs ih =>
    rw [List.cons_append, count, count, after, ih]
    omega

theorem count_snoc (s : σ) (xs : List ε) (e : ε) : count P step s (xs ++ [e]) =
    count P step s xs + if P (after step s xs) e then 1 else 0 := by
  rw [count_append, count, count]
  rfl

/-- A step of the kind `P` is of the kind `Q` or of the kind `R`. -/
theorem count_le_add {Q R : σ → ε → Prop} [∀ s e, Decidable (Q s e)] [∀ s e, Decidable (R s e)]
    (h : ∀ s e, P s e → Q s e ∨ R s e) (s : σ) (es : List ε) :
    count P step s es ≤ count Q step s es + count R step s es := by
  induction es generalizing s with
  | nil => exact Nat.zero_le _
  | cons e es ih =>
    have hes := ih (step s e).1
    rw [count, count, count]
    by_cases hP : P s e
    · rw [if_pos hP]
      rcases h s e hP with hQ | hR
      · rw [if_pos hQ]
        omega
      · rw [if_pos hR]
        omega
    · rw [if_neg hP]
      omega

/-- A step of the kind `P` is impossible where `R` holds, and leads there. -/
theorem count_le_one {I R : σ → Prop} (hI : ∀ s e, I s → I (step s e).1)
    (hto : ∀ s e, I s → P s e → R (step s e).1) (hstay : ∀ s e, I s → R s → R (step s e).1)
    (hno : ∀ s e, R s → ¬ P s e) {s : σ} (hs : I s) (es : List ε) : count P step s es ≤ 1 := by
  have hover (s : σ) (hs : I s) (hR : R s) (es : List ε) : count P step s es = 0 := by
    induction es generalizing s with
    | nil => rfl
    | cons e es ih => rw [count, if_neg (hno s e hR), ih _ (hI s e hs) (hstay s e hs hR)]
  induction es generalizing s with
  | nil => exact Nat.zero_le 1
  | cons e es ih =>
    rw [count]
    split_ifs with hP
    · rw [hover _ (hI s e hs) (hto s e hs hP)]
    · rw [Nat.zero_add]
      exact ih (hI s e hs)

/-- When every step of the kind `P` is of the kind `Q` or logs a key for the first time, there are
no more of them than keys and steps of the kind `Q`. -/
theorem count_le_card {Q : σ → ε → Prop} [∀ s e, Decidable (Q s e)] {κ : Type*} [DecidableEq κ]
    {keys : σ → ε → List κ} {s : σ} {es : List ε}
    (h : ∀ pre e post, es = pre ++ e :: post → P (after step s pre) e →
      Q (after step s pre) e ∨ ∃ k ∈ keys (after step s pre) e, k ∉ logged step keys s pre) :
    count P step s es ≤ (logged step keys s es).toFinset.card + count Q step s es := by
  induction es using List.reverseRecOn with
  | nil => exact Nat.zero_le _
  | append_singleton es e ih =>
    have hes := ih (fun pre d post hpre => h pre d (post ++ [e]) (by rw [hpre]; simp))
    have hsub : (logged step keys s es).toFinset ⊆ (logged step keys s (es ++ [e])).toFinset := by
      rw [logged_snoc, List.toFinset_append]
      exact Finset.subset_union_left
    have hle := Finset.card_le_card hsub
    rw [count_snoc, count_snoc]
    by_cases hP : P (after step s es) e
    · rw [if_pos hP]
      rcases h es e [] rfl hP with hQ | ⟨k, hk, hnew⟩
      · rw [if_pos hQ]
        omega
      · have hlt : (logged step keys s es).toFinset.card <
            (logged step keys s (es ++ [e])).toFinset.card := by
          apply Finset.card_lt_card
          refine ⟨hsub, ?_⟩
          intro hcon
          have hmem : k ∈ (logged step keys s (es ++ [e])).toFinset := by
            rw [List.mem_toFinset, logged_snoc]
            exact List.mem_append_right _ hk
          exact hnew (List.mem_toFinset.mp (hcon hmem))
        omega
    · rw [if_neg hP]
      omega

/-- Counting in a machine that passes each input on to another one. -/
theorem count_component {τ δ π : Type*} {part : τ → δ → τ × List π} (proj : σ → τ) (f : ε → δ)
    {Q : τ → δ → Prop} [∀ t d, Decidable (Q t d)]
    (h : ∀ s e, proj (step s e).1 = (part (proj s) (f e)).1) (s : σ) (es : List ε) :
    count (fun s e => Q (proj s) (f e)) step s es = count Q part (proj s) (es.map f) := by
  induction es generalizing s with
  | nil => rfl
  | cons e es ih => rw [count, ih, h, List.map_cons, count]

end Count

section Register

variable {α : Type*} (hears : σ → ε → Option α)

/-- The last of the values that `hears` picks from the inputs, `a` before the first. -/
def lastHeard (step : σ → ε → σ × List ο) : α → σ → List ε → α
  | a, _, [] => a
  | a, s, e :: es => lastHeard step ((hears s e).getD a) (step s e).1 es

variable {hears} {stored : σ → α}

/-- A register that takes over every value heard holds the last one. -/
theorem stored_after (hst : ∀ s e, stored (step s e).1 = (hears s e).getD (stored s)) (s : σ)
    (es : List ε) : stored (after step s es) = lastHeard hears step (stored s) s es := by
  induction es generalizing s with
  | nil => rfl
  | cons e es ih => rw [after, ih, lastHeard, hst]

/-- When all outputs bear the value of the register, they bear `a` exactly if no step puts out
anything while another value was the last to be heard. -/
theorem outputs_bear_iff {label : ο → α}
    (hst : ∀ s e, stored (step s e).1 = (hears s e).getD (stored s))
    (hout : ∀ s e, ∀ o ∈ (step s e).2, label o = stored (step s e).1) (s : σ) (es : List ε)
    (a : α) :
    (∀ o ∈ outputs step s es, label o = a) ↔
      ∀ pre e post, es = pre ++ e :: post → (step (after step s pre) e).2 ≠ [] →
        lastHeard hears step (stored s) s (pre ++ [e]) = a := by
  have hlast (pre : List ε) (e : ε) : lastHeard hears step (stored s) s (pre ++ [e]) =
      stored (step (after step s pre) e).1 := by
    rw [← stored_after hst, after_snoc]
  constructor
  · intro h pre e post hes hne
    obtain ⟨o, ho⟩ := List.exists_mem_of_ne_nil _ hne
    rw [hlast, ← hout _ _ o ho]
    exact h o (mem_outputs.mpr ⟨pre, e, post, hes, ho⟩)
  · intro h o ho
    obtain ⟨pre, e, post, hes, ho⟩ := mem_outputs.mp ho
    rw [hout _ _ o ho, ← hlast]
    exact h pre e post hes (List.ne_nil_of_mem ho)

/-- So they do when no other value is heard. -/
theorem outputs_bear_of_heard {label : ο → α}
    (hst : ∀ s e, stored (step s e).1 = (hears s e).getD (stored s))
    (hout : ∀ s e, ∀ o ∈ (step s e).2, label o = stored (step s e).1) {s : σ} {es : List ε}
    {a : α} (hs : stored s = a) (hheard : ∀ pre e post, es = pre ++ e :: post →
      ∀ b, hears (after step s pre) e = some b → b = a) :
    ∀ o ∈ outputs step s es, label o = a := by
  induction es generalizing s with
  | nil => exact fun o ho => absurd ho List.not_mem_nil
  | cons e es ih =>
    have hnext : stored (step s e).1 = a := by
      rw [hst, hs]
      cases hb : hears s e with
      | none => rfl
      | some b => exact hheard [] e es rfl b hb
    intro o ho
    rcases List.mem_append.mp ho with ho | ho
    · rw [hout s e o ho]
      exact hnext
    · exact ih hnext (fun pre d post hes => hheard (e :: pre) d post (congrArg (e :: ·) hes)) o ho

end Register

/-- A machine that works until a step ends it with a value, which later steps may replace: the value
it has ended with is explained by one of the steps, the last that has set it. -/
theorem ended_explained {ν : Type*} {Works : σ → Prop} {Ended : σ → ν → Prop}
    {Explains : σ → ε → ν → Prop}
    (hworks : ∀ s e, Works s →
      Works (step s e).1 ∨ ∃ v, Ended (step s e).1 v ∧ Explains s e v)
    (hended : ∀ s e v, Ended s v →
      Ended (step s e).1 v ∨ ∃ w, Ended (step s e).1 w ∧ Explains s e w) {s : σ} (h : Works s)
    (es : List ε) : Works (after step s es) ∨ ∃ v, Ended (after step s es) v ∧
      ∃ pre e post, es = pre ++ e :: post ∧ Explains (after step s pre) e v ∧
        ∀ mid rest, post = mid ++ rest → Ended (after step s (pre ++ e :: mid)) v := by
  have hset {es : List ε} {e : ε} {v : ν} (hv : Ended (step (after step s es) e).1 v)
      (hwhy : Explains (after step s es) e v) : ∃ pre d post, es ++ [e] = pre ++ d :: post ∧
        Explains (after step s pre) d v ∧
        ∀ mid rest, post = mid ++ rest → Ended (after step s (pre ++ d :: mid)) v := by
    refine ⟨es, e, [], rfl, hwhy, ?_⟩
    intro mid rest hmid
    rw [(List.append_eq_nil_iff.mp hmid.symm).1, after_snoc]
    exact hv
  induction es using List.reverseRecOn with
  | nil => exact Or.inl h
  | append_singleton es e ih =>
    rw [after_snoc]
    rcases ih with hw | ⟨v, hv, pre, d, post, hes, hwhy, hkept⟩
    · rcases hworks _ e hw with hnext | ⟨v, hv, hwhy⟩
      · exact Or.inl hnext
      · exact Or.inr ⟨v, hv, hset hv hwhy⟩
    · rcases hended _ e v hv with hnext | ⟨w, hw, hwhy'⟩
      · refine Or.inr ⟨v, hnext, pre, d, post ++ [e], by rw [hes]; simp, hwhy, ?_⟩
        intro mid rest hmid
        rcases List.eq_nil_or_concat rest with rfl | ⟨rest, e', rfl⟩
        · rw [List.append_nil] at hmid
          rw [← hmid, ← List.cons_append, ← List.append_assoc, ← hes, after_snoc]
          exact hnext
        · rw [List.concat_eq_append, ← List.append_assoc] at hmid
          exact hkept mid rest (List.append_inj' hmid rfl).1
      · exact Or.inr ⟨w, hw, hset hw hwhy'⟩

/-- A machine that drives another one until that one delivers a value, and rests on it from then
on: the value it rests on has been delivered. -/
theorem delivered {τ π ν : Type*} (inner : τ → ε → τ × List π) (wrap : τ → σ) (final : ν → σ)
    (value : τ → Option ν)
    (hstep : ∀ t e, (step (wrap t) e).1 =
      (value (inner t e).1).elim (wrap (inner t e).1) final)
    (hrest : ∀ v e, (step (final v) e).1 = final v) (hwrap : ∀ t v, wrap t ≠ final v)
    (hinj : Function.Injective final) {t : τ} {es : List ε} {v : ν}
    (h : after step (wrap t) es = final v) :
    ∃ pre post, es = pre ++ post ∧ value (after inner t pre) = some v := by
  induction es generalizing t with
  | nil => exact absurd h (hwrap t v)
  | cons e es ih =>
    rw [after, hstep] at h
    cases hvalue : value (inner t e).1 with
    | none =>
      rw [hvalue] at h
      obtain ⟨pre, post, hes, hv⟩ := ih h
      refine ⟨e :: pre, post, ?_, hv⟩
      rw [hes]
      rfl
    | some w =>
      have hw : after step (final w) es = final w :=
        after_invariant (P := (· = final w)) (fun s d hs => by rw [hs]; exact hrest w d) rfl es
      rw [hvalue] at h
      refine ⟨[e], es, rfl, ?_⟩
      rw [hinj (h.symm.trans hw)]
      exact hvalue

end Machine
