import ReliableUdp.Sender.Runs

namespace ReliableUdp

/-- `gbn_process_ack` for every number of a list, with the number of calls that return 1. -/
def processAcks : GBNSenderState → List UInt32 → GBNSenderState × Nat
  | state, [] => (state, 0)
  | state, ack :: acks =>
    let processed := gbnProcessAck state ack
    let rest := processAcks processed.1 acks
    (rest.1, (if processed.2 then 1 else 0) + rest.2)

/-- `final` is `state` with `base` moved to `b` and the slots it passes freed. -/
structure GBNSenderState.Moved (state : GBNSenderState) (b : UInt32) (final : GBNSenderState) :
    Prop where
  base : final.base = b
  nextseqnum : final.nextseqnum = state.nextseqnum
  windowTimerMs : final.windowTimerMs = state.windowTimerMs
  freed : ∀ i, (∃ s, state.base.toNat ≤ s ∧ s < b.toNat ∧ RingBuffer.index windowSize s = i) →
    final.buffer i = { state.buffer i with isValid := false }
  kept : ∀ i, (¬ ∃ s, state.base.toNat ≤ s ∧ s < b.toNat ∧ RingBuffer.index windowSize s = i) →
    final.buffer i = state.buffer i

namespace GBNSenderState.Moved

variable {state mid final final' : GBNSenderState} {b c : UInt32}

theorem refl (state : GBNSenderState) : state.Moved state.base state := by
  refine ⟨rfl, rfl, rfl, ?_, fun _ _ => rfl⟩
  intro i hocc
  obtain ⟨s, h1, h2, _⟩ := hocc
  omega

theorem trans (h : state.Moved b mid) (h' : mid.Moved c final) (hb : state.base ≤ b)
    (hc : b ≤ c) : state.Moved c final := by
  have hb' : state.base.toNat ≤ b.toNat := UInt32.le_iff_toNat_le.mp hb
  have hc' : b.toNat ≤ c.toNat := UInt32.le_iff_toNat_le.mp hc
  have hfreed := h'.freed
  have hkept := h'.kept
  rw [h.base] at hfreed hkept
  refine ⟨h'.base, h'.nextseqnum.trans h.nextseqnum, h'.windowTimerMs.trans h.windowTimerMs,
    ?_, ?_⟩
  · intro i hocc
    obtain ⟨s, h1, h2, h3⟩ := hocc
    by_cases hfirst : ∃ s, state.base.toNat ≤ s ∧ s < b.toNat ∧ RingBuffer.index windowSize s = i
    · by_cases hsecond : ∃ s, b.toNat ≤ s ∧ s < c.toNat ∧ RingBuffer.index windowSize s = i
      · rw [hfreed i hsecond, h.freed i hfirst]
      · rw [hkept i hsecond, h.freed i hfirst]
    · have hsecond : ∃ s, b.toNat ≤ s ∧ s < c.toNat ∧ RingBuffer.index windowSize s = i := by
        refine ⟨s, ?_, h2, h3⟩
        by_contra hlt
        exact hfirst ⟨s, h1, by omega, h3⟩
      rw [hfreed i hsecond, h.kept i hfirst]
  · intro i hno
    rw [hkept i (fun ⟨s, h1, h2, h3⟩ => hno ⟨s, by omega, h2, h3⟩),
      h.kept i (fun ⟨s, h1, h2, h3⟩ => hno ⟨s, h1, by omega, h3⟩)]

/-- Where `base` goes determines the state. -/
theorem unique (h : state.Moved b final) (h' : state.Moved b final') : final = final' := by
  have hbuffer : final.buffer = final'.buffer := by
    funext i
    by_cases hi : ∃ s, state.base.toNat ≤ s ∧ s < b.toNat ∧ RingBuffer.index windowSize s = i
    · rw [h.freed i hi, h'.freed i hi]
    · rw [h.kept i hi, h'.kept i hi]
  cases final
  cases final'
  simp only [GBNSenderState.mk.injEq]
  exact ⟨h.base.trans h'.base.symm, h.nextseqnum.trans h'.nextseqnum.symm, hbuffer,
    h.windowTimerMs.trans h'.windowTimerMs.symm⟩

end GBNSenderState.Moved

section Acks

variable {connection : ConnectionState} {s0 : Nat} {sent : List Chunk} {state : GBNSenderState}

theorem gbnProcessAck_moved {ackNum : UInt32} (hlo : state.base < ackNum)
    (hhi : ackNum ≤ state.nextseqnum) : state.Moved ackNum (gbnProcessAck state ackNum).1 := by
  have hcond : ¬ (ackNum ≤ state.base ∨ ackNum > state.nextseqnum) := by
    rw [not_or, UInt32.not_le, UInt32.not_lt]
    exact ⟨hlo, hhi⟩
  obtain ⟨hclear, hkeep⟩ :=
    ackLoop_upTo (UInt32.lt_iff_toNat_lt.mp hlo).le state.buffer false
  rw [gbnProcessAck, if_neg hcond]
  exact ⟨rfl, rfl, rfl, hclear, hkeep⟩

/-- The old `base` and the listed numbers up to `nextseqnum`. -/
def GBNSenderState.Candidate (state : GBNSenderState) (acks : List UInt32) (b : UInt32) : Prop :=
  b = state.base ∨ b ∈ acks ∧ b ≤ state.nextseqnum

/-- `b` is the largest of them. -/
structure GBNSenderState.Furthest (state : GBNSenderState) (acks : List UInt32) (b : UInt32) :
    Prop where
  candidate : state.Candidate acks b
  largest : ∀ a, state.Candidate acks a → a ≤ b

theorem GBNSenderState.Furthest.unique {acks acks' : List UInt32} {b b' : UInt32}
    (h : state.Furthest acks b) (h' : state.Furthest acks' b') (hsame : ∀ a, a ∈ acks ↔ a ∈ acks') :
    b = b' := by
  have hcand (a : UInt32) : state.Candidate acks a ↔ state.Candidate acks' a := by
    simp only [GBNSenderState.Candidate, hsame]
  exact UInt32.le_antisymm (h'.largest b ((hcand b).mp h.candidate))
    (h.largest b' ((hcand b').mpr h'.candidate))

/-- What a list of calls does: `base` goes to the furthest number, and every call that returns 1
takes it at least one place further. -/
structure GBNSenderState.Outcome (state : GBNSenderState) (acks : List UInt32)
    (result : GBNSenderState × Nat) : Prop where
  furthest : state.Furthest acks result.1.base
  moved : state.Moved result.1.base result.1
  count : state.base.toNat + result.2 ≤ result.1.base.toNat

theorem processAcks_outcome (h : state.Represents s0 connection sent) (acks : List UInt32) :
    state.Outcome acks (processAcks state acks) := by
  induction acks generalizing state with
  | nil =>
    refine ⟨⟨Or.inl rfl, ?_⟩, .refl state, Nat.le_refl _⟩
    intro a ha
    rcases ha with rfl | ⟨hmem, _⟩
    · exact UInt32.le_refl _
    · exact absurd hmem List.not_mem_nil
  | cons ack acks ih =>
    rw [processAcks]
    by_cases hin : state.base < ack ∧ ack ≤ state.nextseqnum
    · obtain ⟨hlo, hhi⟩ := hin
      obtain ⟨htaken, hbase, hnext, _, hrep⟩ := gbnProcessAck_inside h ack hlo hhi
      obtain ⟨⟨hcand, hlargest⟩, hmoved, hcount⟩ := ih hrep
      have hack : ack ≤ (processAcks (gbnProcessAck state ack).1 acks).1.base :=
        hlargest ack (Or.inl hbase.symm)
      have hlo' := UInt32.lt_iff_toNat_lt.mp hlo
      rw [hbase] at hcount
      refine ⟨⟨?_, ?_⟩, (gbnProcessAck_moved hlo hhi).trans hmoved (UInt32.le_of_lt hlo) hack, ?_⟩
      · rcases hcand with heq | ⟨hmem, hle⟩
        · rw [heq, hbase]
          exact Or.inr ⟨List.mem_cons_self, hhi⟩
        · rw [hnext] at hle
          exact Or.inr ⟨List.mem_cons_of_mem _ hmem, hle⟩
      · intro a ha
        rcases ha with rfl | ⟨hmem, hle⟩
        · exact UInt32.le_trans (UInt32.le_of_lt hlo) hack
        · rcases List.mem_cons.mp hmem with rfl | hmem
          · exact hack
          · exact hlargest a (Or.inr ⟨hmem, by rw [hnext]; exact hle⟩)
      · simp only [htaken, if_true]
        omega
    · rw [gbnProcessAck_outside ack hin]
      obtain ⟨⟨hcand, hlargest⟩, hmoved, hcount⟩ := ih h
      refine ⟨⟨?_, ?_⟩, hmoved, ?_⟩
      · rcases hcand with heq | ⟨hmem, hle⟩
        · exact Or.inl heq
        · exact Or.inr ⟨List.mem_cons_of_mem _ hmem, hle⟩
      · intro a ha
        rcases ha with rfl | ⟨hmem, hle⟩
        · exact hlargest _ (Or.inl rfl)
        · rcases List.mem_cons.mp hmem with rfl | hmem
          · -- a number that is not taken is not beyond `base`
            have hle' : a ≤ state.base := UInt32.not_lt.mp (fun hlt => hin ⟨hlt, hle⟩)
            exact UInt32.le_trans hle' (hlargest _ (Or.inl rfl))
          · exact hlargest a (Or.inr ⟨hmem, hle⟩)
      · simpa using hcount

/-- The state after a list of acknowledgements depends on the numbers in it only, not on their
order or repetition: `base` is the furthest of them inside the window, exactly the slots it has
passed are free, and no more calls return 1 than `base` has moved places. -/
theorem acks_commute (h : state.Represents s0 connection sent) (acks : List UInt32) :
    (∀ acks' : List UInt32, (∀ a, a ∈ acks' ↔ a ∈ acks) →
      (processAcks state acks').1 = (processAcks state acks).1) ∧
    state.Furthest acks (processAcks state acks).1.base ∧
    state.Moved (processAcks state acks).1.base (processAcks state acks).1 ∧
    (processAcks state acks).2 ≤
      (processAcks state acks).1.base.toNat - state.base.toNat := by
  have hout := processAcks_outcome h acks
  refine ⟨?_, hout.furthest, hout.moved, Nat.le_sub_of_add_le' hout.count⟩
  intro acks' hsame
  have hout' := processAcks_outcome h acks'
  have hbase := hout'.furthest.unique hout.furthest hsame
  have hmoved := hout'.moved
  rw [hbase] at hmoved
  exact hmoved.unique hout.moved

end Acks

/-- Five packets are waiting, numbered from 7 on. -/
def fiveWaiting : GBNSenderState :=
  (gbnFillAndSendWindow (Env.calm Unit 1) () ⟨7, 10, 42⟩ (.start 7)
    (List.replicate 5 (.bytes ⟨[1], by decide⟩))).state

theorem acks_commute_five :
    (processAcks fiveWaiting [9, 11, 9, 40]).1 = (processAcks fiveWaiting [11, 40, 9]).1 ∧
    (processAcks fiveWaiting [11, 40, 9]).1.base = 11 := by
  obtain ⟨chunks, rest, hout⟩ := gbnFillAndSendWindow_outcome (Env.calm Unit 1) ()
    (List.replicate 5 (.bytes ⟨[1], by decide⟩))
    (GBNSenderState.Represents.start 7 ⟨7, 10, 42⟩) (by decide)
  refine ⟨(acks_commute hout.represents [11, 40, 9]).1 [9, 11, 9, 40] ?_, by decide⟩
  intro a
  simp only [List.mem_cons, List.not_mem_nil]
  tauto

end ReliableUdp
