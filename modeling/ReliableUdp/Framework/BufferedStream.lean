import Mathlib.Tactic

/-- An output stream that holds back items in a buffer before they go out to a sink. -/
structure BufferedStream (α : Type*) where
  /-- what the sink has taken, in order -/
  accepted : List α
  /-- what the buffer holds -/
  pending : List α
  deriving DecidableEq

namespace BufferedStream

variable {α : Type*}

/-- How a write goes. -/
inductive Outcome where
  /-- `n` of the items held go out, the others stay in the buffer -/
  | drains (n : Nat)
  /-- the sink refuses after `n` items, and the write reports only `count`; the buffer keeps the
  others or drops them -/
  | fails (n count : Nat) (keeps : Bool)

def empty : BufferedStream α := ⟨[], []⟩

/-- All that has been put into the stream and is not lost. -/
def held (st : BufferedStream α) : List α := st.accepted ++ st.pending

/-- A write of `items`, which reports how many it has taken: fewer than asked for exactly when the
sink refuses. This is what the C standard documents of `fwrite`; a C library that flushes a
line-buffered stream inside the write may report a count that differs from it. A write of nothing
does nothing. -/
def write (st : BufferedStream α) (items : List α) (outcome : Outcome) : BufferedStream α × Nat :=
  if items = [] then (st, 0)
  else match outcome with
    | .drains n =>
      (⟨st.accepted ++ (st.pending ++ items).take n, (st.pending ++ items).drop n⟩, items.length)
    | .fails n count keeps =>
      (⟨st.accepted ++ (st.pending ++ items).take n,
        if keeps then (st.pending ++ items).drop n else []⟩, min count (items.length - 1))

/-- The buffer is written out for the last time; `some n` when the sink refuses after `n` items. -/
def close (st : BufferedStream α) (refused : Option Nat) : BufferedStream α × Bool :=
  match refused with
  | none => (⟨st.accepted ++ st.pending, []⟩, true)
  | some n => (⟨st.accepted ++ st.pending.take n, []⟩, false)

variable {st : BufferedStream α} {items : List α} {outcome : Outcome}

@[simp] theorem write_nil : st.write [] outcome = (st, 0) := if_pos rfl

theorem write_count_le : (st.write items outcome).2 ≤ items.length := by
  by_cases hnil : items = []
  · rw [hnil, write_nil]
    exact Nat.zero_le _
  · cases outcome with
    | drains n =>
      rw [write, if_neg hnil]
    | fails n count keeps =>
      rw [write, if_neg hnil]
      exact (Nat.min_le_right _ _).trans (Nat.sub_le _ _)

/-- A write that reports everything loses nothing. -/
theorem held_write (h : (st.write items outcome).2 = items.length) :
    (st.write items outcome).1.held = st.held ++ items := by
  by_cases hnil : items = []
  · rw [hnil, write_nil, List.append_nil]
  · have hpos : 0 < items.length := List.length_pos_of_ne_nil hnil
    cases outcome with
    | drains n =>
      rw [write, if_neg hnil]
      simp only [held, List.append_assoc, List.take_append_drop]
    | fails n count keeps =>
      rw [write, if_neg hnil] at h
      dsimp only at h
      omega

theorem accepted_of_empty (h : st.pending = []) : st.accepted = st.held := by
  rw [held, h, List.append_nil]

@[simp] theorem pending_close (refused : Option Nat) : (st.close refused).1.pending = [] := by
  cases refused <;> rfl

/-- Neither does a last write-out that succeeds. -/
theorem held_close {refused : Option Nat} (h : (st.close refused).2 = true) :
    (st.close refused).1.held = st.held := by
  cases refused with
  | none => exact List.append_nil _
  | some n => exact Bool.noConfusion h

/-- The last write-out gets everything out exactly if it is not refused before the end. -/
theorem accepted_close_iff (refused : Option Nat) :
    (st.close refused).1.accepted = st.held ↔ ¬ ∃ n, refused = some n ∧ n < st.pending.length := by
  cases refused with
  | none => simp [close, held]
  | some n => simp [close, held, List.take_eq_self_iff]

theorem accepted_close_prefix (refused : Option Nat) :
    (st.close refused).1.accepted <+: st.held := by
  cases refused with
  | none => exact List.prefix_refl _
  | some n => exact (List.prefix_append_right_inj st.accepted).mpr (List.take_prefix n st.pending)

end BufferedStream
