import Mathlib.Tactic

/-- What a read of a source brings: at least one item, the end, or an error. -/
inductive ReadResult (α : Type*) where
  | items (first : α) (more : List α)
  | ended
  | failed

/-- A buffered input stream: what its buffer holds and what the reads of its source will bring, or
its end. That an end once seen stays is what the C standard documents; a C library that asks a
terminal again behind its end departs from it. -/
inductive InputStream (α : Type*) where
  | running (buffer : List α) (source : List (ReadResult α))
  | ended

namespace InputStream

variable {α : Type*}

/-- Items are fetched until there are `n` of them, the source ends or a read fails; a short count
tells about the latter two. -/
def fetch (n : Nat) (buffer : List α) (source : List (ReadResult α)) : List α × InputStream α :=
  if n ≤ buffer.length then (buffer.take n, .running (buffer.drop n) source)
  else match source with
    | [] => (buffer, .ended)
    | .items first more :: source => fetch n (buffer ++ first :: more) source
    | .ended :: _ => (buffer, .ended)
    | .failed :: source => (buffer, .running [] source)

def read (n : Nat) : InputStream α → List α × InputStream α
  | .running buffer source => fetch n buffer source
  | .ended => ([], .ended)

def atEnd : InputStream α → Bool
  | .running _ _ => false
  | .ended => true

/-- The items of a source before its end. -/
def itemsOf : List (ReadResult α) → List α
  | [] => []
  | .items first more :: source => first :: more ++ itemsOf source
  | .ended :: _ => []
  | .failed :: source => itemsOf source

/-- The reads that fail before the end. -/
def failuresOf : List (ReadResult α) → Nat
  | [] => 0
  | .items _ _ :: source => failuresOf source
  | .ended :: _ => 0
  | .failed :: source => failuresOf source + 1

/-- All that is still to come. -/
def contents : InputStream α → List α
  | .running buffer source => buffer ++ itemsOf source
  | .ended => []

def failures : InputStream α → Nat
  | .running _ source => failuresOf source
  | .ended => 0

/-- The items between one failing read and the next, up to the end. -/
def stretchesOf (buffer : List α) : List (ReadResult α) → List (List α)
  | [] => [buffer]
  | .items first more :: source => stretchesOf (buffer ++ first :: more) source
  | .ended :: _ => [buffer]
  | .failed :: source => buffer :: stretchesOf [] source

def stretches : InputStream α → List (List α)
  | .running buffer source => stretchesOf buffer source
  | .ended => [[]]

/-- How a read of `n` items can go: it brings `n` items of the first stretch, or what is left of
it. -/
inductive ReadMove (n : Nat) (st : InputStream α) (r : List α × InputStream α) : Prop where
  | full (length : r.1.length = n) (failures : r.2.failures = st.failures)
      (rest : List α) (later : List (List α)) (stretches : st.stretches = (r.1 ++ rest) :: later)
      (next : r.2.stretches = rest :: later)
  | short (length : r.1.length < n) (failures : r.2.failures + 1 = st.failures)
      (atEnd : r.2.atEnd = false) (stretches : st.stretches = r.1 :: r.2.stretches)
  | last (length : r.1.length < n) (failures : st.failures = 0) (next : r.2 = .ended)
      (stretches : st.stretches = [r.1])

variable {n : Nat}

theorem fetch_contents (buffer : List α) (source : List (ReadResult α)) :
    (fetch n buffer source).1 ++ (fetch n buffer source).2.contents = buffer ++ itemsOf source := by
  induction source generalizing buffer with
  | nil =>
    rw [fetch.eq_def]
    split_ifs
    · rw [contents, ← List.append_assoc, List.take_append_drop]
    · rfl
  | cons result source ih =>
    rw [fetch.eq_def]
    split_ifs
    · rw [contents, ← List.append_assoc, List.take_append_drop]
    · cases result with
      | items first more =>
        dsimp only
        rw [ih, itemsOf, List.append_assoc]
      | ended => rfl
      | failed => rfl

/-- What the buffer holds stands at the front of the first stretch. -/
theorem stretchesOf_append (taken buffer : List α) (source : List (ReadResult α)) :
    ∃ rest later, stretchesOf (taken ++ buffer) source = (taken ++ rest) :: later ∧
      stretchesOf buffer source = rest :: later := by
  induction source generalizing buffer with
  | nil => exact ⟨buffer, [], rfl, rfl⟩
  | cons result source ih =>
    cases result with
    | items first more =>
      obtain ⟨rest, later, htaken, hbuffer⟩ := ih (buffer ++ first :: more)
      rw [← List.append_assoc] at htaken
      exact ⟨rest, later, htaken, hbuffer⟩
    | ended => exact ⟨buffer, [], rfl, rfl⟩
    | failed => exact ⟨buffer, stretchesOf [] source, rfl, rfl⟩

theorem take_move {buffer : List α} (source : List (ReadResult α)) (hn : n ≤ buffer.length) :
    ReadMove n (.running buffer source) (buffer.take n, .running (buffer.drop n) source) := by
  obtain ⟨rest, later, htaken, hrest⟩ :=
    stretchesOf_append (buffer.take n) (buffer.drop n) source
  rw [List.take_append_drop] at htaken
  exact .full (List.length_take_of_le hn) rfl rest later htaken hrest

theorem fetch_move (buffer : List α) (source : List (ReadResult α)) :
    ReadMove n (.running buffer source) (fetch n buffer source) := by
  induction source generalizing buffer with
  | nil =>
    rw [fetch.eq_def]
    split_ifs with hn
    · exact take_move [] hn
    · exact .last (Nat.not_le.mp hn) rfl rfl rfl
  | cons result source ih =>
    rw [fetch.eq_def]
    split_ifs with hn
    · exact take_move (result :: source) hn
    · cases result with
      | items first more =>
        cases ih (buffer ++ first :: more) with
        | full length failures rest later stretches next =>
          exact .full length failures rest later stretches next
        | short length failures atEnd stretches => exact .short length failures atEnd stretches
        | last length failures next stretches => exact .last length failures next stretches
      | ended => exact .last (Nat.not_le.mp hn) rfl rfl rfl
      | failed => exact .short (Nat.not_le.mp hn) rfl rfl rfl

/-- No read loses anything, not even one that fails. -/
theorem read_contents (st : InputStream α) :
    (st.read n).1 ++ (st.read n).2.contents = st.contents := by
  cases st with
  | running buffer source => exact fetch_contents buffer source
  | ended => rfl

theorem read_move (hn : 0 < n) (st : InputStream α) : ReadMove n st (st.read n) := by
  cases st with
  | running buffer source => exact fetch_move buffer source
  | ended => exact .last hn rfl rfl rfl

theorem read_length_le (hn : 0 < n) (st : InputStream α) : (st.read n).1.length ≤ n := by
  cases st.read_move hn with
  | full length _ _ _ _ _ => exact length.le
  | short length _ _ _ => exact length.le
  | last length _ _ _ => exact length.le

/-- How many reads a stream is good for at the most. -/
def size (st : InputStream α) : Nat := st.contents.length + st.failures

/-- A read that brings nothing and does not end the stream has failed. -/
theorem read_nil (hn : 0 < n) {st : InputStream α} (h : (st.read n).1 = []) :
    (st.read n).2 = .ended ∧ st.contents = [] ∧ st.failures = 0 ∧ st.stretches = [[]] ∨
      (st.read n).2.atEnd = false ∧ (st.read n).2.contents = st.contents ∧
        (st.read n).2.failures + 1 = st.failures ∧
        st.stretches = [] :: (st.read n).2.stretches := by
  have hcontents := st.read_contents (n := n)
  rw [h, List.nil_append] at hcontents
  cases st.read_move hn with
  | full length _ _ _ _ _ =>
    rw [h, List.length_nil] at length
    omega
  | short _ failures atEnd stretches =>
    rw [h] at stretches
    exact Or.inr ⟨atEnd, hcontents, failures, stretches⟩
  | last _ failures next stretches =>
    rw [next] at hcontents
    rw [h] at stretches
    exact Or.inl ⟨next, hcontents.symm, failures, stretches⟩

end InputStream
