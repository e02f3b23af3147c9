import ReliableUdp.Framework.InputStream
import ReliableUdp.Sender.Runs
import ReliableUdp.Session.Link

namespace ReliableUdp

/-- How much `gbn_fill_and_send_window` asks `read_chunk` for. -/
def chunkSize : Nat := maxPacketSize - headerSize

theorem chunkSize_pos : 0 < chunkSize := by decide

def ReadOutcome.isError : ReadOutcome → Bool
  | .error => true
  | _ => false

/-- The stream that `get_file_stream` has opened. -/
abbrev FileStream := InputStream UInt8

namespace FileStream

/-- `read_chunk`, with `fread` and `feof` of the stream. -/
def readChunk (st : FileStream) : ReadOutcome × FileStream :=
  if h : 0 < (InputStream.read chunkSize st).1.length then
    (.bytes ⟨(InputStream.read chunkSize st).1, h, st.read_length_le chunkSize_pos⟩,
      (InputStream.read chunkSize st).2)
  else if (InputStream.read chunkSize st).2.atEnd then (.eof, (InputStream.read chunkSize st).2)
  else (.error, (InputStream.read chunkSize st).2)

/-- What the next calls of `read_chunk` report, up to the end of the stream. -/
def outcomes : Nat → FileStream → InputFile
  | 0, _ => []
  | n + 1, st =>
    match st.readChunk with
    | (.eof, _) => []
    | (outcome, rest) => outcome :: outcomes n rest

/-- What all calls of `read_chunk` are going to report. -/
def file (st : FileStream) : InputFile := outcomes (InputStream.size st) st

/-- What the calls of `read_chunk` report about the stretches of the input between its failing
reads: full chunks and at the end of a stretch what remains of it. Where nothing remains it is an
error that is reported; the end of the last stretch is not an outcome of its own. -/
inductive Reported : List (List UInt8) → InputFile → Prop where
  | full {chunk : Chunk} (hfull : chunk.val.length = chunkSize) {rest : List UInt8}
      {later : List (List UInt8)} {file : InputFile} (h : Reported (rest :: later) file) :
      Reported ((chunk.val ++ rest) :: later) (.bytes chunk :: file)
  | short {chunk : Chunk} (hshort : chunk.val.length < chunkSize) {later : List (List UInt8)}
      {file : InputFile} (h : Reported later file) :
      Reported (chunk.val :: later) (.bytes chunk :: file)
  | last {chunk : Chunk} (hshort : chunk.val.length < chunkSize) :
      Reported [chunk.val] [.bytes chunk]
  | error {later : List (List UInt8)} {file : InputFile} (h : Reported later file) :
      Reported ([] :: later) (.error :: file)
  | eof : Reported [[]] []

/-- A call of `read_chunk` takes a chunk from the front of the stretches. -/
inductive TakesChunk (st : FileStream) (chunk : Chunk) (next : FileStream) : Prop where
  | full (length : chunk.val.length = chunkSize) (rest : List UInt8) (later : List (List UInt8))
      (stretches : st.stretches = (chunk.val ++ rest) :: later)
      (left : next.stretches = rest :: later)
  | short (length : chunk.val.length < chunkSize) (failures : next.failures + 1 = st.failures)
      (stretches : st.stretches = chunk.val :: next.stretches)
  | last (length : chunk.val.length < chunkSize) (next : next = .ended)
      (stretches : st.stretches = [chunk.val])

/-- How a call of `read_chunk` goes. -/
inductive ChunkMove (st : FileStream) : Prop where
  | bytes (chunk : Chunk) (next : FileStream) (read : st.readChunk = (.bytes chunk, next))
      (contents : st.contents = chunk.val ++ next.contents)
      (takes : st.TakesChunk chunk next) (failures : next.failures ≤ st.failures)
  | eof (read : st.readChunk = (.eof, .ended)) (contents : st.contents = [])
      (failures : st.failures = 0) (stretches : st.stretches = [[]])
  | error (next : FileStream) (read : st.readChunk = (.error, next))
      (contents : st.contents = next.contents) (failures : next.failures + 1 = st.failures)
      (stretches : st.stretches = [] :: next.stretches)

theorem chunkMove (st : FileStream) : st.ChunkMove := by
  have hcontents := st.read_contents (n := chunkSize)
  by_cases hpos : 0 < (InputStream.read chunkSize st).1.length
  · have hread : st.readChunk = (.bytes ⟨(InputStream.read chunkSize st).1, hpos,
        st.read_length_le chunkSize_pos⟩, (InputStream.read chunkSize st).2) := by
      rw [readChunk, dif_pos hpos]
    cases st.read_move chunkSize_pos with
    | full length failures rest later stretches next =>
      exact .bytes _ _ hread hcontents.symm (.full length rest later stretches next) failures.le
    | short length failures _ stretches =>
      exact .bytes _ _ hread hcontents.symm (.short length failures stretches) (by omega)
    | last length failures next stretches =>
      refine .bytes _ _ hread hcontents.symm (.last length next stretches) ?_
      rw [next]
      exact Nat.zero_le _
  · have hnil : (InputStream.read chunkSize st).1 = [] :=
      List.length_eq_zero_iff.mp (Nat.eq_zero_of_not_pos hpos)
    rcases st.read_nil chunkSize_pos hnil with
      ⟨hend, hempty, hnone, hlast⟩ | ⟨hgoes, hsame, hfailed, hlater⟩
    · refine .eof ?_ hempty hnone hlast
      rw [readChunk, dif_neg hpos, hend]
      rfl
    · refine .error _ ?_ hsame.symm hfailed hlater
      rw [readChunk, dif_neg hpos, if_neg (by rw [hgoes]; decide)]

theorem outcomes_bytes {st next : FileStream} {chunk : Chunk}
    (h : st.readChunk = (.bytes chunk, next)) (n : Nat) :
    outcomes (n + 1) st = .bytes chunk :: outcomes n next := by
  rw [outcomes, h]

theorem outcomes_error {st next : FileStream} (h : st.readChunk = (.error, next)) (n : Nat) :
    outcomes (n + 1) st = .error :: outcomes n next := by
  rw [outcomes, h]

theorem outcomes_eof {st next : FileStream} (h : st.readChunk = (.eof, next)) (n : Nat) :
    outcomes n st = [] := by
  cases n with
  | zero => rfl
  | succ n => rw [outcomes, h]

/-- A chunk makes the stream smaller. -/
theorem size_bytes {st next : FileStream} {chunk : Chunk}
    (hcontents : st.contents = chunk.val ++ next.contents)
    (hfailures : next.failures ≤ st.failures) :
    next.size < st.size := by
  have hpos := chunk.property.1
  rw [InputStream.size, InputStream.size, hcontents, List.length_append]
  omega

theorem size_error {st next : FileStream} (hcontents : st.contents = next.contents)
    (hfailures : next.failures + 1 = st.failures) : next.size < st.size := by
  rw [InputStream.size, InputStream.size, hcontents]
  omega

/-- More calls than the stream is good for report nothing new. -/
theorem outcomes_enough {n m : Nat} (st : FileStream) (hn : st.size ≤ n) (hm : st.size ≤ m) :
    outcomes n st = outcomes m st := by
  induction n generalizing m st with
  | zero =>
    cases st.chunkMove with
    | bytes chunk next _ contents _ failures =>
      have hlt := size_bytes contents failures
      omega
    | eof read _ _ _ => rw [outcomes_eof read, outcomes_eof read]
    | error next _ contents failures _ =>
      have hlt := size_error contents failures
      omega
  | succ n ih =>
    cases st.chunkMove with
    | bytes chunk next read contents _ failures =>
      have hlt := size_bytes contents failures
      cases m with
      | zero => omega
      | succ m =>
        rw [outcomes_bytes read, outcomes_bytes read, ih (m := m) next (by omega) (by omega)]
    | eof read _ _ _ => rw [outcomes_eof read, outcomes_eof read]
    | error next read contents failures _ =>
      have hlt := size_error contents failures
      cases m with
      | zero => omega
      | succ m =>
        rw [outcomes_error read, outcomes_error read, ih (m := m) next (by omega) (by omega)]

theorem file_bytes {st next : FileStream} {chunk : Chunk} (h : st.readChunk = (.bytes chunk, next))
    (hlt : next.size < st.size) : st.file = .bytes chunk :: next.file := by
  rw [file, outcomes_enough st (Nat.le_refl _) (Nat.le_succ _), outcomes_bytes h,
    outcomes_enough next hlt.le (Nat.le_refl _), file]

theorem file_error {st next : FileStream} (h : st.readChunk = (.error, next))
    (hlt : next.size < st.size) : st.file = .error :: next.file := by
  rw [file, outcomes_enough st (Nat.le_refl _) (Nat.le_succ _), outcomes_error h,
    outcomes_enough next hlt.le (Nat.le_refl _), file]

/-- The list of outcomes does what the stream does. -/
theorem readChunk_file (st : FileStream) :
    ReliableUdp.readChunk st.file = (st.readChunk.1, st.readChunk.2.file) := by
  cases st.chunkMove with
  | bytes chunk next read contents _ failures =>
    rw [file_bytes read (size_bytes contents failures), read]
    rfl
  | eof read _ _ _ =>
    rw [file, outcomes_eof read, read]
    rfl
  | error next read contents failures _ =>
    rw [file_error read (size_error contents failures), read]
    rfl

/-- Induction over the calls of `read_chunk`. -/
theorem reads_induction {P : FileStream → Prop}
    (bytes : ∀ st chunk next, st.file = .bytes chunk :: next.file →
      st.contents = chunk.val ++ next.contents → st.TakesChunk chunk next →
      next.failures ≤ st.failures → P next → P st)
    (eof : ∀ st, st.file = [] → st.contents = [] → st.failures = 0 → st.stretches = [[]] → P st)
    (error : ∀ st next, st.file = .error :: next.file → st.contents = next.contents →
      next.failures + 1 = st.failures → st.stretches = [] :: next.stretches → P next → P st)
    (st : FileStream) : P st := by
  induction hn : st.size using Nat.strong_induction_on generalizing st with
  | _ n ih =>
    subst hn
    cases st.chunkMove with
    | bytes chunk next read contents takes failures =>
      have hlt := size_bytes contents failures
      exact bytes st chunk next (file_bytes read hlt) contents takes failures (ih _ hlt next rfl)
    | eof read contents failures stretches =>
      exact eof st (outcomes_eof read _) contents failures stretches
    | error next read contents failures stretches =>
      have hlt := size_error contents failures
      exact error st next (file_error read hlt) contents failures stretches (ih _ hlt next rfl)

/-- What `read_chunk` makes of a stream: all its bytes in order, in chunks of the full size but for
the last one of a stretch, which the end of the stream or a failing read cuts short. A failing read
that leaves such a chunk is not reported. -/
structure Splits (st : FileStream) : Prop where
  joined : joinChunks (chunksOf st.file) = st.contents
  reported : Reported st.stretches st.file
  ended : .eof ∉ st.file
  errors : st.file.countP ReadOutcome.isError ≤ st.failures
  calls : chunkSize * st.file.length < st.contents.length + chunkSize * (st.failures + 1)

theorem splits (st : FileStream) : st.Splits := by
  induction st using reads_induction with
  | bytes st chunk next file contents takes failures ih =>
    refine ⟨?_, ?_, ?_, ?_, ?_⟩
    · rw [file, contents, ← ih.joined]
      rfl
    · rw [file]
      cases takes with
      | full length rest later stretches left =>
        rw [stretches]
        exact .full length (left ▸ ih.reported)
      | short length _ stretches =>
        rw [stretches]
        exact .short length ih.reported
      | last length next stretches =>
        rw [stretches, next]
        exact .last length
    · rw [file, List.mem_cons, not_or]
      exact ⟨by simp, ih.ended⟩
    · rw [file, List.countP_cons_of_neg (by simp [ReadOutcome.isError])]
      exact ih.errors.trans failures
    · have hcalls := ih.calls
      have hpos := chunk.property.1
      rw [file, contents, List.length_cons, List.length_append]
      simp only [chunkSize, maxPacketSize, headerSize] at hcalls ⊢
      cases takes with
      | full length _ _ _ _ =>
        simp only [chunkSize, maxPacketSize, headerSize] at length
        omega
      | short _ failed _ => omega
      | last _ ended _ =>
        have hnone : next.file.length = 0 := by
          rw [ended]
          rfl
        omega
  | eof st file contents failures stretches =>
    refine ⟨?_, ?_, ?_, ?_, ?_⟩
    · rw [file, contents]
      rfl
    · rw [file, stretches]
      exact .eof
    · rw [file]
      exact List.not_mem_nil
    · rw [file]
      exact Nat.zero_le _
    · rw [file, contents, failures]
      decide
  | error st next file contents failures stretches ih =>
    refine ⟨?_, ?_, ?_, ?_, ?_⟩
    · rw [file, contents, ← ih.joined]
      rfl
    · rw [file, stretches]
      exact .error ih.reported
    · rw [file, List.mem_cons, not_or]
      exact ⟨by simp, ih.ended⟩
    · rw [file, List.countP_cons_of_pos rfl, ← failures]
      exact Nat.succ_le_succ ih.errors
    · have hcalls := ih.calls
      rw [file, contents, List.length_cons, ← failures]
      simp only [chunkSize, maxPacketSize, headerSize] at hcalls ⊢
      omega

end FileStream

theorem joinChunks_length_le (chunks : List Chunk) :
    (joinChunks chunks).length ≤ chunkSize * chunks.length := by
  induction chunks with
  | nil => exact Nat.zero_le _
  | cons chunk chunks ih =>
    have hlen : (joinChunks (chunk :: chunks)).length =
        chunk.val.length + (joinChunks chunks).length := List.length_append
    have hfull : chunk.val.length ≤ chunkSize := chunk.property.2
    rw [hlen, List.length_cons, Nat.mul_succ]
    omega

/-- A file without end of file and errors is made of chunks. -/
theorem eq_map_chunksOf {file : InputFile} (heof : .eof ∉ file)
    (herr : file.countP ReadOutcome.isError = 0) : file = (chunksOf file).map .bytes := by
  induction file with
  | nil => rfl
  | cons outcome file ih =>
    rw [List.mem_cons, not_or] at heof
    cases outcome with
    | bytes chunk => exact congrArg (List.cons _) (ih heof.2 herr)
    | eof => exact absurd rfl heof.1
    | error =>
      rw [List.countP_cons_of_pos rfl] at herr
      exact absurd herr (Nat.succ_ne_zero _)

/-- For every source of the input, whatever its reads bring, the `read_chunk` calls hand out all
bytes before its end, in order and in full chunks but for the last one of a stretch: without failing
reads there are as many as the bytes fill, rounded up, and no error is reported. -/
theorem stream_splits (st : FileStream) :
    readChunk st.file = (st.readChunk.1, st.readChunk.2.file) ∧ st.Splits ∧
    (st.failures = 0 → ∃ chunks : List Chunk, st.file = chunks.map .bytes ∧
      chunks.length = (st.contents.length + (chunkSize - 1)) / chunkSize) := by
  have hsplits := st.splits
  refine ⟨st.readChunk_file, hsplits, ?_⟩
  intro hnone
  have herr : st.file.countP ReadOutcome.isError = 0 :=
    Nat.eq_zero_of_le_zero (hnone ▸ hsplits.errors)
  have hfile := eq_map_chunksOf hsplits.ended herr
  refine ⟨chunksOf st.file, hfile, ?_⟩
  have hcalls := hsplits.calls
  have hbytes := joinChunks_length_le (chunksOf st.file)
  rw [hsplits.joined] at hbytes
  rw [hfile, List.length_map, hnone] at hcalls
  simp only [chunkSize, maxPacketSize, headerSize] at hcalls hbytes ⊢
  omega

end ReliableUdp
