import ReliableUdp.Endpoint.ExitCode
import ReliableUdp.Framework.BufferedStream

namespace ReliableUdp

open Machine

variable {Addr : Type}

/-- What the outside does during one activation of the server process. Whether `fwrite` and `fclose`
succeed is for the stream to say, so `env` is not asked about them. -/
structure SinkEnv (Addr : Type) where
  env : Env Addr
  fwrite : BufferedStream.Outcome
  /-- the write-out of `fclose`; `some n` when it fails after `n` bytes -/
  fclose : Option Nat
  /-- the write-out of the standard streams when the process exits -/
  exit : Option Nat

/-- The server with the stream `file` it writes to, up to the end of the process. -/
structure ServerProcess (Addr : Type) where
  server : Server Addr
  file : BufferedStream UInt8
  /-- the exit code of the process -/
  exited : Option Int

/-- The bytes that an activation hands to `fwrite`; a call for no bytes is no call. -/
def Server.writes (s : Server Addr) (e : Env Addr) : List UInt8 :=
  match s.taken e with
  | none => []
  | some (h, payload) => if s.Expects h then payload else []

namespace Server

variable {config : AppConfig} {s : Server Addr} {e : Env Addr}

theorem writes_of_not_taken (h : s.taken e = none) : s.writes e = [] := by rw [writes, h]

/-- Of the bytes handed to `fwrite` the output gets those that are taken, and it gets no others. -/
theorem step_writes (config : AppConfig) (s : Server Addr) (e : Env Addr) :
    (s.step config e).1.output = s.output ++ (s.writes e).take (written e (s.writes e)) := by
  have hidle (hw : s.writes e = []) (hno : ∀ h payload, s.taken e = some (h, payload) →
      ¬ s.Expects h) : (s.step config e).1.output = s.output := by
    have hc : s.commits e = [] := by
      rw [commits, List.filter_eq_nil_iff]
      intro r hr hexpected
      exact hno r.1 r.2 (Option.mem_toList.mp hr) (of_decide_eq_true hexpected).1
    have hmove : ServerMove s e (s.step config e) := step_move
    cases hmove with
    | quiet _ hout _ _ _ _ => exact hout
    | acks _ _ _ hout _ _ =>
      rw [hout, hc]
      exact List.append_nil _
    | breaks _ payload hbreaks _ _ _ _ =>
      obtain ⟨h, ht, hx, _⟩ := hbreaks
      exact absurd hx (hno h payload ht)
  cases htaken : s.taken e with
  | none =>
    have hw := writes_of_not_taken htaken
    rw [hidle hw (by simp [htaken]), hw, List.take_nil, List.append_nil]
  | some received =>
    obtain ⟨h, payload⟩ := received
    by_cases hx : s.Expects h
    · obtain ⟨a, hstep⟩ := step_expected config htaken hx
      have hw : s.writes e = payload := by simp only [writes, htaken, if_pos hx]
      rw [hstep, dataPacket, if_pos (by exact hx.2.2), hw]
      dsimp only
      split_ifs
      · rfl
      · rw [reply]
        split_ifs <;> rfl
    · have hw : s.writes e = [] := by simp only [writes, htaken, if_neg hx]
      rw [hidle hw ?_, hw, List.take_nil, List.append_nil]
      intro h' payload' ht
      obtain ⟨rfl, rfl⟩ := Prod.mk.inj (Option.some.inj (htaken.symm.trans ht))
      exact hx

/-- What an activation of a server writes and acknowledges if it does not spoil the exit code. -/
structure WritesAll (config : AppConfig) (s : Server Addr) (e : Env Addr) : Prop where
  commits : payloads (s.commits e) = s.writes e
  full : written e (s.writes e) = (s.writes e).length
  acked : s.commits e ≠ [] → ∃ o ∈ (s.step config e).2, o.sent = true ∧
    ∃ h payload, parsePacket o.data = .ok (h, payload) ∧ h.flags &&& flagAck ≠ 0

theorem written_nil (e : Env Addr) : written e [] = ([] : List UInt8).length :=
  Nat.le_antisymm (written_le e []) (Nat.zero_le _)

theorem reply_sent {flags : UInt8} {next : Server Addr}
    (h : (s.reply e flags next).1.exitCode = exOk) :
    (s.control e flags).sent = true ∧ (s.reply e flags next).2 = [s.control e flags] := by
  rw [reply] at h ⊢
  split_ifs at h ⊢ with hsent
  · exact ⟨hsent, rfl⟩
  · exact absurd (show exOsErr = exOk from h) (by decide)

theorem parse_control (s : Server Addr) (e : Env Addr) {flags : UInt8}
    (hflags : flags &&& flagAck ≠ 0) : ∃ h payload,
    parsePacket (s.control e flags).data = .ok (h, payload) ∧ h.flags &&& flagAck ≠ 0 := by
  obtain ⟨checksum, h⟩ := parsePacket_encode s.connection.seqNum s.connection.ackNum
    s.connection.connId flags [] (Nat.zero_le _)
  exact ⟨_, _, h, hflags⟩

theorem writesAll (hok : (s.step config e).1.exitCode = exOk) : s.WritesAll config e := by
  have hnone (hw : s.writes e = []) (hc : s.commits e = []) : s.WritesAll config e := by
    refine ⟨by rw [hw, hc]; rfl, by rw [hw]; exact written_nil e, ?_⟩
    intro hne
    exact absurd hc hne
  cases htaken : s.taken e with
  | none => exact hnone (writes_of_not_taken htaken) (commits_of_not_taken htaken)
  | some received =>
    obtain ⟨h, payload⟩ := received
    by_cases hx : s.Expects h
    · have hw : s.writes e = payload := by simp only [writes, htaken, if_pos hx]
      obtain ⟨a, hstep⟩ := step_expected config htaken hx
      rw [hstep, dataPacket, if_pos (by exact hx.2.2)] at hok
      dsimp only at hok
      split_ifs at hok with hshort
      · exact absurd (show exIoErr = exOk from hok) (by decide)
      · have hfull : written e payload = payload.length := not_not.mp hshort
        have hc : s.commits e = [(h, payload)] := by simp [commits, htaken, hx, hfull]
        refine ⟨by rw [hc, hw]; exact payloads_single h payload, by rw [hw]; exact hfull, ?_⟩
        intro _
        obtain ⟨hsent, hsends⟩ := reply_sent hok
        rw [hstep, dataPacket, if_pos (by exact hx.2.2)]
        dsimp only
        rw [if_neg hshort, hsends]
        exact ⟨_, List.mem_singleton_self _, hsent, parse_control _ e (by decide)⟩
    · apply hnone
      · simp only [writes, htaken, if_neg hx]
      · simp [commits, htaken, hx]

/-- `run_server` returns `EX_OK` only if no error was noted, and if `fclose` succeeded. -/
theorem cleanup_ok (h : (s.cleanup config e).exitCode = exOk) :
    s.exitCode = exOk ∧ (usesDefaultStream config.outputFile = false → e.fclose = true) := by
  rw [cleanup] at h
  dsimp only at h
  split_ifs at h with hclose hfclose
  · exact absurd h (by decide)
  · exact absurd h (by decide)
  · refine ⟨h, ?_⟩
    intro hfile
    simpa [hfile] using hfclose

end Server

namespace ServerProcess

def init (clientAddr : Addr) (startMs : UInt64) : ServerProcess Addr where
  server := .init clientAddr startMs
  file := .empty
  exited := none

/-- What the server sees of the outside. -/
def env (p : ServerProcess Addr) (d : SinkEnv Addr) : Env Addr :=
  { d.env with
    fwrite := some (p.file.write (p.server.writes d.env) d.fwrite).2
    fclose := (p.file.close d.fclose).2 }

/-- One activation of the process: of the server while it runs, then `main` returns the exit code,
and `exit` writes out the standard streams without looking at the result. -/
def step (config : AppConfig) (p : ServerProcess Addr) (d : SinkEnv Addr) :
    ServerProcess Addr × List (Send Addr) :=
  match p.server.pc, p.server.state with
  | .returned code, _ =>
    if p.exited.isSome then (p, [])
    else ({ p with
      file := if usesDefaultStream config.outputFile then (p.file.close d.exit).1 else p.file
      exited := some code }, [])
  | .fsm, .done =>
    let next := p.server.step config (p.env d)
    ({ p with
      server := next.1
      file := if usesDefaultStream config.outputFile then p.file else (p.file.close d.fclose).1 },
      next.2)
  | _, _ =>
    let next := p.server.step config (p.env d)
    ({ p with
      server := next.1
      file := (p.file.write (p.server.writes d.env) d.fwrite).1 }, next.2)

/-- The packets written in full so far, in order. -/
abbrev ledger (config : AppConfig) (p : ServerProcess Addr) (ds : List (SinkEnv Addr)) :
    List (RDTHeader × List UInt8) :=
  logged (step config) (fun p d => p.server.commits (p.env d)) p ds

/-- A packet with the ACK flag leaves the host. Its number covers the packets written so far. -/
def Acknowledges (config : AppConfig) (p : ServerProcess Addr) (d : SinkEnv Addr) : Prop :=
  ∃ o ∈ (p.step config d).2, o.sent = true ∧ ∃ h payload, parsePacket o.data = .ok (h, payload) ∧
    h.flags &&& flagAck ≠ 0

/-- Every payload byte that the server acknowledged is in the sink. -/
def NothingLost (config : AppConfig) (p₀ : ServerProcess Addr) (ds : List (SinkEnv Addr)) : Prop :=
  ∀ pre d post, ds = pre ++ d :: post → (after (step config) p₀ pre).Acknowledges config d →
    payloads (ledger config p₀ (pre ++ [d])) <+: (after (step config) p₀ ds).file.accepted

/-- The process exits and the sink refuses a part of what standard output still holds. -/
def LosesAtExit (config : AppConfig) (p : ServerProcess Addr) (d : SinkEnv Addr) : Prop :=
  usesDefaultStream config.outputFile = true ∧ p.exited = none ∧
    (∃ code, p.server.pc = .returned code) ∧ ∃ n, d.exit = some n ∧ n < p.file.pending.length

section Runs

variable {config : AppConfig} {p p₀ : ServerProcess Addr} {d : SinkEnv Addr}
  {ds : List (SinkEnv Addr)}

theorem step_returned {code : Int} (h : p.server.pc = .returned code) : p.step config d =
    if p.exited.isSome then (p, [])
    else ({ p with
      file := if usesDefaultStream config.outputFile then (p.file.close d.exit).1 else p.file
      exited := some code }, []) := by
  simp only [step, h]

theorem step_cleanup (hpc : p.server.pc = .fsm) (hs : p.server.state = .done) : p.step config d =
    ({ p with
      server := p.server.cleanup config (p.env d)
      file := if usesDefaultStream config.outputFile then p.file else (p.file.close d.fclose).1 },
      []) := by
  simp only [step, hpc, hs, Server.step_fsm hpc, Server.runServer_done hs]

theorem step_serving (hpc : p.server.pc.Waiting)
    (h : ¬ (p.server.pc = .fsm ∧ p.server.state = .done)) : p.step config d = ({ p with
      server := (p.server.step config (p.env d)).1
      file := (p.file.write (p.server.writes d.env) d.fwrite).1 },
      (p.server.step config (p.env d)).2) := by
  rcases hpc with hpc | ⟨ms, hpc⟩
  · have hs : p.server.state ≠ .done := fun hs => h ⟨hpc, hs⟩
    rw [step]
    split
    · exact absurd (hpc.symm.trans ‹p.server.pc = .returned _›) (by simp)
    · exact absurd ‹p.server.state = .done› hs
    · rfl
  · simp only [step, hpc]

/-- What an activation of the process gives to the server: nothing once that has returned. -/
def inputs (p : ServerProcess Addr) (d : SinkEnv Addr) : List (Env Addr) :=
  match p.server.pc with
  | .returned _ => []
  | _ => [p.env d]

theorem step_server (config : AppConfig) (p : ServerProcess Addr) (d : SinkEnv Addr) :
    (p.step config d).1.server = after (Server.step config) p.server (p.inputs d) := by
  cases hpc : p.server.pc with
  | returned code =>
    simp only [step_returned hpc, inputs, hpc, after]
    split_ifs <;> rfl
  | select ms =>
    have hserving : ¬ (p.server.pc = .fsm ∧ p.server.state = .done) := by simp [hpc]
    rw [step_serving (Or.inr ⟨ms, hpc⟩) hserving, inputs, hpc]
    rfl
  | fsm =>
    rw [inputs, hpc]
    by_cases hs : p.server.state = .done
    · rw [step_cleanup hpc hs]
      simp only [after, Server.step_fsm hpc, Server.runServer_done hs]
    · rw [step_serving (Or.inl hpc) (fun h => hs h.2)]
      rfl

theorem commits_of_returned {code : Int} (h : p.server.pc = .returned code) :
    p.server.commits (p.env d) = [] :=
  Server.commits_of_not_receives (by simp [Server.receives, h])

theorem commits_eq (p : ServerProcess Addr) (d : SinkEnv Addr) : p.server.commits (p.env d) =
    logged (Server.step config) Server.commits p.server (p.inputs d) := by
  cases hpc : p.server.pc with
  | returned code => rw [commits_of_returned hpc, inputs, hpc, logged]
  | select ms => simp only [inputs, hpc, logged, List.append_nil]
  | fsm => simp only [inputs, hpc, logged, List.append_nil]

/-- The server of a process runs as a server on its own does, and keeps the same ledger; so what is
known of the numbers of its ACKs holds here too. -/
theorem runs_server (config : AppConfig) (p₀ : ServerProcess Addr) (ds : List (SinkEnv Addr)) :
    (after (step config) p₀ ds).server =
      after (Server.step config) p₀.server (logged (step config) inputs p₀ ds) ∧
    ledger config p₀ ds =
      Server.ledger config p₀.server (logged (step config) inputs p₀ ds) :=
  ⟨component_after (step_server config) p₀ ds,
    component_logged (step_server config) commits_eq p₀ ds⟩

/-- All that has been written in full has also been acknowledged. -/
def Covered (config : AppConfig) (p₀ : ServerProcess Addr) (ds : List (SinkEnv Addr)) : Prop :=
  ledger config p₀ ds = [] ∨ ∃ pre d post, ds = pre ++ d :: post ∧
    (after (step config) p₀ pre).Acknowledges config d ∧
    ledger config p₀ (pre ++ [d]) = ledger config p₀ ds

/-- Nothing has gone wrong so far. -/
structure Kept (config : AppConfig) (p₀ : ServerProcess Addr) (ds : List (SinkEnv Addr))
    (p : ServerProcess Addr) : Prop where
  covered : Covered config p₀ ds
  calm : Always (step config) (fun p d => ¬ p.LosesAtExit config d) p₀ ds
  held : p.file.held = payloads (ledger config p₀ ds)

/-- The course of a process: it serves, it has returned from `run_server`, it has exited, or it is
going to fail. -/
inductive Course (config : AppConfig) (p₀ : ServerProcess Addr) (ds : List (SinkEnv Addr))
    (p : ServerProcess Addr) : Prop where
  | serves (kept : Kept config p₀ ds p) (code : p.server.exitCode = exOk)
      (pc : p.server.pc.Waiting) (running : p.exited = none)
  | returned (kept : Kept config p₀ ds p) (pc : p.server.pc = .returned exOk)
      (running : p.exited = none)
      (closed : usesDefaultStream config.outputFile = false → p.file.pending = [])
  | exited (covered : Covered config p₀ ds) (pc : p.server.pc = .returned exOk)
      (code : p.exited = some exOk)
      (within : p.file.accepted <+: payloads (ledger config p₀ ds))
      (all : p.file.accepted = payloads (ledger config p₀ ds) ↔
        Always (step config) (fun p d => ¬ p.LosesAtExit config d) p₀ ds)
  | failed (state : p.server.state = .done) (code : p.server.exitCode ≠ exOk)
      (pc : p.server.pc.Waiting ∨ ∃ code, code ≠ exOk ∧ p.server.pc = .returned code)
      (exited : p.exited ≠ some exOk)

theorem Covered.quiet (h : Covered config p₀ ds)
    (hsame : ledger config p₀ (ds ++ [d]) = ledger config p₀ ds) :
    Covered config p₀ (ds ++ [d]) := by
  rcases h with hnil | ⟨pre, d', post, rfl, hacks, hall⟩
  · exact Or.inl (hsame.trans hnil)
  · right
    refine ⟨pre, d', post ++ [d], by simp, hacks, ?_⟩
    rw [hsame]
    exact hall

theorem not_loses (h : p.server.pc.Waiting) : ¬ p.LosesAtExit config d := by
  intro hl
  obtain ⟨_, _, ⟨code, hcode⟩, _⟩ := hl
  rcases h with h | ⟨ms, h⟩
  · exact absurd (h.symm.trans hcode) (by simp)
  · exact absurd (h.symm.trans hcode) (by simp)

theorem acknowledges_of_commits (hpc : p.server.pc.Waiting)
    (hserving : ¬ (p.server.pc = .fsm ∧ p.server.state = .done))
    (hw : p.server.WritesAll config (p.env d)) (hc : p.server.commits (p.env d) ≠ []) :
    p.Acknowledges config d := by
  obtain ⟨o, ho, hsent⟩ := hw.acked hc
  rw [Acknowledges, step_serving hpc hserving]
  exact ⟨o, ho, hsent⟩

/-- An activation that writes what it is asked to. -/
theorem Kept.write (h : Kept config p₀ ds p) (hp : p = after (step config) p₀ ds)
    (hpc : p.server.pc.Waiting) (hserving : ¬ (p.server.pc = .fsm ∧ p.server.state = .done))
    (hw : p.server.WritesAll config (p.env d)) :
    Kept config p₀ (ds ++ [d]) (p.step config d).1 := by
  have hsnoc : ledger config p₀ (ds ++ [d]) =
      ledger config p₀ ds ++ p.server.commits (p.env d) := by
    rw [hp]
    exact logged_snoc p₀ ds d
  refine ⟨?_, ?_, ?_⟩
  · by_cases hc : p.server.commits (p.env d) = []
    · exact h.covered.quiet (by rw [hsnoc, hc, List.append_nil])
    · right
      refine ⟨ds, d, [], rfl, ?_, rfl⟩
      rw [← hp]
      exact acknowledges_of_commits hpc hserving hw hc
  · rw [always_snoc, ← hp]
    exact ⟨h.calm, not_loses hpc⟩
  · have hcount : (p.file.write (p.server.writes d.env) d.fwrite).2 =
        (p.server.writes d.env).length := by
      have hmin : min (p.file.write (p.server.writes d.env) d.fwrite).2
          (p.server.writes d.env).length = (p.server.writes d.env).length := hw.full
      have hle : (p.file.write (p.server.writes d.env) d.fwrite).2 ≤
        (p.server.writes d.env).length := BufferedStream.write_count_le
      omega
    rw [step_serving hpc hserving, hsnoc, payloads_append, hw.commits]
    exact (BufferedStream.held_write hcount).trans (congrArg (· ++ _) h.held)

/-- The cleanup of `run_server`. -/
theorem Kept.cleanup (h : Kept config p₀ ds p) (hp : p = after (step config) p₀ ds)
    (hpc : p.server.pc = .fsm) (hs : p.server.state = .done) (hrun : p.exited = none) :
    Course config p₀ (ds ++ [d]) (p.step config d).1 := by
  have hsame : ledger config p₀ (ds ++ [d]) = ledger config p₀ ds := by
    rw [ledger, logged_snoc, ← hp, Server.commits_of_state (by rw [hs]; decide), List.append_nil]
  have hcalm : Always (step config) (fun p d => ¬ p.LosesAtExit config d) p₀ (ds ++ [d]) := by
    rw [always_snoc, ← hp]
    exact ⟨h.calm, not_loses (Or.inl hpc)⟩
  rw [step_cleanup hpc hs]
  by_cases hok : (p.server.cleanup config (p.env d)).exitCode = exOk
  · have hclosed := (Server.cleanup_ok hok).2
    refine .returned ⟨h.covered.quiet hsame, hcalm, ?_⟩ (by rw [← hok]; rfl) hrun ?_
    · dsimp only
      rw [hsame, ← h.held]
      split_ifs with hstd
      · rfl
      · exact BufferedStream.held_close (hclosed (Bool.eq_false_of_not_eq_true hstd))
    · intro hstd
      simp [hstd]
  · exact .failed hs hok (Or.inr ⟨_, hok, rfl⟩) (by rw [hrun]; simp)

/-- The process exits with success. -/
theorem Kept.exit (h : Kept config p₀ ds p) (hp : p = after (step config) p₀ ds)
    (hpc : p.server.pc = .returned exOk) (hrun : p.exited = none)
    (hclosed : usesDefaultStream config.outputFile = false → p.file.pending = []) :
    Course config p₀ (ds ++ [d]) (p.step config d).1 := by
  have hsame : ledger config p₀ (ds ++ [d]) = ledger config p₀ ds := by
    rw [ledger, logged_snoc, ← hp, commits_of_returned hpc, List.append_nil]
  have hcalm : Always (step config) (fun p d => ¬ p.LosesAtExit config d) p₀ (ds ++ [d]) ↔
      ¬ p.LosesAtExit config d := by
    rw [always_snoc, ← hp]
    exact and_iff_right h.calm
  rw [step_returned hpc, hrun]
  cases hstd : usesDefaultStream config.outputFile with
  | true =>
    refine .exited (h.covered.quiet hsame) hpc rfl ?_ ?_
    · rw [hsame, ← h.held]
      exact BufferedStream.accepted_close_prefix d.exit
    · rw [hcalm, hsame, ← h.held]
      refine (BufferedStream.accepted_close_iff d.exit).trans (not_congr ?_)
      simp [LosesAtExit, hstd, hrun, hpc]
  | false =>
    have hall : p.file.accepted = payloads (ledger config p₀ (ds ++ [d])) := by
      rw [hsame, ← h.held]
      exact BufferedStream.accepted_of_empty (hclosed hstd)
    refine .exited (h.covered.quiet hsame) hpc rfl ?_ ?_
    · rw [← hall]
      exact List.prefix_refl _
    · rw [hcalm, ← hall]
      simp [LosesAtExit, hstd]

/-- An activation of the serving server. -/
theorem Kept.serve (h : Kept config p₀ ds p) (hp : p = after (step config) p₀ ds)
    (hcode : p.server.exitCode = exOk) (hpc : p.server.pc.Waiting) (hrun : p.exited = none)
    (hserving : ¬ (p.server.pc = .fsm ∧ p.server.state = .done)) :
    Course config p₀ (ds ++ [d]) (p.step config d).1 := by
  obtain ⟨hstate, hpc'⟩ : p.server.Keeps (p.server.step config (p.env d)) ∧
      (p.server.step config (p.env d)).1.pc.Waiting := by
    by_cases hs : p.server.state = .done
    · have hstuck : p.server.step config (p.env d) = (p.server, []) := by
        rcases hpc with hpc | ⟨ms, hpc⟩
        · exact absurd ⟨hpc, hs⟩ hserving
        · simp only [Server.step_select hpc, Server.resume, hs]
      rw [hstuck]
      exact ⟨Or.inl hs, hpc⟩
    · exact ⟨Server.step_keeps hs hpc, Server.step_waiting hs hpc⟩
  by_cases hok : (p.server.step config (p.env d)).1.exitCode = exOk
  · apply Course.serves (h.write hp hpc hserving (Server.writesAll hok))
    · rw [step_serving hpc hserving]
      exact hok
    · rw [step_serving hpc hserving]
      exact hpc'
    · rw [step_serving hpc hserving]
      exact hrun
  · rw [step_serving hpc hserving]
    refine .failed ?_ hok (Or.inl hpc') (by rw [hrun]; simp)
    rcases hstate with hdone | ⟨hsame, _⟩
    · exact hdone
    · exact absurd (hsame.trans hcode) hok

theorem Course.fails (hs : p.server.state = .done) (hcode : p.server.exitCode ≠ exOk)
    (hpc : p.server.pc.Waiting ∨ ∃ code, code ≠ exOk ∧ p.server.pc = .returned code)
    (hexited : p.exited ≠ some exOk) : Course config p₀ ds (p.step config d).1 := by
  rcases hpc with (hfsm | ⟨ms, hsel⟩) | ⟨code, hne, hret⟩
  · rw [step_cleanup hfsm hs]
    have hbad : (p.server.cleanup config (p.env d)).exitCode ≠ exOk :=
      fun hok => hcode (Server.cleanup_ok hok).1
    exact .failed hs hbad (Or.inr ⟨_, hbad, rfl⟩) hexited
  · rw [step_serving (Or.inr ⟨ms, hsel⟩) (fun h => by simp [hsel] at h)]
    have hstuck : p.server.step config (p.env d) = (p.server, []) := by
      simp only [Server.step_select hsel, Server.resume, hs]
    rw [hstuck]
    exact .failed hs hcode (Or.inl (Or.inr ⟨ms, hsel⟩)) hexited
  · rw [step_returned hret]
    by_cases hended : p.exited.isSome = true
    · rw [if_pos hended]
      exact .failed hs hcode (Or.inr ⟨code, hne, hret⟩) hexited
    · rw [if_neg hended]
      exact .failed hs hcode (Or.inr ⟨code, hne, hret⟩) (fun h => hne (Option.some.inj h))

theorem Course.step (h : Course config p₀ ds p) (hp : p = after (step config) p₀ ds) :
    Course config p₀ (ds ++ [d]) (p.step config d).1 := by
  cases h with
  | serves hkept hcode hpc hrun =>
    by_cases hserving : p.server.pc = .fsm ∧ p.server.state = .done
    · exact hkept.cleanup hp hserving.1 hserving.2 hrun
    · exact hkept.serve hp hcode hpc hrun hserving
  | returned hkept hpc hrun hclosed => exact hkept.exit hp hpc hrun hclosed
  | failed hs hcode hpc hexited => exact .fails hs hcode hpc hexited
  | exited hcovered hpc hcode hwithin hall =>
    have hsame : ledger config p₀ (ds ++ [d]) = ledger config p₀ ds := by
      rw [ledger, logged_snoc, ← hp, commits_of_returned hpc, List.append_nil]
    have hstep : p.step config d = (p, []) := by
      rw [step_returned hpc, hcode]
      rfl
    rw [hstep]
    refine .exited (hcovered.quiet hsame) hpc hcode (by rw [hsame]; exact hwithin) ?_
    rw [hsame, hall, always_snoc, ← hp]
    refine (and_iff_left ?_).symm
    intro hloses
    exact absurd (hcode.symm.trans hloses.2.1) (by simp)

theorem course_after (config : AppConfig) (clientAddr : Addr) (startMs : UInt64)
    (ds : List (SinkEnv Addr)) : Course config (init clientAddr startMs) ds
      (after (ServerProcess.step config) (init clientAddr startMs) ds) := by
  apply run_invariant
  · exact .serves ⟨Or.inl rfl, always_nil _, rfl⟩ rfl (Or.inl rfl) rfl
  · intro pre d h
    exact h.step rfl

/-- Of the runs that end with `EX_OK`, those lose nothing in which the write-out of standard output
at the exit of the process, where it is used, is not cut short. -/
theorem nothing_lost_iff (config : AppConfig) (clientAddr : Addr) (startMs : UInt64)
    (ds : List (SinkEnv Addr))
    (hexit : (after (ServerProcess.step config) (init clientAddr startMs) ds).exited = some exOk) :
    NothingLost config (init clientAddr startMs) ds ↔
      Always (ServerProcess.step config) (fun p d => ¬ p.LosesAtExit config d)
        (init clientAddr startMs) ds := by
  have hcourse := course_after config clientAddr startMs ds
  cases hcourse with
  | serves _ _ _ hrun => exact absurd (hrun.symm.trans hexit) (by simp)
  | returned _ _ hrun _ => exact absurd (hrun.symm.trans hexit) (by simp)
  | failed _ _ _ hexited => exact absurd hexit hexited
  | exited hcovered hpc hcode hwithin hall =>
    rw [← hall]
    constructor
    · intro hlost
      apply hwithin.eq_of_length_le
      rcases hcovered with hnil | ⟨pre, d, post, hds, hacks, hsame⟩
      · rw [hnil]
        exact Nat.zero_le _
      · rw [← hsame]
        exact (hlost pre d post hds hacks).length_le
    · intro hwhole pre d post hds _
      rw [hwhole]
      apply payloads_prefix
      have hsplit : ds = pre ++ [d] ++ post := by rw [hds]; simp
      rw [hsplit]
      exact logged_prefix _ _ _

def chunkArrival : Env Nat := .arrival 1 (encode 1 1 1 flagData [65]) 1000

/-- A session with a single chunk, up to the exit of the process. -/
def singleChunk : List (Env Nat) :=
  [.calm Nat 1000, straySyn, .calm Nat 1000, .arrival 1 (encode 1 1 1 flagAck []) 1000,
    .calm Nat 1000, chunkArrival,
    .calm Nat 1000, .arrival 1 (encode 2 1 1 flagFin []) 1000,
    .calm Nat 1000, .arrival 1 (encode 3 1 1 flagAck []) 1000, .calm Nat 1000, .calm Nat 1000]

/-- Standard output keeps everything in its buffer until the process exits. -/
def buffering (exit : Option Nat) (e : Env Nat) : SinkEnv Nat := ⟨e, .drains 0, none, exit⟩

theorem nothing_lost_iff_single_chunk :
    (after (ServerProcess.step strayConfig) (init 0 1000)
      (singleChunk.map (buffering none))).file.accepted = [65] ∧
    NothingLost strayConfig (init 0 1000) (singleChunk.map (buffering none)) := by
  refine ⟨by decide +kernel, (nothing_lost_iff strayConfig 0 1000 _ (by decide +kernel)).mpr ?_⟩
  intro pre d post hds hloses
  have hd : d ∈ singleChunk.map (buffering none) := by
    rw [hds]
    simp
  obtain ⟨e, _, rfl⟩ := List.mem_map.mp hd
  obtain ⟨_, _, _, n, hn, _⟩ := hloses
  exact absurd hn (by simp [buffering])

/-- Standard output is full: the chunk is acknowledged, the exit code is `EX_OK`, and nothing has
been written. -/
theorem full_stdout_exits_ok :
    ¬ ∀ (config : AppConfig) (clientAddr : Nat) (startMs : UInt64) (ds : List (SinkEnv Nat)),
      (after (ServerProcess.step config) (init clientAddr startMs) ds).exited = some exOk →
      NothingLost config (init clientAddr startMs) ds := by
  intro hall
  have hlost := hall strayConfig 0 1000 (singleChunk.map (buffering (some 0))) (by decide +kernel)
  have hpc : (after (ServerProcess.step strayConfig) (init 0 1000)
      ((singleChunk.take 5).map (buffering (some 0)))).server.pc = .select 250 := by decide +kernel
  have hacks : Acknowledges strayConfig _ (buffering (some 0) chunkArrival) :=
    acknowledges_of_commits (Or.inr ⟨250, hpc⟩) (fun h => absurd (hpc.symm.trans h.1) (by simp))
      (Server.writesAll (by decide +kernel)) (by decide +kernel)
  have hprefix := hlost _ _ ((singleChunk.drop 6).map (buffering (some 0))) rfl hacks
  have hledger : payloads (ledger strayConfig (init 0 1000)
      ((singleChunk.take 5).map (buffering (some 0)) ++ [buffering (some 0) chunkArrival])) =
      [65] := by decide +kernel
  have hnone : (after (ServerProcess.step strayConfig) (init 0 1000)
      (singleChunk.map (buffering (some 0)))).file.accepted = [] := by decide +kernel
  rw [hledger, hnone] at hprefix
  exact absurd hprefix (by decide)

end Runs

end ServerProcess

end ReliableUdp
