import ReliableUdp.Endpoint.Deadline
import ReliableUdp.Endpoint.ExitStatus

namespace ReliableUdp

open Machine

variable {Addr : Type}

namespace Client

/-- The handlers that wait once and then return to the loop of `run_client`. -/
def WaitsOnce (c : Client Addr) : Prop :=
  c.state = .synSent ∨ c.state = .finWait ∨ c.state = .timeWait

/-- In `handle_established` behind its first line. -/
def InTransfer (c : Client Addr) : Prop := c.state = .established ∧ c.pc ≠ .fsm

/-- What holds of every client in a run. -/
structure Placed (c : Client Addr) : Prop where
  paced : ∃ input acks, Paced input acks c
  sound : c.Sound True
  opening : c.state = .closed → c.pc = .fsm

variable {config : AppConfig} {c : Client Addr} {e : Env Addr}

theorem receive_turns {handle : Client Addr → RDTHeader → Client Addr × List (Send Addr)}
    (hh : ∀ a h, (handle { c with serverAddr := a } h).1.pc = .fsm) :
    (c.receive e handle).1.pc = .fsm := by
  rw [Client.receive]
  cases (recvPacket e c.serverAddr).2 with
  | error code => rfl
  | ok received => exact hh _ _

/-- A handler that waits once returns behind its wait. -/
theorem resume_turns (h : c.WaitsOnce) : (c.resume config e).1.pc = .fsm := by
  rcases h with hs | hs | hs
  · rw [resume_synSent hs, synSentReady]
    dsimp only
    split_ifs
    · rfl
    · rfl
    · rfl
    · rfl
    · apply receive_turns
      intro a h
      rw [synSentPacket]
      dsimp only
      split_ifs <;> rfl
  · rw [resume_finWait hs, finWaitReady]
    split_ifs
    · rfl
    · rfl
    · rfl
    · apply receive_turns
      intro a h
      rw [finWaitPacket]
      dsimp only
      split_ifs <;> rfl
  · rw [resume_timeWait hs, timeWaitReady]
    split_ifs
    · rfl
    · rfl
    · rfl
    · apply receive_turns
      intro a h
      rw [timeWaitPacket]
      dsimp only
      split_ifs <;> rfl

theorem runClient_stopped (hs : c.state ≠ .done) (hstop : e.stopRequested = true) :
    c.runClient config e = (c.fail exSoftware, []) := by
  cases hst : c.state with
  | done => exact absurd hst hs
  | closed => rw [runClient_closed hst, if_pos hstop]
  | synSent => rw [runClient_synSent hst, if_pos hstop]
  | established => rw [runClient_established hst, if_pos hstop]
  | finWait => rw [runClient_finWait hst, if_pos hstop]
  | timeWait => rw [runClient_timeWait hst, if_pos hstop]

theorem Placed.init (serverAddr : Addr) (startMs : UInt64) (file : InputFile) :
    (Client.init serverAddr startMs file).Placed :=
  ⟨⟨file, 0, .init serverAddr startMs file⟩, .init serverAddr startMs file True, fun _ => rfl⟩

theorem Placed.step (h : c.Placed) (config : AppConfig) (e : Env Addr) :
    (c.step config e).1.Placed := by
  obtain ⟨input, acks, hp⟩ := h.paced
  refine ⟨⟨input, _, hp.next config e⟩, h.sound.step (fun _ => trivial) config e, ?_⟩
  intro hclosed
  exact absurd hclosed (step_ne_closed hp h.opening)

/-- At the top of the loop, or in a wait behind which the loop goes on. -/
def Yields (c : Client Addr) : Prop := c.pc = .fsm ∨ ∃ ms, c.pc = .select ms ∧ c.WaitsOnce

/-- How many activations the client has left once it has to stop. -/
def turnsLeft (c : Client Addr) : Nat :=
  if c.pc = .fsm then if c.state = .done then 1 else 2 else 3

theorem turnsLeft_turn (h : c.pc = .fsm) : c.turnsLeft = if c.state = .done then 1 else 2 :=
  if_pos h

theorem turnsLeft_le (c : Client Addr) : c.turnsLeft ≤ 3 := by
  rw [turnsLeft]
  split_ifs <;> omega

theorem Placed.yields (h : c.Placed) (hcode : c.pc.code = none) : c.Yields ∨ c.InTransfer := by
  obtain ⟨input, acks, hp⟩ := h.paced
  cases hpc : c.pc with
  | fsm => exact Or.inl (Or.inl hpc)
  | returned code =>
    rw [hpc] at hcode
    exact absurd hcode (by simp [ClientPc.code])
  | transfer =>
    right
    refine ⟨?_, by simp [hpc]⟩
    cases hp with
    | opening _ hne => exact absurd hpc hne
    | running hs => exact hs
    | behind _ hne => exact absurd hpc hne
  | select ms =>
    have hwait : c.pc ≠ .fsm := by simp [hpc]
    cases hs : c.state with
    | closed => exact absurd (h.opening hs) hwait
    | established => exact Or.inr ⟨hs, hwait⟩
    | synSent => exact Or.inl (Or.inr ⟨ms, hpc, Or.inl hs⟩)
    | finWait => exact Or.inl (Or.inr ⟨ms, hpc, Or.inr (Or.inl hs)⟩)
    | timeWait => exact Or.inl (Or.inr ⟨ms, hpc, Or.inr (Or.inr hs)⟩)
    | done =>
      rcases h.sound with hruns | hexited
      · exact absurd hs hruns.state
      · rcases hexited.pc with hfsm | hret
        · exact absurd hfsm hwait
        · exact absurd (hpc.symm.trans hret) (by simp)

/-- With a stop request the client returns, or comes closer to that. -/
theorem Yields.step (h : c.Yields) (config : AppConfig) (hstop : e.stopRequested = true) :
    (∃ code, (c.step config e).1.pc = .returned code) ∨
      (c.step config e).1.pc = .fsm ∧ (c.step config e).1.turnsLeft ≤ c.turnsLeft - 1 := by
  rcases h with hpc | ⟨ms, hpc, hwaits⟩
  · rw [step_fsm hpc]
    by_cases hs : c.state = .done
    · rw [runClient_done hs]
      exact Or.inl ⟨_, rfl⟩
    · right
      rw [runClient_stopped hs hstop, turnsLeft_turn hpc, if_neg hs]
      exact ⟨rfl, Nat.le_refl _⟩
  · right
    have hturn : (c.step config e).1.pc = .fsm := by
      rw [step_select hpc]
      exact resume_turns hwaits
    refine ⟨hturn, ?_⟩
    have hleft : c.turnsLeft = 3 := if_neg (by simp [hpc])
    rw [turnsLeft_turn hturn, hleft]
    split_ifs <;> decide

end Client

namespace Server

variable {config : AppConfig} {s : Server Addr} {e : Env Addr}

/-- What holds of every server that has not returned. -/
def Placed (s : Server Addr) : Prop := s.Going ∨ s.state = .done ∧ s.pc = .fsm

/-- How many activations the server has left once it has to stop. -/
def turnsLeft (s : Server Addr) : Nat :=
  if s.pc = .fsm then if s.state = .done then 1 else 2 else 3

theorem turnsLeft_turn (h : s.pc = .fsm) : s.turnsLeft = if s.state = .done then 1 else 2 :=
  if_pos h

theorem Placed.step (h : s.Placed) (config : AppConfig) (e : Env Addr) :
    (∃ code, (s.step config e).1.pc = .returned code) ∨ (s.step config e).1.Placed := by
  rcases h with hgoing | ⟨hs, hpc⟩
  · right
    have hstep : s.Explained config e (s.step config e) :=
      step_explained hgoing.state hgoing.pc hgoing.exit
    cases hstep with
    | running state pc exit => exact Or.inl ⟨state, pc, exit.trans hgoing.exit⟩
    | ended state pc _ => exact Or.inr ⟨state, pc⟩
  · rw [step_fsm hpc, runServer_done hs]
    exact Or.inl ⟨_, rfl⟩

theorem Placed.code (h : s.Placed) : s.pc.code = none := by
  rcases h with hgoing | ⟨_, hpc⟩
  · rcases hgoing.pc with hpc | ⟨ms, hpc⟩ <;> rw [hpc, ServerPc.code] <;> simp
  · rw [hpc, ServerPc.code]
    simp

/-- A handler returns behind its wait. -/
theorem Placed.turns (h : s.Placed) {ms : Nat} (hpc : s.pc = .select ms) :
    (s.step config e).1.pc = .fsm := by
  rcases h with hgoing | ⟨_, hfsm⟩
  · have hstep : s.Explained config e (s.step config e) :=
      step_explained hgoing.state hgoing.pc hgoing.exit
    have htimes : s.Times config e (s.step config e).1 := step_timed hgoing.pc
    cases hstep with
    | ended _ hturn _ => exact hturn
    | running hs _ _ =>
      cases htimes with
      | ends hd => exact absurd hd hs
      | checks hfsm => exact absurd (hpc.symm.trans hfsm) (by simp)
      | wakes _ _ hturn => exact hturn
  · exact absurd (hpc.symm.trans hfsm) (by simp)

/-- With a stop request the server returns, or comes closer to that. -/
theorem Placed.stops (h : s.Placed) (config : AppConfig) (hstop : e.stopRequested = true) :
    (∃ code, (s.step config e).1.pc = .returned code) ∨
      (s.step config e).1.Placed ∧ (s.step config e).1.turnsLeft ≤ s.turnsLeft - 1 := by
  rcases h.step config e with hret | hnext
  · exact Or.inl hret
  right
  refine ⟨hnext, ?_⟩
  cases hpc : s.pc with
  | returned code =>
    rcases h with hgoing | ⟨_, hfsm⟩
    · exact absurd hgoing.pc (by simp [hpc, ServerPc.Waiting])
    · exact absurd (hpc.symm.trans hfsm) (by simp)
  | fsm =>
    by_cases hs : s.state = .done
    · rw [step_fsm hpc, runServer_done hs] at hnext
      rcases hnext with hgoing | ⟨_, hfsm⟩
      · exact absurd hs hgoing.state
      · exact absurd hfsm (by simp [cleanup])
    · rw [step_fsm hpc, runServer_running hs, if_pos hstop, turnsLeft_turn hpc, if_neg hs]
      exact Nat.le_refl _
  | select ms =>
    have hleft : s.turnsLeft = 3 := if_neg (by simp [hpc])
    rw [turnsLeft_turn (h.turns hpc), hleft]
    split_ifs <;> decide

end Server

namespace Process

/-- What holds of the program in every run. -/
def Placed : Process Addr → Prop
  | .client _ _ _ c => c.Placed ∧ c.pc.code = none
  | .server _ _ _ s => s.Placed
  | .exited _ => True

/-- A client in its transfer loop, which does not look at the flag. -/
def InTransfer : Process Addr → Prop
  | .client _ _ _ c => c.InTransfer
  | _ => False

def Yields : Process Addr → Prop
  | .client _ _ _ c => c.Yields
  | .server _ _ _ s => s.Placed
  | .exited _ => True

def turnsLeft : Process Addr → Nat
  | .client _ _ _ c => c.turnsLeft
  | .server _ _ _ s => s.turnsLeft
  | .exited _ => 0

theorem Placed.exitWith {code : Option Int} {running : Process Addr}
    (h : code = none → running.Placed) : (Process.exitWith code running).Placed := by
  cases code with
  | none => exact h rfl
  | some code => trivial

theorem Placed.step {p : Process Addr} (h : p.Placed) (e : Env Addr) : (p.step e).1.Placed := by
  cases p with
  | exited code => trivial
  | client config fd opened c =>
    exact .exitWith (fun hcode => ⟨h.1.step config.toAppConfig e, hcode⟩)
  | server config fd opened s =>
    have hs : s.Placed := h
    rcases hs.step config.toAppConfig e with ⟨code, hret⟩ | hnext
    · rw [Process.step, hret]
      trivial
    · exact .exitWith (fun _ => hnext)

theorem enterMain_placed (argv : List CString) (a : Startup Addr) :
    (enterMain argv a).1.Placed := by
  rw [enterMain]
  split_ifs
  · trivial
  · cases parseArguments argv with
    | error code => trivial
    | ok config =>
      dsimp only
      split_ifs
      · rw [enterServer]
        cases setupServerSocket config a with
        | mk result ops =>
          cases result with
          | error code => trivial
          | ok fd =>
            dsimp only
            cases getFileStream a config.outputFile "wb" with
            | none => trivial
            | some opened => exact Or.inl ⟨by simp [Server.init], Or.inl rfl, rfl⟩
      · rw [enterClient]
        cases setupClientSocket config a with
        | mk result ops =>
          cases result with
          | error code => trivial
          | ok r =>
            dsimp only
            cases getFileStream a config.inputFile "rb" with
            | none => trivial
            | some opened => exact ⟨.init _ _ _, rfl⟩
      · trivial

theorem Placed.yields {p : Process Addr} (h : p.Placed) : p.Yields ∨ p.InTransfer := by
  cases p with
  | client config fd opened c => exact h.1.yields h.2
  | server config fd opened s => exact Or.inl h
  | exited code => exact Or.inl trivial

theorem turnsLeft_le (p : Process Addr) : p.turnsLeft ≤ 3 := by
  cases p with
  | client _ _ _ c => exact c.turnsLeft_le
  | server _ _ _ s =>
    change s.turnsLeft ≤ 3
    rw [Server.turnsLeft]
    split_ifs <;> omega
  | exited code => exact Nat.zero_le 3

/-- Only a program that has ended has no activation left. -/
theorem exited_of_turnsLeft {p : Process Addr} (h : p.turnsLeft ≤ 0) :
    ∃ code, p = .exited code := by
  cases p with
  | client _ _ _ c =>
    change c.turnsLeft ≤ 0 at h
    rw [Client.turnsLeft] at h
    split_ifs at h <;> omega
  | server _ _ _ s =>
    change s.turnsLeft ≤ 0 at h
    rw [Server.turnsLeft] at h
    split_ifs at h <;> omega
  | exited code => exact ⟨code, rfl⟩

theorem Yields.step {p : Process Addr} (h : p.Yields) {e : Env Addr}
    (hstop : e.stopRequested = true) :
    (p.step e).1.Yields ∧ (p.step e).1.turnsLeft ≤ p.turnsLeft - 1 := by
  cases p with
  | exited code => exact ⟨trivial, Nat.le_refl 0⟩
  | client config fd opened c =>
    have hc : c.Yields := h
    rcases hc.step config.toAppConfig hstop with ⟨code, hret⟩ | ⟨hturn, hless⟩
    · rw [Process.step, hret]
      exact ⟨trivial, Nat.zero_le _⟩
    · rw [Process.step, hturn]
      exact ⟨Or.inl hturn, hless⟩
  | server config fd opened s =>
    have hs : s.Placed := h
    rcases hs.stops config.toAppConfig hstop with ⟨code, hret⟩ | ⟨hnext, hless⟩
    · rw [Process.step, hret]
      exact ⟨trivial, Nat.zero_le _⟩
    · rw [Process.step, hnext.code]
      exact ⟨hnext, hless⟩

end Process

/-- Once a stop has been requested the program ends within three activations, whatever the command
line is and however far it has come, unless it is a client in its transfer loop. -/
theorem stop_ends_program (argv : List CString) (a : Startup Addr) (es stops : List (Env Addr))
    (hstop : ∀ e ∈ stops, e.stopRequested = true) (hlen : 3 ≤ stops.length) :
    (∃ code, process argv a (es ++ stops) = .exited code) ∨ (process argv a es).InTransfer := by
  have hplaced : (process argv a es).Placed :=
    after_invariant (fun p e hp => hp.step e) (Process.enterMain_placed argv a) es
  refine hplaced.yields.imp (fun hyields => ?_) id
  have hall : Always Process.step (fun _ e => e.stopRequested = true) (process argv a es)
      stops := by
    intro pre e post hes
    apply hstop
    rw [hes]
    simp
  have hleft : (process argv a (es ++ stops)).turnsLeft ≤
      (process argv a es).turnsLeft - stops.length := by
    rw [process, after_append]
    exact hall.runs_out Process.turnsLeft (fun p e hp hstop => hp.step hstop) hyields
  apply Process.exited_of_turnsLeft
  have hthree := (process argv a es).turnsLeft_le
  omega

/-- A server waits for its client when it has to stop. -/
theorem stop_ends_program_listening :
    ∃ code, process ["rdt".toList, "-s".toList, "-p".toList, "7".toList] .online
      ([.calm Nat 1000] ++ List.replicate 3 { Env.calm Nat 1000 with stopRequested := true }) =
        .exited code := by
  have hstop : ∀ e ∈ List.replicate 3 { Env.calm Nat 1000 with stopRequested := true },
      e.stopRequested = true := by
    intro e he
    rw [List.eq_of_mem_replicate he]
  exact (stop_ends_program _ _ [.calm Nat 1000] _ hstop (Nat.le_refl 3)).resolve_right id

end ReliableUdp
