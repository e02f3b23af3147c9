import ReliableUdp.Endpoint.ClientWatchdog

namespace ReliableUdp

open Machine

variable {Addr : Type}

/-- A client at a time, in milliseconds. -/
structure TimedClient (Addr : Type) where
  client : Client Addr
  nowMs : Nat

/-- An activation that ends `elapsedMs` behind the one before. -/
structure TimedEnv (Addr : Type) where
  env : Env Addr
  elapsedMs : Nat

/-- How long the process waits in `select` at most. -/
def ClientPc.waitMs : ClientPc → Nat
  | .select ms => ms
  | _ => 0

namespace TimedClient

/-- `Client.step` with its time. -/
def step (config : AppConfig) (s : TimedClient Addr) (x : TimedEnv Addr) :
    TimedClient Addr × List (Send Addr) :=
  let next := s.client.step config x.env
  (⟨next.1, s.nowMs + x.elapsedMs⟩, next.2)

/-- `select` reports a timeout when its time is over and anything else before; all that comes
between two waits takes no time. -/
def Timely (s : TimedClient Addr) (x : TimedEnv Addr) : Prop :=
  x.elapsedMs ≤ s.client.pc.waitMs ∧
    (x.env.selectResult = 0 → x.elapsedMs = s.client.pc.waitMs)

instance (s : TimedClient Addr) (x : TimedEnv Addr) : Decidable (s.Timely x) :=
  inferInstanceAs (Decidable (_ ∧ _))

/-- In TIME_WAIT a datagram is read that is no FIN+ACK of the session. -/
def Strays (s : TimedClient Addr) (x : TimedEnv Addr) : Prop :=
  s.client.state = .timeWait ∧ s.client.receives x.env = true ∧
    ∀ h, s.client.taken x.env = some h → ¬ s.client.TakesFinAckAgain h

/-- In TIME_WAIT no FIN+ACK of the session is read. -/
def NoFinAck (s : TimedClient Addr) (x : TimedEnv Addr) : Prop :=
  s.client.state = .timeWait → ∀ h, s.client.taken x.env = some h →
    ¬ s.client.TakesFinAckAgain h

/-- A stray datagram is read by `deadlineMs` at the latest. -/
def StraysBy (deadlineMs : Nat) (s : TimedClient Addr) (x : TimedEnv Addr) : Prop :=
  s.Strays x → s.nowMs + x.elapsedMs ≤ deadlineMs

/-- An activation that finds the client in TIME_WAIT ends by `deadlineMs`. -/
def WaitsUntil (deadlineMs : Nat) (s : TimedClient Addr) (x : TimedEnv Addr) : Prop :=
  s.client.state = .timeWait → s.nowMs + x.elapsedMs ≤ deadlineMs

/-- The wait in TIME_WAIT runs out in the last activation. -/
def RunsOut (config : AppConfig) (s : TimedClient Addr) (xs : List (TimedEnv Addr)) : Prop :=
  ∃ pre x, xs = pre ++ [x] ∧ (after (step config) s pre).client.state = .timeWait ∧
    (∃ ms, (after (step config) s pre).client.pc = .select ms) ∧ x.env.selectResult = 0

/-- In TIME_WAIT the client is at the top of its loop or in a full wait; it only ever ends. -/
structure Lingers (c : Client Addr) : Prop where
  state : c.state = .timeWait ∨ c.state = .done
  pc : c.pc ≠ .transfer
  wait : c.state = .timeWait → c.pc = .fsm ∨ c.pc = .select timeWaitDurationMs

section Lingering

variable {config : AppConfig} {c : Client Addr} {e : Env Addr}

open Client

theorem eq_done_of_rank {state : ClientState} (h : ClientState.done.rank ≤ state.rank) :
    state = .done := by
  cases state with
  | done => rfl
  | _ => exact absurd h (by decide)

theorem Lingers.done {c' : Client Addr} (hs : c'.state = .done) (hpc : c'.pc ≠ .transfer) :
    Lingers c' :=
  ⟨Or.inr hs, hpc, fun h => absurd (hs.symm.trans h) (by decide)⟩

theorem Lingers.again {c' : Client Addr} (hs : c'.state = .timeWait) (hpc : c'.pc = .fsm) :
    Lingers c' :=
  ⟨Or.inl hs, by rw [hpc]; simp, fun _ => Or.inl hpc⟩

/-- The client goes on lingering; a wait that is over keeps it in TIME_WAIT only when a datagram
was read. -/
theorem Lingers.next (h : Lingers c) (config : AppConfig) (e : Env Addr) :
    Lingers (c.step config e).1 ∧
      ((c.step config e).1.state = .timeWait →
        c.state = .timeWait ∧ (c.pc = .fsm ∨ c.receives e = true)) := by
  rcases h.state with hs | hs
  · rcases h.wait hs with hpc | hpc
    · refine ⟨?_, fun _ => ⟨hs, Or.inl hpc⟩⟩
      rw [step_fsm hpc, runClient_timeWait hs]
      split_ifs
      · exact .done rfl (by simp [Client.fail])
      · exact ⟨Or.inl hs, by simp, fun _ => Or.inr rfl⟩
    · have hr : c.receives e = decide (e.selectResult > 0) := by simp only [receives, hpc, hs]
      rw [step_select hpc, resume_timeWait hs, timeWaitReady]
      split_ifs with h0 hneg hstop
      · exact ⟨.done rfl (by simp [Client.goto]), fun hn => absurd hn (by simp [Client.goto])⟩
      · exact ⟨.done rfl (by simp [Client.fail]), fun hn => absurd hn (by simp [Client.fail])⟩
      · exact ⟨.done rfl (by simp [Client.fail]), fun hn => absurd hn (by simp [Client.fail])⟩
      · have hpos := decide_eq_true (pos_of_waitForPacket h0 hneg)
        refine ⟨?_, fun _ => ⟨hs, Or.inr (hr.trans hpos)⟩⟩
        rw [receive]
        cases (recvPacket e c.serverAddr).2 with
        | error code => exact .again hs rfl
        | ok received =>
          dsimp only
          rw [timeWaitPacket]
          dsimp only
          split_ifs
          · exact .again rfl rfl
          · exact .done rfl (by simp [Client.fail])
          · exact .again rfl rfl
  · have hn : c.Onward (c.step config e) := step_onward (by rw [hs]; decide) h.pc
    have hrank := hn.rank
    rw [hs] at hrank
    have hd := eq_done_of_rank hrank
    exact ⟨.done hd hn.pc, fun hw => absurd (hd.symm.trans hw) (by decide)⟩

end Lingering

section Waits

variable {config : AppConfig} {s : TimedClient Addr} {x : TimedEnv Addr} {startMs : Nat}

/-- Every wait has begun within `TIME_WAIT_DURATION_MS`. -/
structure Bounded (startMs : Nat) (s : TimedClient Addr) : Prop where
  lingers : Lingers s.client
  begun : s.client.state = .timeWait → s.nowMs ≤ startMs + timeWaitDurationMs

theorem Bounded.next (h : Bounded startMs s) (ht : s.Timely x) (hno : s.NoFinAck x)
    (hstray : s.StraysBy (startMs + timeWaitDurationMs) x) :
    Bounded startMs (s.step config x).1 := by
  obtain ⟨hl, hcause⟩ := h.lingers.next config x.env
  refine ⟨hl, ?_⟩
  intro hn
  obtain ⟨hs, hwhy⟩ := hcause hn
  change s.nowMs + x.elapsedMs ≤ _
  rcases hwhy with hpc | hr
  · have h0 : x.elapsedMs ≤ 0 := by
      have hle := ht.1
      rw [hpc] at hle
      exact hle
    rw [Nat.le_zero.mp h0]
    exact h.begun hs
  · exact hstray ⟨hs, hr, hno hs⟩

theorem Bounded.waits (h : Bounded startMs s) (ht : s.Timely x) :
    s.WaitsUntil (startMs + 2 * timeWaitDurationMs) x := by
  intro hs
  have hbegun := h.begun hs
  have hle : x.elapsedMs ≤ timeWaitDurationMs := by
    refine ht.1.trans ?_
    rcases h.lingers.wait hs with hpc | hpc
    · rw [hpc]
      exact Nat.zero_le _
    · rw [hpc]
      exact Nat.le_refl _
  omega

theorem lingers_after (config : AppConfig) (h : Lingers s.client) (xs : List (TimedEnv Addr)) :
    Lingers (after (step config) s xs).client :=
  after_invariant (P := fun s : TimedClient Addr => Lingers s.client)
    (fun _ x hs => (hs.next config x.env).1) h xs

theorem nowMs_le_after (config : AppConfig) (s : TimedClient Addr) (xs : List (TimedEnv Addr)) :
    s.nowMs ≤ (after (step config) s xs).nowMs := by
  induction xs generalizing s with
  | nil => exact Nat.le_refl _
  | cons x xs ih => exact (Nat.le_add_right _ _).trans (ih (s.step config x).1)

end Waits

section Runs

variable {config : AppConfig} {s : TimedClient Addr} {xs : List (TimedEnv Addr)} {startMs : Nat}

theorem waits_of_early_strays (hl : Lingers s.client) (hnow : s.nowMs = startMs)
    (ht : Always (step config) Timely s xs) (hno : Always (step config) NoFinAck s xs)
    (hstray : Always (step config) (StraysBy (startMs + timeWaitDurationMs)) s xs) :
    Always (step config) (WaitsUntil (startMs + 2 * timeWaitDurationMs)) s xs := by
  intro pre x post hxs
  have hall : Always (step config)
      (fun s x => s.Timely x ∧ s.NoFinAck x ∧ s.StraysBy (startMs + timeWaitDurationMs) x) s xs :=
    fun pre x post h => ⟨ht pre x post h, hno pre x post h, hstray pre x post h⟩
  have hbounded : Bounded startMs (after (step config) s pre) := by
    rw [hxs] at hall
    refine Always.invariant (I := Bounded startMs) ?_ ⟨hl, fun _ => ?_⟩ hall.left
    · intro s x hs h
      exact hs.next h.1 h.2.1 h.2.2
    · rw [hnow]
      exact Nat.le_add_right _ _
  exact hbounded.waits (ht pre x post hxs)

/-- The last wait takes its full time, so it must have begun early; all strays came before. -/
theorem early_strays_of_waits (hl : Lingers s.client) (ht : Always (step config) Timely s xs)
    (hout : RunsOut config s xs)
    (hwait : Always (step config) (WaitsUntil (startMs + 2 * timeWaitDurationMs)) s xs) :
    Always (step config) (StraysBy (startMs + timeWaitDurationMs)) s xs := by
  obtain ⟨most, last, rfl, hst, ⟨ms, hpc⟩, h0⟩ := hout
  have hbegun : (after (step config) s most).nowMs ≤ startMs + timeWaitDurationMs := by
    have hend := hwait most last [] rfl hst
    have htime := ht most last [] rfl
    rcases (lingers_after config hl most).wait hst with hp | hp
    · exact absurd (hpc.symm.trans hp) (by simp)
    · have hfull := htime.2 h0
      rw [hp] at hfull
      change last.elapsedMs = timeWaitDurationMs at hfull
      omega
  intro pre x post hxs hs
  rcases split_snoc hxs with ⟨rfl, rfl⟩ | ⟨post', rfl⟩
  · have hr := hs.2.1
    rw [Client.receives, hpc, hst] at hr
    have hpos := of_decide_eq_true hr
    omega
  · have hle := nowMs_le_after config
      ((after (step config) s pre).step config x).1 post'
    rw [after_append] at hbegun
    exact hle.trans hbegun

/-- The client leaves TIME_WAIT in time when no stray datagram is read later than
`TIME_WAIT_DURATION_MS` behind the entry, and if its last wait runs out only then. -/
theorem time_wait_bounded_iff (config : AppConfig) (c : Client Addr) (startMs : Nat)
    (xs : List (TimedEnv Addr)) (hs : c.state = .timeWait) (hpc : c.pc = .fsm)
    (ht : Always (step config) Timely ⟨c, startMs⟩ xs)
    (hno : Always (step config) NoFinAck ⟨c, startMs⟩ xs) :
    (Always (step config) (StraysBy (startMs + timeWaitDurationMs)) ⟨c, startMs⟩ xs →
      Always (step config) (WaitsUntil (startMs + 2 * timeWaitDurationMs)) ⟨c, startMs⟩ xs) ∧
    (RunsOut config ⟨c, startMs⟩ xs →
      (Always (step config) (WaitsUntil (startMs + 2 * timeWaitDurationMs)) ⟨c, startMs⟩ xs ↔
        Always (step config) (StraysBy (startMs + timeWaitDurationMs)) ⟨c, startMs⟩ xs)) := by
  have hl : Lingers c := .again hs hpc
  have hearly : Always (step config) (StraysBy (startMs + timeWaitDurationMs)) ⟨c, startMs⟩ xs →
      Always (step config) (WaitsUntil (startMs + 2 * timeWaitDurationMs)) ⟨c, startMs⟩ xs :=
    waits_of_early_strays (s := ⟨c, startMs⟩) hl rfl ht hno
  exact ⟨hearly, fun hout => ⟨early_strays_of_waits hl ht hout, hearly⟩⟩

end Runs

theorem noFinAck_of_unread {s : TimedClient Addr} {x : TimedEnv Addr}
    (h : ∀ addr, (recvPacket x.env addr).2.toOption = none) : s.NoFinAck x := by
  intro _ hd ht
  rw [Client.taken] at ht
  split_ifs at ht
  rw [h] at ht
  exact absurd ht (by simp)

/-- A client that has just taken the FIN+ACK. -/
def lingeringClient : Client Nat :=
  after (Client.step strayConfig) strayClient
    [straySynAck, .calm Nat 1000, .calm Nat 1000, .calm Nat 1000,
      .arrival 1 (encode 7 2 42 (flagFin ||| flagAck) []) 1000]

/-- A wait of `elapsedMs` that an empty datagram from address 9 ends. -/
def strayWait (elapsedMs : Nat) : List (TimedEnv Nat) :=
  [⟨.calm Nat 1000, 0⟩, ⟨.arrival 9 [] 1000, elapsedMs⟩]

/-- One stray datagram after four seconds, then silence. -/
def oneStray : List (TimedEnv Nat) :=
  strayWait 4000 ++ [⟨.calm Nat 1000, 0⟩, ⟨.calm Nat 1000, 5000⟩]

theorem time_wait_bounded_iff_one_stray :
    Always (step strayConfig) (WaitsUntil (0 + 2 * timeWaitDurationMs)) ⟨lingeringClient, 0⟩
      oneStray := by
  refine (time_wait_bounded_iff strayConfig lingeringClient 0 oneStray (by decide +kernel)
    (by decide +kernel) ?_ ?_).1 ?_
  · rw [oneStray, strayWait, List.cons_append, List.cons_append, List.nil_append, always_cons,
      always_cons, always_cons, always_cons]
    exact ⟨by decide +kernel, by decide +kernel, by decide +kernel, by decide +kernel,
      always_nil _⟩
  · rw [oneStray, strayWait, List.cons_append, List.cons_append, List.nil_append, always_cons,
      always_cons, always_cons, always_cons]
    exact ⟨noFinAck_of_unread (fun _ => rfl), noFinAck_of_unread (fun _ => rfl),
      noFinAck_of_unread (fun _ => rfl), noFinAck_of_unread (fun _ => rfl), always_nil _⟩
  · rw [oneStray, strayWait, List.cons_append, List.cons_append, List.nil_append, always_cons,
      always_cons, always_cons, always_cons]
    exact ⟨fun _ => by decide +kernel, fun _ => by decide +kernel, fun _ => by decide +kernel,
      fun h => absurd h.2.1 (by decide +kernel), always_nil _⟩

/-- A stray datagram every four seconds. -/
def strayStorm : List (TimedEnv Nat) := strayWait 4000 ++ (strayWait 4000 ++ strayWait 4000)

/-- Twelve seconds after the entry the client is still in TIME_WAIT. -/
theorem strays_extend_time_wait :
    ¬ ∀ (config : AppConfig) (c : Client Nat) (startMs : Nat) (xs : List (TimedEnv Nat)),
      c.state = .timeWait → c.pc = .fsm →
      Always (step config) Timely ⟨c, startMs⟩ xs →
      Always (step config) NoFinAck ⟨c, startMs⟩ xs →
      Always (step config) (WaitsUntil (startMs + 2 * timeWaitDurationMs)) ⟨c, startMs⟩ xs := by
  intro hall
  have hwait := hall strayConfig lingeringClient 0 strayStorm (by decide +kernel)
    (by decide +kernel) ?_ ?_
  · have hlate := hwait (strayWait 4000 ++ (strayWait 4000 ++ [⟨.calm Nat 1000, 0⟩]))
      ⟨.arrival 9 [] 1000, 4000⟩ [] rfl (by decide +kernel)
    exact absurd hlate (by decide +kernel)
  · simp only [strayStorm, strayWait, List.cons_append, List.nil_append, always_cons]
    exact ⟨by decide +kernel, by decide +kernel, by decide +kernel, by decide +kernel,
      by decide +kernel, by decide +kernel, always_nil _⟩
  · simp only [strayStorm, strayWait, List.cons_append, List.nil_append, always_cons]
    exact ⟨noFinAck_of_unread (fun _ => rfl), noFinAck_of_unread (fun _ => rfl),
      noFinAck_of_unread (fun _ => rfl), noFinAck_of_unread (fun _ => rfl),
      noFinAck_of_unread (fun _ => rfl), noFinAck_of_unread (fun _ => rfl), always_nil _⟩

end TimedClient

end ReliableUdp
