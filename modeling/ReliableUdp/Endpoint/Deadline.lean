import ReliableUdp.Endpoint.ExitCode
import ReliableUdp.Endpoint.TimeWait
import ReliableUdp.Framework.Watchdog

namespace ReliableUdp

open Machine

variable {Addr : Type}

/-- The timeout in milliseconds. -/
def AppConfig.timeoutMs (config : AppConfig) : Nat := config.timeout.toInt.toNat * 1000

/-- A watchdog that has not expired was fed less than its timeout ago. -/
theorem early_of_not_reached {lastProgressMs nowMs : UInt64} {config : AppConfig}
    (htimeout : 0 < config.timeout.toInt) (hlast : 0 < lastProgressMs.toNat)
    (hle : lastProgressMs.toNat ≤ nowMs.toNat)
    (h : progressTimeoutReached lastProgressMs config.timeout nowMs = false) :
    nowMs.toNat < lastProgressMs.toNat + config.timeoutMs := by
  have hlt : config.timeout.toInt < 2 ^ 31 := config.timeout.toInt_lt
  have hms : (UInt64.ofNat config.timeout.toInt.toNat * 1000).toNat = config.timeoutMs := by
    rw [UInt64.toNat_mul, UInt64.toNat_ofNat', show (1000 : UInt64).toNat = 1000 from rfl,
      AppConfig.timeoutMs]
    omega
  have hfed : ¬ (lastProgressMs = 0 ∨ config.timeout ≤ 0) := by
    rw [not_or, Int32.le_iff_toInt_le, show (0 : Int32).toInt = 0 from rfl]
    refine ⟨?_, by omega⟩
    intro hzero
    rw [hzero] at hlast
    exact absurd hlast (by decide)
  have hread : nowMs ≠ 0 := by
    intro hzero
    rw [hzero] at hle
    have hz : (0 : UInt64).toNat = 0 := rfl
    omega
  rw [progressTimeoutReached, if_neg hfed, if_neg hread, decide_eq_false_iff_not, ge_iff_le,
    UInt64.le_iff_toNat_le, hms, UInt64.toNat_sub_of_le _ _ (UInt64.le_iff_toNat_le.mpr hle)] at h
  omega

namespace Client

variable {config : AppConfig} {c : Client Addr} {e : Env Addr} {x : Transfer}

/-- How an activation of the client uses its time, unless the client is in TIME_WAIT or ended
behind it. -/
inductive Times (config : AppConfig) (c : Client Addr) (e : Env Addr) (next : Client Addr) :
    Prop where
  | ends (h : 4 ≤ next.state.rank)
  | opens (state : c.state = .closed) (pc : c.pc = .fsm) (next : next.pc = .fsm)
  | checks (pc : c.pc = .fsm ∨ c.pc = .transfer) (early : c.expired config e = false)
      (wait : next.pc.waitMs ≤ retransmitIntervalMs)
  | leaves (pc : c.pc = .transfer) (next : next.pc = .fsm)
  | wakes (ms : Nat) (pc : c.pc = .select ms) (next : next.pc = .fsm ∨ next.pc = .transfer)

theorem Times.fail {c' : Client Addr} {code : Int} : c.Times config e (c'.fail code) :=
  .ends (by decide : 4 ≤ ClientState.done.rank)

theorem transferTimer_wait : (c.transferTimer x e).1.pc.waitMs ≤ retransmitIntervalMs := by
  rw [transferTimer]
  by_cases hempty : x.gbn.base = x.gbn.nextseqnum
  · rw [if_pos hempty]
    exact (by decide : 10 ≤ retransmitIntervalMs)
  · rw [if_neg hempty]
    generalize (if x.gbn.windowTimerMs = 0 then e.nowMs else x.gbn.windowTimerMs) = timer
    by_cases hlate : e.nowMs - timer ≥ UInt64.ofNat retransmitIntervalMs
    · simp only [if_pos hlate]
      exact Nat.zero_le _
    · have hmin (n : Nat) : (if retransmitIntervalMs - n < 1 then 1 else retransmitIntervalMs - n) ≤
          retransmitIntervalMs := by
        have hpos : 1 ≤ retransmitIntervalMs := by decide
        split_ifs
        · exact hpos
        · exact Nat.sub_le _ _
      simp only [if_neg hlate]
      exact hmin _

theorem transferWait_wait : (c.transferWait x e).1.pc.waitMs ≤ retransmitIntervalMs := by
  rw [transferWait]
  split_ifs
  · exact Nat.zero_le _
  · exact transferTimer_wait

theorem runClient_times (hpc : c.pc = .fsm) (hs : c.state.rank ≤ 3) :
    c.Times config e (c.runClient config e).1 := by
  cases hst : c.state with
  | timeWait => exact absurd hs (by rw [hst]; decide)
  | done => exact absurd hs (by rw [hst]; decide)
  | closed =>
    rw [runClient_closed hst, handleClosed]
    split_ifs
    · exact .fail
    · exact .opens hst hpc rfl
    · exact .fail
  | synSent =>
    rw [runClient_synSent hst, handleSynSent]
    split_ifs with _ hexp
    · exact .fail
    · exact .fail
    · exact .checks (Or.inl hpc) (Bool.eq_false_iff.mpr hexp) (Nat.le_refl _)
  | established =>
    rw [runClient_established hst, handleEstablished]
    split_ifs with _ hexp
    · exact .fail
    · exact .fail
    · exact .checks (Or.inl hpc) (Bool.eq_false_iff.mpr hexp) (Nat.zero_le _)
  | finWait =>
    rw [runClient_finWait hst, handleFinWait]
    dsimp only
    split_ifs with _ hexp
    · exact .fail
    · exact .fail
    · exact .checks (Or.inl hpc) (Bool.eq_false_iff.mpr hexp) (Nat.le_refl _)
    · exact .fail

theorem transferRound_times (hpc : c.pc = .transfer) :
    c.Times config e (c.transferRound config x e).1 := by
  rw [transferRound]
  by_cases hloop : x.eofReached = false ∨ x.gbn.base < x.gbn.nextseqnum
  · rw [if_neg (not_not.mpr hloop)]
    by_cases hexp : c.expired config e = true
    · rw [if_pos hexp]
      exact .fail
    · rw [if_neg hexp]
      rw [Bool.not_eq_true] at hexp
      by_cases heof : x.eofReached = false
      · rw [if_pos heof]
        dsimp only
        split_ifs
        · exact .fail
        · exact .checks (Or.inr hpc) hexp transferWait_wait
      · rw [if_neg heof]
        exact .checks (Or.inr hpc) hexp transferWait_wait
  · rw [if_pos hloop]
    exact .leaves hpc rfl

theorem Times.receive {ms : Nat} (hpc : c.pc = .select ms)
    {handle : Client Addr → RDTHeader → Client Addr × List (Send Addr)}
    (hh : ∀ a h, c.Times config e (handle { c with serverAddr := a } h).1) :
    c.Times config e (c.receive e handle).1 := by
  rw [Client.receive]
  cases (recvPacket e c.serverAddr).2 with
  | error code => exact .wakes ms hpc (Or.inl rfl)
  | ok received => exact hh _ _

theorem transferReady_times {ms : Nat} (hpc : c.pc = .select ms) :
    c.Times config e (c.transferReady x e).1 := by
  rw [transferReady]
  dsimp only
  split_ifs
  · exact .wakes ms hpc (Or.inr rfl)
  · exact .fail
  · cases (recvPacket e c.serverAddr).2 with
    | error code => exact .wakes ms hpc (Or.inr rfl)
    | ok received =>
      dsimp only
      split_ifs
      · refine .wakes ms hpc (Or.inr ?_)
        rw [transferAck]
        dsimp only
        split_ifs <;> rfl
      · exact .wakes ms hpc (Or.inr rfl)

theorem resume_times {ms : Nat} (hpc : c.pc = .select ms) (hs : c.state.rank ≤ 3)
    (hclosed : c.state ≠ .closed) (hx : c.state = .established → ∃ x, c.xfer = some x) :
    c.Times config e (c.resume config e).1 := by
  cases hst : c.state with
  | timeWait => exact absurd hs (by rw [hst]; decide)
  | done => exact absurd hs (by rw [hst]; decide)
  | closed => exact absurd hst hclosed
  | synSent =>
    rw [resume_synSent hst, synSentReady]
    dsimp only
    split_ifs
    · exact .fail
    · exact .wakes ms hpc (Or.inl rfl)
    · exact .fail
    · exact .fail
    · apply Times.receive hpc
      intro a h
      rw [synSentPacket]
      dsimp only
      split_ifs
      · exact .wakes ms hpc (Or.inl rfl)
      · exact .fail
      · exact .wakes ms hpc (Or.inl rfl)
  | established =>
    obtain ⟨x, hx⟩ := hx hst
    rw [resume_established hst hx]
    exact transferReady_times hpc
  | finWait =>
    rw [resume_finWait hst, finWaitReady]
    split_ifs
    · exact .fail
    · exact .wakes ms hpc (Or.inl rfl)
    · exact .fail
    · apply Times.receive hpc
      intro a h
      rw [finWaitPacket]
      dsimp only
      split_ifs
      · exact .ends (by decide : 4 ≤ ClientState.timeWait.rank)
      · exact .fail
      · exact .wakes ms hpc (Or.inl rfl)

theorem step_timed {input : InputFile} {acks : Nat} (hp : Paced input acks c)
    (hs : c.state.rank ≤ 3) (hclosed : c.state = .closed → c.pc = .fsm)
    (hret : ∀ code, c.pc ≠ .returned code) : c.Times config e (c.step config e).1 := by
  cases hpc : c.pc with
  | fsm =>
    rw [step_fsm hpc]
    exact runClient_times hpc hs
  | returned code => exact absurd hpc (hret code)
  | select ms =>
    rw [step_select hpc]
    refine resume_times hpc hs ?_ ?_
    · intro hst
      exact absurd ((hclosed hst).symm.trans hpc) (by simp)
    · intro hst
      cases hp with
      | opening _ _ hentered _ _ _ => exact absurd ((hentered hst).symm.trans hpc) (by simp)
      | running _ _ x _ hx _ => exact ⟨x, hx⟩
      | behind hrank _ _ _ => exact absurd hrank (by rw [hst]; decide)
  | transfer =>
    cases hp with
    | opening _ hno _ _ _ _ => exact absurd hpc hno
    | behind _ hno _ _ => exact absurd hpc hno
    | running _ _ x _ hx _ =>
      rw [step_transfer hpc hx]
      exact transferRound_times hpc

/-- Behind its first activation the client is not closed any more. -/
theorem step_ne_closed {input : InputFile} {acks : Nat} (hp : Paced input acks c)
    (hopening : c.state = .closed → c.pc = .fsm) : (c.step config e).1.state ≠ .closed := by
  intro hclosed
  have hs : c.state = .closed := by
    have hrank := (hp.move config e).rank
    rw [hclosed] at hrank
    revert hrank
    cases c.state <;> decide
  revert hclosed
  rw [step_fsm (hopening hs), runClient_closed hs, handleClosed]
  split_ifs <;> simp [Client.goto, Client.fail]

/-- How much later than the timeout a client may be seen; `delayMs` is what the process itself takes
between two waits. -/
def allowance (delayMs : Nat) (c : Client Addr) : Nat :=
  match c.pc with
  | .select _ => delayMs
  | .transfer => retransmitIntervalMs + 2 * delayMs
  | _ =>
    if c.state = .closed then retransmitIntervalMs + 2 * delayMs
    else retransmitIntervalMs + 3 * delayMs

section Allowance

variable {delayMs : Nat}

theorem allowance_select {ms : Nat} (hpc : c.pc = .select ms) : c.allowance delayMs = delayMs := by
  rw [allowance, hpc]

theorem allowance_transfer (hpc : c.pc = .transfer) :
    c.allowance delayMs = retransmitIntervalMs + 2 * delayMs := by
  rw [allowance, hpc]

theorem allowance_closed (hpc : c.pc = .fsm) (hs : c.state = .closed) :
    c.allowance delayMs = retransmitIntervalMs + 2 * delayMs := by
  rw [allowance, hpc]
  exact if_pos hs

theorem allowance_fsm (hpc : c.pc = .fsm) (hs : c.state ≠ .closed) :
    c.allowance delayMs = retransmitIntervalMs + 3 * delayMs := by
  rw [allowance, hpc]
  exact if_neg hs

theorem le_allowance_awake (hpc : c.pc = .fsm ∨ c.pc = .transfer) :
    retransmitIntervalMs + 2 * delayMs ≤ c.allowance delayMs := by
  rcases hpc with hpc | hpc
  · by_cases hs : c.state = .closed
    · exact (allowance_closed hpc hs).ge
    · rw [allowance_fsm hpc hs]
      omega
  · exact (allowance_transfer hpc).ge

theorem le_allowance (c : Client Addr) : delayMs ≤ c.allowance delayMs := by
  rw [allowance]
  split
  · exact Nat.le_refl _
  · omega
  · split_ifs <;> omega

theorem allowance_le (c : Client Addr) :
    c.allowance delayMs ≤ retransmitIntervalMs + 3 * delayMs := by
  rw [allowance]
  split
  · omega
  · omega
  · split_ifs <;> omega

end Allowance

end Client

namespace TimedClient

open Client

variable {config : AppConfig} {input : InputFile} {delayMs : Nat} {s : TimedClient Addr}
  {x : TimedEnv Addr}

/-- The process is back in a wait no more than `delayMs` behind the end of the last one, and the
clock readings of the activation lie in between. -/
structure Punctual (delayMs : Nat) (s : TimedClient Addr) (x : TimedEnv Addr) : Prop where
  elapsed : x.elapsedMs ≤ s.client.pc.waitMs + delayMs
  check : s.nowMs ≤ x.env.checkMs.toNat
  mark : s.nowMs ≤ x.env.markMs.toNat ∧ x.env.markMs.toNat ≤ s.nowMs + x.elapsedMs

instance (delayMs : Nat) (s : TimedClient Addr) (x : TimedEnv Addr) :
    Decidable (s.Punctual delayMs x) :=
  decidable_of_iff (x.elapsedMs ≤ s.client.pc.waitMs + delayMs ∧ s.nowMs ≤ x.env.checkMs.toNat ∧
      s.nowMs ≤ x.env.markMs.toNat ∧ x.env.markMs.toNat ≤ s.nowMs + x.elapsedMs)
    ⟨fun h => ⟨h.1, h.2.1, h.2.2⟩, fun h => ⟨h.elapsed, h.check, h.mark⟩⟩

/-- The watchdog of a client before TIME_WAIT. -/
def watchdog (config : AppConfig) (delayMs : Nat) : Watchdog (TimedClient Addr) where
  now s := s.nowMs
  last s := s.client.lastProgressMs.toNat
  allowance s := s.client.allowance delayMs
  Alive s := s.client.state.rank ≤ 3
  timeout := config.timeoutMs
  slack := retransmitIntervalMs + 3 * delayMs

/-- What holds of a client in a run with a clock. -/
structure Clocked (input : InputFile) (s : TimedClient Addr) : Prop where
  paced : ∃ acks, Paced input acks s.client
  opening : s.client.state = .closed → s.client.pc = .fsm
  runs : s.client.state.rank ≤ 3 → s.client.Runs
  wait : s.client.state.rank ≤ 3 → s.client.pc.waitMs ≤ retransmitIntervalMs
  read : 0 < s.client.lastProgressMs.toNat
  past : s.client.lastProgressMs.toNat ≤ s.nowMs

theorem Clocked.rank_le (h : Clocked input s) :
    s.client.state.rank ≤ (s.step config x).1.client.state.rank := by
  obtain ⟨acks, hp⟩ := h.paced
  exact (hp.move config x.env).rank

theorem Clocked.times (h : Clocked input s) (hs : s.client.state.rank ≤ 3) :
    s.client.Times config x.env (s.step config x).1.client := by
  obtain ⟨acks, hp⟩ := h.paced
  exact step_timed hp hs h.opening (h.runs hs).pc

/-- The watchdog is left alone or fed while the activation lasts. -/
theorem Clocked.fed (h : Clocked input s) (hx : s.Punctual delayMs x) :
    (s.step config x).1.client.lastProgressMs.toNat = s.client.lastProgressMs.toNat ∨
      s.client.Updates config x.env ∧ (∃ ms, s.client.pc = .select ms) ∧
        s.nowMs ≤ (s.step config x).1.client.lastProgressMs.toNat ∧
        (s.step config x).1.client.lastProgressMs.toNat ≤ s.nowMs + x.elapsedMs := by
  have hw : s.client.Watched x.env (s.step config x).1.client := step_watched
  rcases hw with ⟨_, hkept⟩ | ⟨hd, htaken, hcounts, hmark⟩
  · exact Or.inl (congrArg UInt64.toNat hkept)
  · have hne : x.env.markMs ≠ 0 := by
      intro hzero
      have hle := hx.mark.1
      have hread := h.read
      have hpast := h.past
      rw [hzero] at hle
      have hz : (0 : UInt64).toNat = 0 := rfl
      omega
    have hselect : ∃ ms, s.client.pc = .select ms :=
      (select_of_receives (receives_of_taken htaken)).1
    rw [markProgress, if_pos hne] at hmark
    rw [hmark]
    exact Or.inr ⟨updates_iff.mpr ⟨hd, htaken, hcounts⟩, hselect, hx.mark⟩

theorem Clocked.next (h : Clocked input s) (hx : s.Punctual delayMs x) :
    Clocked input (s.step config x).1 := by
  have hrank : s.client.state.rank ≤ (s.step config x).1.client.state.rank := h.rank_le
  obtain ⟨acks, hp⟩ := h.paced
  have hread := h.read
  have hpast := h.past
  have hnow : (s.step config x).1.nowMs = s.nowMs + x.elapsedMs := rfl
  have hfed : (s.step config x).1.client.lastProgressMs.toNat = s.client.lastProgressMs.toNat ∨
      s.nowMs ≤ (s.step config x).1.client.lastProgressMs.toNat ∧
        (s.step config x).1.client.lastProgressMs.toNat ≤ s.nowMs + x.elapsedMs :=
    (h.fed hx).imp id (fun hf => hf.2.2)
  refine ⟨⟨_, hp.next config x.env⟩, ?_, ?_, ?_, by omega, by omega⟩
  · intro hclosed
    exact absurd hclosed (step_ne_closed hp h.opening)
  · intro hle
    rcases (h.runs (hrank.trans hle)).step config x.env with hruns | hexited
    · exact hruns
    · have hdone : (s.step config x).1.client.state = .done := hexited.state
      exact absurd hle (by rw [hdone]; decide)
  · intro hle
    have htimes : s.client.Times config x.env (s.step config x).1.client :=
      h.times (hrank.trans hle)
    cases htimes with
    | ends hlate => omega
    | opens _ _ hpc =>
      rw [hpc]
      exact Nat.zero_le _
    | checks _ _ hwait => exact hwait
    | leaves _ hpc =>
      rw [hpc]
      exact Nat.zero_le _
    | wakes _ _ hpc =>
      rcases hpc with hpc | hpc
      · rw [hpc]
        exact Nat.zero_le _
      · rw [hpc]
        exact Nat.zero_le _

/-- The activations that feed the watchdog. -/
def Feeds (config : AppConfig) (s : TimedClient Addr) (x : TimedEnv Addr) : Prop :=
  s.client.UpdatesEarly config x.env

instance (config : AppConfig) (s : TimedClient Addr) (x : TimedEnv Addr) :
    Decidable (s.Feeds config x) := inferInstanceAs (Decidable (Client.UpdatesEarly _ _ _))

theorem Clocked.opened (h : Clocked input s) : (s.step config x).1.client.state ≠ .closed := by
  obtain ⟨acks, hp⟩ := h.paced
  exact step_ne_closed hp h.opening

/-- Outside a wait nothing is read that could feed the watchdog. -/
theorem Clocked.unfed (h : Clocked input s) (hx : s.Punctual delayMs x)
    (hpc : ∀ ms, s.client.pc ≠ .select ms) :
    (s.step config x).1.client.lastProgressMs.toNat = s.client.lastProgressMs.toNat := by
  have hfed : (s.step config x).1.client.lastProgressMs.toNat = s.client.lastProgressMs.toNat ∨ _ :=
    h.fed hx
  rcases hfed with hsame | ⟨_, ⟨ms, hselect⟩, _⟩
  · exact hsame
  · exact absurd hselect (hpc ms)

/-- An activation that is quick enough for what the process does next. -/
theorem Move.quick {P : Prop} (hsame : (s.step config x).1.client.lastProgressMs.toNat =
      s.client.lastProgressMs.toNat)
    (h : x.elapsedMs + s.client.allowance delayMs ≤
      (s.step config x).1.client.allowance delayMs) :
    (watchdog config delayMs).Move P s (s.step config x).1 := by
  refine .passes hsame ?_
  change s.nowMs + x.elapsedMs + s.client.allowance delayMs ≤
    s.nowMs + (s.step config x).1.client.allowance delayMs
  omega

theorem Clocked.move (htimeout : 0 < config.timeout.toInt) (h : Clocked input s)
    (hx : s.Punctual delayMs x) (hle : (s.step config x).1.client.state.rank ≤ 3) :
    s.client.state.rank ≤ 3 ∧
      (watchdog config delayMs).Move (s.Feeds config x) s (s.step config x).1 := by
  have hs : s.client.state.rank ≤ 3 := h.rank_le.trans hle
  have helapsed := hx.elapsed
  refine ⟨hs, ?_⟩
  have htimes : s.client.Times config x.env (s.step config x).1.client := h.times hs
  cases htimes with
  | ends hlate => omega
  | opens hclosed hpc hnext =>
    refine Move.quick (h.unfed hx (by simp [hpc])) ?_
    rw [allowance_closed hpc hclosed, allowance_fsm hnext h.opened]
    rw [hpc] at helapsed
    change x.elapsedMs ≤ 0 + delayMs at helapsed
    omega
  | checks hpc hearly hwait =>
    have hnone : s.client.pc.waitMs = 0 ∧ ∀ ms, s.client.pc ≠ .select ms := by
      rcases hpc with hpc | hpc <;> simp [hpc, ClientPc.waitMs]
    have hquick : delayMs ≤ (s.step config x).1.client.allowance delayMs := le_allowance _
    have hcheck := hx.check
    have hlast := early_of_not_reached htimeout h.read (h.past.trans hcheck) hearly
    refine .checks (h.unfed hx hnone.2) ?_ ?_
    · change s.nowMs < s.client.lastProgressMs.toNat + config.timeoutMs
      omega
    · change s.nowMs + x.elapsedMs ≤ s.nowMs + (s.step config x).1.client.allowance delayMs
      omega
  | leaves hpc hnext =>
    refine Move.quick (h.unfed hx (by simp [hpc])) ?_
    rw [allowance_transfer hpc, allowance_fsm hnext h.opened]
    rw [hpc] at helapsed
    change x.elapsedMs ≤ 0 + delayMs at helapsed
    omega
  | wakes ms hpc hnext =>
    have hwait := h.wait hs
    have hbefore : s.client.allowance delayMs = delayMs := allowance_select hpc
    have hbehind : retransmitIntervalMs + 2 * delayMs ≤
        (s.step config x).1.client.allowance delayMs := le_allowance_awake hnext
    rw [hpc] at helapsed hwait
    rw [ClientPc.waitMs] at helapsed hwait
    rcases h.fed hx with hsame | ⟨hup, _, hsince, hupTo⟩
    · refine Move.quick hsame ?_
      rw [hbefore]
      omega
    · refine .feeds ⟨?_, hup⟩ hsince hupTo ?_ ?_
      · intro hcon
        rw [hcon] at hs
        exact absurd hs (by decide)
      · change s.nowMs + x.elapsedMs ≤ s.nowMs + (s.step config x).1.client.allowance delayMs
        omega
      · change s.nowMs + x.elapsedMs + s.client.allowance delayMs ≤
          s.nowMs + (retransmitIntervalMs + 3 * delayMs)
        rw [hbefore]
        omega

/-- A client at the start of `run_client`, by the clock it reads there. -/
def start (serverAddr : Addr) (startMs : UInt64) (input : InputFile) : TimedClient Addr :=
  ⟨Client.init serverAddr startMs input, startMs.toNat⟩

/-- The watchdog is fed once for each chunk at the most, and twice beside that. -/
theorem feeds_le (config : AppConfig) (serverAddr : Addr) (startMs : UInt64) (input : InputFile)
    (xs : List (TimedEnv Addr)) :
    count (Feeds config) (step config) (start serverAddr startMs input) xs ≤
      (chunksOf input).length + 2 := by
  have hcount : count (Feeds config) (step config) (start serverAddr startMs input) xs =
      count (UpdatesEarly config) (Client.step config) (Client.init serverAddr startMs input)
        (xs.map TimedEnv.env) :=
    count_component TimedClient.client TimedEnv.env (fun s x => rfl) _ xs
  have hsyn : count (UpdatesIn config .synSent) (Client.step config)
      (Client.init serverAddr startMs input) (xs.map TimedEnv.env) ≤ 1 :=
    updatesIn_once (n := 2) (by decide) (fun c e h => synAck_leaves h.1 h.2)
      (.init serverAddr startMs input) _
  have hfin : count (UpdatesIn config .finWait) (Client.step config)
      (Client.init serverAddr startMs input) (xs.map TimedEnv.env) ≤ 1 :=
    updatesIn_once (n := 4) (by decide) (fun c e h => finAck_leaves h.1 h.2)
      (.init serverAddr startMs input) _
  have hacks := (paced_after config serverAddr startMs input (xs.map TimedEnv.env)).bound
  have hsent : (after (Client.step config) (Client.init serverAddr startMs input)
      (xs.map TimedEnv.env)).chunksSent input ≤ (chunksOf input).length := Nat.sub_le _ _
  have hsplit := count_updatesEarly_le config (Client.init serverAddr startMs input)
    (xs.map TimedEnv.env)
  rw [hcount]
  omega

theorem Clocked.start (serverAddr : Addr) {startMs : UInt64} (hstart : 0 < startMs.toNat)
    (input : InputFile) : Clocked input (start serverAddr startMs input) where
  paced := ⟨0, .init serverAddr startMs input⟩
  opening _ := rfl
  runs _ := ⟨by simp [TimedClient.start, Client.init], rfl,
    by simp [TimedClient.start, Client.init], nofun⟩
  wait _ := Nat.zero_le _
  read := hstart
  past := Nat.le_refl _

/-- Whatever the network does, a client whose input has `n` chunks is in TIME_WAIT or has ended
after `n + 3` rounds of the timeout and the time between two checks, and before that it ends when
one such round passes without progress. -/
theorem client_ends_in_time (config : AppConfig) (serverAddr : Addr) (startMs : UInt64)
    (input : InputFile) (delayMs : Nat) (xs : List (TimedEnv Addr))
    (htimeout : 0 < config.timeout.toInt) (hstart : 0 < startMs.toNat)
    (hx : Always (step config) (Punctual delayMs) (start serverAddr startMs input) xs)
    (hearly : (after (step config) (start serverAddr startMs input) xs).client.state.rank ≤ 3) :
    (after (step config) (start serverAddr startMs input) xs).nowMs ≤
      (after (step config) (start serverAddr startMs input) xs).client.lastProgressMs.toNat +
        (config.timeoutMs + (retransmitIntervalMs + 3 * delayMs)) ∧
    (after (step config) (start serverAddr startMs input) xs).nowMs ≤
      startMs.toNat + ((chunksOf input).length + 3) *
        (config.timeoutMs + (retransmitIntervalMs + 3 * delayMs)) := by
  have hfed : (watchdog config delayMs).Fed (start serverAddr startMs input) := by
    change startMs.toNat ≤ startMs.toNat + config.timeoutMs + _
    omega
  have htime := Watchdog.in_time (I := Clocked input) (J := Punctual delayMs) (P := Feeds config)
    (watchdog config delayMs) (step config) (fun s x hs hp => ⟨hs.next hp, hs.move htimeout hp⟩)
    (fun s => allowance_le s.client) (.start serverAddr hstart input) hfed xs hx hearly
  have hfeeds := Nat.mul_le_mul_right (config.timeoutMs + (retransmitIntervalMs + 3 * delayMs))
    (Nat.succ_le_succ (feeds_le config serverAddr startMs input xs))
  exact ⟨htime.1, htime.2.trans (Nat.add_le_add_left hfeeds _)⟩

/-- An input of one chunk. -/
def oneChunk : InputFile := [.bytes ⟨[5, 6, 7, 8], by decide⟩]

/-- The SYN is answered after 200 ms and the only chunk 100 ms later; then the FIN is out for two
intervals. -/
def answeredChunk : List (TimedEnv Nat) :=
  [⟨.calm Nat 1000, 0⟩, ⟨.calm Nat 1000, 0⟩,
    ⟨.arrival 1 (encode 7 1 42 (flagSyn ||| flagAck) []) 1200, 200⟩, ⟨.calm Nat 1200, 0⟩,
    ⟨.calm Nat 1200, 0⟩, ⟨.arrival 1 (encode 7 2 42 flagAck []) 1300, 100⟩, ⟨.calm Nat 1300, 0⟩,
    ⟨.calm Nat 1300, 0⟩, ⟨.calm Nat 1550, 250⟩, ⟨.calm Nat 1550, 0⟩, ⟨.calm Nat 1800, 250⟩]

theorem client_ends_in_time_answered :
    count (Feeds strayConfig) (step strayConfig) (start 1 1000 oneChunk) answeredChunk = 2 ∧
    (after (step strayConfig) (start 1 1000 oneChunk) answeredChunk).nowMs = 1800 ∧
    (after (step strayConfig) (start 1 1000 oneChunk) answeredChunk).nowMs ≤
      (after (step strayConfig) (start 1 1000 oneChunk) answeredChunk).client.lastProgressMs.toNat +
        (strayConfig.timeoutMs + (retransmitIntervalMs + 3 * 0)) ∧
    (after (step strayConfig) (start 1 1000 oneChunk) answeredChunk).nowMs ≤
      1000 + (1 + 3) * (strayConfig.timeoutMs + (retransmitIntervalMs + 3 * 0)) :=
  ⟨by decide +kernel, by decide +kernel,
    client_ends_in_time strayConfig 1 1000 oneChunk 0 answeredChunk (by decide) (by decide)
      (by decide +kernel) (by decide +kernel)⟩

end TimedClient

namespace Server

variable {config : AppConfig} {s : Server Addr} {e : Env Addr}

/-- How an activation of the server uses its time, unless the server has ended behind it. -/
inductive Times (config : AppConfig) (s : Server Addr) (e : Env Addr) (next : Server Addr) :
    Prop where
  | ends (h : next.state = .done)
  | checks (pc : s.pc = .fsm) (early : s.expired config e = false)
      (waits : next.pc = .select retransmitIntervalMs)
      (same : next.lastProgressMs = s.lastProgressMs)
  | wakes (ms : Nat) (pc : s.pc = .select ms) (turns : next.pc = .fsm)
      (last : next.lastProgressMs = s.lastProgressMs ∨
        next.lastProgressMs = markProgress s.lastProgressMs e.markMs)

theorem Times.fail {s' : Server Addr} {code : Int} : s.Times config e (s'.fail code) := .ends rfl

theorem Times.reply {ms : Nat} (hpc : s.pc = .select ms) {s' next : Server Addr} {flags : UInt8}
    (hnext : next.pc = .fsm) (hlast : next.lastProgressMs = s.lastProgressMs ∨
      next.lastProgressMs = markProgress s.lastProgressMs e.markMs) :
    s.Times config e (s'.reply e flags next).1 := by
  rw [Server.reply]
  split_ifs
  · exact .wakes ms hpc hnext hlast
  · exact .fail

theorem Times.receive {ms : Nat} (hpc : s.pc = .select ms)
    {handle : Server Addr → RDTHeader → List UInt8 → Server Addr × List (Send Addr)}
    (hh : ∀ a h payload, s.Times config e (handle { s with clientAddr := a } h payload).1) :
    s.Times config e (s.receive e handle).1 := by
  rw [Server.receive]
  cases (recvPacket e s.clientAddr).2 with
  | error code => exact .wakes ms hpc rfl (Or.inl rfl)
  | ok received => exact hh _ _ _

theorem Times.ready {ms : Nat} (hpc : s.pc = .select ms)
    {handle : Server Addr → RDTHeader → List UInt8 → Server Addr × List (Send Addr)}
    (hh : ∀ a h payload, s.Times config e (handle { s with clientAddr := a } h payload).1) :
    s.Times config e (s.ready config e handle).1 := by
  rw [Server.ready]
  split_ifs
  · exact .fail
  · exact .wakes ms hpc rfl (Or.inl rfl)
  · exact .fail
  · exact .receive hpc hh

theorem step_timed (hpc : s.pc.Waiting) : s.Times config e (s.step config e).1 := by
  by_cases hs : s.state = .done
  · exact .ends (step_done config hs e).1
  rcases hpc with hpc | ⟨ms, hpc⟩
  · rw [step_fsm hpc, runServer_running hs, enter]
    split_ifs with _ hexp
    · exact .fail
    · exact .fail
    · exact .checks hpc (Bool.eq_false_iff.mpr hexp) rfl rfl
  · rw [step_select hpc]
    cases hst : s.state with
    | done => exact absurd hst hs
    | listen =>
      rw [resume_listen hst]
      apply Times.ready hpc
      intro a h payload
      rw [listenPacket]
      split_ifs
      · exact .reply hpc rfl (Or.inr rfl)
      · exact .wakes ms hpc rfl (Or.inl rfl)
    | handshake =>
      rw [resume_handshake hst]
      apply Times.ready hpc
      intro a h payload
      rw [handshakePacket]
      split_ifs
      · exact .reply hpc rfl (Or.inl rfl)
      · exact .wakes ms hpc rfl (Or.inr rfl)
      · exact .wakes ms hpc rfl (Or.inr rfl)
      · exact .wakes ms hpc rfl (Or.inl rfl)
    | established =>
      rw [resume_established hst]
      apply Times.ready hpc
      intro a h payload
      rw [establishedPacket, dataPacket]
      dsimp only
      split_ifs
      · exact .reply hpc rfl (Or.inr rfl)
      · exact .fail
      · exact .reply hpc rfl (Or.inr rfl)
      · exact .reply hpc rfl (Or.inr rfl)
      · exact .reply hpc rfl (Or.inl rfl)
      · exact .wakes ms hpc rfl (Or.inl rfl)
    | lastAck =>
      rw [resume_lastAck hst, lastAckReady]
      dsimp only
      split_ifs
      · exact .fail
      · exact .wakes ms hpc rfl (Or.inl rfl)
      · exact .fail
      · exact .fail
      · exact .fail
      · apply Times.receive hpc
        intro a h payload
        rw [lastAckPacket]
        split_ifs
        · exact .reply hpc rfl (Or.inl rfl)
        · exact .ends rfl
        · exact .wakes ms hpc rfl (Or.inl rfl)

end Server

/-- A server at a time, in milliseconds. -/
structure TimedServer (Addr : Type) where
  server : Server Addr
  nowMs : Nat

/-- How long the process waits in `select` at most. -/
def ServerPc.waitMs : ServerPc → Nat
  | .select ms => ms
  | _ => 0

namespace TimedServer

open Server

/-- `Server.step` with its time. -/
def step (config : AppConfig) (s : TimedServer Addr) (x : TimedEnv Addr) :
    TimedServer Addr × List (Send Addr) :=
  let next := s.server.step config x.env
  (⟨next.1, s.nowMs + x.elapsedMs⟩, next.2)

/-- As for the client. -/
structure Punctual (delayMs : Nat) (s : TimedServer Addr) (x : TimedEnv Addr) : Prop where
  elapsed : x.elapsedMs ≤ s.server.pc.waitMs + delayMs
  check : s.nowMs ≤ x.env.checkMs.toNat
  mark : s.nowMs ≤ x.env.markMs.toNat ∧ x.env.markMs.toNat ≤ s.nowMs + x.elapsedMs

instance (delayMs : Nat) (s : TimedServer Addr) (x : TimedEnv Addr) :
    Decidable (s.Punctual delayMs x) :=
  decidable_of_iff (x.elapsedMs ≤ s.server.pc.waitMs + delayMs ∧ s.nowMs ≤ x.env.checkMs.toNat ∧
      s.nowMs ≤ x.env.markMs.toNat ∧ x.env.markMs.toNat ≤ s.nowMs + x.elapsedMs)
    ⟨fun h => ⟨h.1, h.2.1, h.2.2⟩, fun h => ⟨h.elapsed, h.check, h.mark⟩⟩

/-- The watchdog of a running server; in `select` it has just been looked at. -/
def watchdog (config : AppConfig) (delayMs : Nat) : Watchdog (TimedServer Addr) where
  now s := s.nowMs
  last s := s.server.lastProgressMs.toNat
  allowance s := if s.server.pc = .fsm then retransmitIntervalMs + 2 * delayMs else delayMs
  Alive s := s.server.state ≠ .done
  timeout := config.timeoutMs
  slack := retransmitIntervalMs + 2 * delayMs

/-- What holds of a running server in a run with a clock. -/
structure Clocked (s : TimedServer Addr) : Prop where
  waits : s.server.pc = .fsm ∨ s.server.pc = .select retransmitIntervalMs
  read : 0 < s.server.lastProgressMs.toNat
  past : s.server.lastProgressMs.toNat ≤ s.nowMs

/-- The activations that move `last_progress_ms`. -/
def Feeds (config : AppConfig) (s : TimedServer Addr) (x : TimedEnv Addr) : Prop :=
  (s.server.step config x.env).1.lastProgressMs ≠ s.server.lastProgressMs

instance (config : AppConfig) (s : TimedServer Addr) (x : TimedEnv Addr) :
    Decidable (s.Feeds config x) := inferInstanceAs (Decidable (_ ≠ _))

variable {config : AppConfig} {delayMs : Nat} {s : TimedServer Addr} {x : TimedEnv Addr}

theorem allowance_fsm (hpc : s.server.pc = .fsm) :
    (watchdog config delayMs).allowance s = retransmitIntervalMs + 2 * delayMs :=
  if_pos hpc

theorem allowance_select {ms : Nat} (hpc : s.server.pc = .select ms) :
    (watchdog config delayMs).allowance s = delayMs :=
  if_neg (by simp [hpc])

theorem allowance_le (config : AppConfig) (s : TimedServer Addr) :
    (watchdog config delayMs).allowance s ≤ retransmitIntervalMs + 2 * delayMs := by
  change (if s.server.pc = .fsm then retransmitIntervalMs + 2 * delayMs else delayMs) ≤ _
  split_ifs <;> omega

theorem not_done (h : (s.step config x).1.server.state ≠ .done) : s.server.state ≠ .done :=
  fun hs => h (step_done config hs x.env).1

/-- A running server keeps its clock and its watchdog. -/
theorem Clocked.move (htimeout : 0 < config.timeout.toInt) (h : s.Clocked)
    (hx : s.Punctual delayMs x) (hnext : (s.step config x).1.server.state ≠ .done) :
    (s.step config x).1.Clocked ∧
      (watchdog config delayMs).Move (s.Feeds config x) s (s.step config x).1 := by
  have hwaiting : s.server.pc.Waiting := h.waits.imp id (fun hpc => ⟨_, hpc⟩)
  have htimes : s.server.Times config x.env (s.step config x).1.server := step_timed hwaiting
  have helapsed := hx.elapsed
  have hread := h.read
  have hpast := h.past
  have hnow : (s.step config x).1.nowMs = s.nowMs + x.elapsedMs := rfl
  cases htimes with
  | ends hdone => exact absurd hdone hnext
  | checks hpc hearly hwaits hsame =>
    have hcheck := hx.check
    have hlast := early_of_not_reached htimeout hread (hpast.trans hcheck) hearly
    rw [hpc] at helapsed
    change x.elapsedMs ≤ 0 + delayMs at helapsed
    refine ⟨⟨Or.inr hwaits, by rw [hsame]; exact hread, by rw [hsame]; omega⟩, ?_⟩
    refine .checks (congrArg UInt64.toNat hsame) ?_ ?_
    · change s.nowMs < s.server.lastProgressMs.toNat + config.timeoutMs
      omega
    · rw [allowance_select hwaits]
      change s.nowMs + x.elapsedMs ≤ s.nowMs + delayMs
      omega
  | wakes ms hpc hturns hlast =>
    have hms : ms = retransmitIntervalMs := by
      rcases h.waits with hfsm | hselect
      · exact absurd (hpc.symm.trans hfsm) (by simp)
      · exact ServerPc.select.inj (hpc.symm.trans hselect)
    rw [hpc, hms] at helapsed
    change x.elapsedMs ≤ retransmitIntervalMs + delayMs at helapsed
    by_cases hsame : (s.step config x).1.server.lastProgressMs = s.server.lastProgressMs
    · refine ⟨⟨Or.inl hturns, by rw [hsame]; exact hread, by rw [hsame]; omega⟩, ?_⟩
      refine .passes (congrArg UInt64.toNat hsame) ?_
      rw [allowance_select hpc, allowance_fsm hturns]
      change s.nowMs + x.elapsedMs + delayMs ≤ s.nowMs + _
      omega
    · have hmark : (s.step config x).1.server.lastProgressMs = x.env.markMs := by
        rw [hlast.resolve_left hsame, markProgress, if_pos]
        intro hzero
        have hle := hx.mark.1
        rw [hzero] at hle
        have hz : (0 : UInt64).toNat = 0 := rfl
        omega
      have hsince := hx.mark.1
      have hupTo := hx.mark.2
      refine ⟨⟨Or.inl hturns, by rw [hmark]; omega, by rw [hmark]; omega⟩, ?_⟩
      refine .feeds hsame ?_ ?_ ?_ ?_
      · change s.nowMs ≤ (s.step config x).1.server.lastProgressMs.toNat
        rw [hmark]
        exact hsince
      · change (s.step config x).1.server.lastProgressMs.toNat ≤ s.nowMs + x.elapsedMs
        rw [hmark]
        exact hupTo
      · rw [allowance_fsm hturns]
        change s.nowMs + x.elapsedMs ≤ s.nowMs + _
        omega
      · rw [allowance_select hpc]
        change s.nowMs + x.elapsedMs + delayMs ≤ s.nowMs + (retransmitIntervalMs + 2 * delayMs)
        omega

/-- A server at the start of `run_server`, by the clock it reads there. -/
def start (clientAddr : Addr) (startMs : UInt64) : TimedServer Addr :=
  ⟨Server.init clientAddr startMs, startMs.toNat⟩

/-- Whatever the network does, a server ends when the timeout and the time between two checks pass
without progress; it runs no longer than one such round for each time it has seen progress, and one
more. -/
theorem server_ends_in_time (config : AppConfig) (clientAddr : Addr) (startMs : UInt64)
    (delayMs : Nat) (xs : List (TimedEnv Addr)) (htimeout : 0 < config.timeout.toInt)
    (hstart : 0 < startMs.toNat)
    (hx : Always (step config) (Punctual delayMs) (start clientAddr startMs) xs)
    (hrunning : (after (step config) (start clientAddr startMs) xs).server.state ≠ .done) :
    (after (step config) (start clientAddr startMs) xs).nowMs ≤
      (after (step config) (start clientAddr startMs) xs).server.lastProgressMs.toNat +
        (config.timeoutMs + (retransmitIntervalMs + 2 * delayMs)) ∧
    (after (step config) (start clientAddr startMs) xs).nowMs ≤
      startMs.toNat + (count (Feeds config) (step config) (start clientAddr startMs) xs + 1) *
        (config.timeoutMs + (retransmitIntervalMs + 2 * delayMs)) := by
  have hfed : (watchdog config delayMs).Fed (start clientAddr startMs) := by
    change startMs.toNat ≤ startMs.toNat + config.timeoutMs + _
    omega
  have hclocked : (start clientAddr startMs).Clocked := ⟨Or.inl rfl, hstart, Nat.le_refl _⟩
  exact Watchdog.in_time (I := fun s => s.server.state ≠ .done → s.Clocked)
    (J := Punctual delayMs) (P := Feeds config) (watchdog config delayMs) (step config)
    (fun s x hs hp => ⟨fun hnext => ((hs (not_done hnext)).move htimeout hp hnext).1,
      fun hnext => ⟨not_done hnext, ((hs (not_done hnext)).move htimeout hp hnext).2⟩⟩)
    (fun s => allowance_le config s) (fun _ => hclocked) hfed xs hx hrunning

/-- A SYN after 200 ms and the first DATA packet 100 ms later; then nothing comes in for an
interval. -/
def calledOnce : List (TimedEnv Nat) :=
  [⟨.calm Nat 1000, 0⟩, ⟨.arrival 1 (encode 0 0 0 flagSyn []) 1200, 200⟩, ⟨.calm Nat 1200, 0⟩,
    ⟨.arrival 1 (encode 1 1 1 flagData [65]) 1300, 100⟩, ⟨.calm Nat 1300, 0⟩,
    ⟨.calm Nat 1550, 250⟩]

theorem server_ends_in_time_called :
    count (Feeds strayConfig) (step strayConfig) (start 1 1000) calledOnce = 2 ∧
    (after (step strayConfig) (start 1 1000) calledOnce).nowMs = 1550 ∧
    (after (step strayConfig) (start 1 1000) calledOnce).nowMs ≤
      (after (step strayConfig) (start 1 1000) calledOnce).server.lastProgressMs.toNat +
        (strayConfig.timeoutMs + (retransmitIntervalMs + 2 * 0)) ∧
    (after (step strayConfig) (start 1 1000) calledOnce).nowMs ≤
      1000 + (count (Feeds strayConfig) (step strayConfig) (start 1 1000) calledOnce + 1) *
        (strayConfig.timeoutMs + (retransmitIntervalMs + 2 * 0)) :=
  ⟨by decide +kernel, by decide +kernel,
    server_ends_in_time strayConfig 1 1000 0 calledOnce (by decide) (by decide)
      (by decide +kernel) (by decide +kernel)⟩

end TimedServer

end ReliableUdp
