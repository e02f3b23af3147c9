import ReliableUdp.Endpoint.StopSignal
import ReliableUdp.Framework.Streams

namespace ReliableUdp

open Machine

variable {Addr : Type}

/-- An endless run of `run_client` from where its loop starts: what it is called with, and all that
the operating system answers. -/
structure ClientRun (Addr : Type) where
  config : AppConfig
  serverAddr : Addr
  startMs : UInt64
  input : InputFile
  env : ℕ → Env Addr

namespace ClientRun

open Client

variable (r : ClientRun Addr)

/-- The client before the activation number `n`. -/
def client : ℕ → Client Addr :=
  states (step r.config) (init r.serverAddr r.startMs r.input) r.env

/-- What the activation number `n` sends. -/
def sends (n : ℕ) : List (Send Addr) := ((r.client n).step r.config (r.env n)).2

/-- The watchdog was started or fed with the clock reading `ms`. -/
def Reading (ms : UInt64) : Prop := ms = r.startMs ∨ ∃ m, ms = (r.env m).markMs ∧ ms ≠ 0

/-- Time passes: whenever the watchdog was fed, there comes a turn of the transfer loop that finds
it expired unless it is fed again. -/
def TimePasses : Prop :=
  ∀ ms, r.Reading ms → ∀ m, ∃ n ≥ m,
    progressTimeoutReached ms r.config.timeout (r.env n).checkMs = true ∧
    progressTimeoutReached ms r.config.timeout (r.env (n + 1)).checkMs = true

/-- The flag set during the activation number `k` ends the transfer. An activation after it that
begins a turn of the transfer loop begins a later turn than the one that was going on. -/
structure StopsTransfer (k : ℕ) : Prop where
  /-- no further chunk is read -/
  reads : ∀ n > k, chunksOf (r.client n).file = chunksOf (r.client (k + 1)).file
  /-- no DATA packet is new -/
  old : ∀ n > k, ∀ o ∈ r.sends n, ∀ h payload, parsePacket o.data = .ok (h, payload) →
    h.flags = flagData → ∃ x, (r.client (k + 1)).xfer = some x ∧ h.seqNum < x.gbn.nextseqnum
  noFin : ∀ n, ∀ o ∈ r.sends n, ∀ h payload, parsePacket o.data = .ok (h, payload) →
    h.flags &&& flagFin = 0
  exits : ∀ n > k, ∀ code, (r.client n).pc = .returned code → code ≠ exOk
  returns : r.TimePasses → ∃ n > k, ∃ code, (r.client n).pc = .returned code

/-- What makes the client go on with its transfer from the activation number `n` on: a chunk waits
to be read, and its turn comes at once; or the client waits for an acknowledgement, and the first
one for its window makes room and comes before the watchdog expires. -/
inductive GoesOn (r : ClientRun Addr) (n : ℕ) : Prop where
  | turn (x : Transfer) (pending : (r.client n).Pending x) (room : x.Room)
      (pc : (r.client n).pc = .transfer)
      (live : (r.client n).expired r.config (r.env n) = false)
  | ack (x : Transfer) (pending : (r.client n).Pending x) (m : ℕ) (later : n ≤ m)
      (first : ∀ j, n ≤ j → j < m → ∀ h, ¬ TakesAckFor x (r.client j) (r.env j) h)
      (h : RDTHeader) (ack : TakesAckFor x (r.client m) (r.env m) h)
      (room : x.gbn.nextseqnum < h.ackNum + UInt32.ofNat windowSize)
      (live : progressTimeoutReached (markProgress (r.client n).lastProgressMs (r.env m).markMs)
        r.config.timeout (r.env (m + 1)).checkMs = false)

variable {r}

theorem client_succ (n : ℕ) :
    r.client (n + 1) = ((r.client n).step r.config (r.env n)).1 := rfl

theorem paced (n : ℕ) : ∃ acks, Paced r.input acks (r.client n) := by
  rw [client, states_eq_after]
  exact ⟨_, paced_after r.config r.serverAddr r.startMs r.input _⟩

theorem reading_lastProgress (n : ℕ) : r.Reading (r.client n).lastProgressMs := by
  induction n with
  | zero => exact Or.inl rfl
  | succ n ih =>
    have hmove : (r.client n).Watched (r.env n) (r.client (n + 1)) := step_watched
    rcases hmove with ⟨_, hkept⟩ | ⟨_, _, _, hmarked⟩
    · rw [hkept]
      exact ih
    · rw [hmarked, markProgress]
      split_ifs with hzero
      · exact Or.inr ⟨n, rfl, hzero⟩
      · exact ih

theorem rank_mono : Monotone (fun n => (r.client n).state.rank) := by
  apply monotone_nat_of_le_succ
  intro n
  obtain ⟨acks, hp⟩ := r.paced n
  exact (hp.move r.config (r.env n)).rank

/-- An interrupted `select` leaves the transfer loop. -/
theorem interrupted_leaves {k ms : ℕ} (hs : (r.client k).state = .established)
    (hpc : (r.client k).pc = .select ms) (hsignal : (r.env k).selectResult < 0) :
    (r.client (k + 1)).state = .done := by
  obtain ⟨acks, hp⟩ := r.paced k
  cases hp with
  | opening _ _ hentered _ _ _ =>
    rw [hentered hs] at hpc
    exact absurd hpc (by simp)
  | running _ _ x _ hx _ =>
    have hneg : waitForPacket (r.env k).selectResult < 0 := (waitForPacket_neg _).mpr hsignal
    rw [client_succ, step_select hpc, resume_established hs hx, transferReady,
      if_neg (by omega), if_pos hneg]
    rfl
  | behind hrank _ _ _ =>
    rw [hs] at hrank
    exact absurd hrank (by decide)

/-- The transfer loop does not go on for ever. -/
theorem loop_ends (k : ℕ) (htime : r.TimePasses) : ∃ n > k, ¬ (r.client n).Looping := by
  apply leaves r.client Looping baseNumber (fun n _ _ => (r.client n).baseNumber_le)
  intro m hm hloop
  have hfed (n : ℕ) (hn : n ≥ m) : (r.client n).baseNumber < (r.client (n + 1)).baseNumber ∨
      (r.client n).baseNumber = (r.client (n + 1)).baseNumber ∧
        (r.client (n + 1)).lastProgressMs = (r.client n).lastProgressMs := by
    obtain ⟨acks, hp⟩ := r.paced n
    exact (hloop n hn).fed (hloop (n + 1) (Nat.le_succ_of_le hn)) hp
  by_contra hstays
  -- with the base standing still the watchdog is not fed, and time passes
  have hkept : ∀ n ≥ m, (r.client n).baseNumber = (r.client m).baseNumber ∧
      (r.client n).lastProgressMs = (r.client m).lastProgressMs := by
    intro n hn
    induction n, hn using Nat.le_induction with
    | base => exact ⟨rfl, rfl⟩
    | succ n hn ih =>
      rcases hfed n hn with hlt | ⟨hbase, hlast⟩
      · rw [ih.1] at hlt
        exact absurd ⟨n + 1, Nat.le_succ_of_le hn, hlt⟩ hstays
      · exact ⟨hbase.symm.trans ih.1, hlast.trans ih.2⟩
  obtain ⟨n, hn, hexp, hexp'⟩ := htime _ (r.reading_lastProgress m) m
  have hexpired : (r.client n).expired r.config (r.env n) = true := by
    rw [expired, (hkept n hn).2]
    exact hexp
  have hexpired' : (r.client (n + 1)).expired r.config (r.env (n + 1)) = true := by
    rw [expired, (hkept (n + 1) (Nat.le_succ_of_le hn)).2]
    exact hexp'
  have hnext := hloop (n + 1) (Nat.le_succ_of_le hn)
  rcases (hloop n hn).pc with hpc | ⟨ms, hpc⟩
  · exact (hloop n hn).expires hpc hexpired hnext
  · have hpc' := (hloop n hn).turns r.config (r.env n) hpc hnext
    exact hnext.expires hpc' hexpired' (hloop (n + 2) (hn.trans (Nat.le_add_right n 2)))

/-- ESTABLISHED is left once. -/
theorem established_between {i j n : ℕ} (hi : (r.client i).state = .established)
    (hj : (r.client j).state = .established) (hin : i ≤ n) (hnj : n ≤ j) :
    (r.client n).state = .established := by
  have hlo : (r.client i).state.rank ≤ (r.client n).state.rank := r.rank_mono hin
  have hhi : (r.client n).state.rank ≤ (r.client j).state.rank := r.rank_mono hnj
  rw [hi] at hlo
  rw [hj] at hhi
  cases hs : (r.client n).state with
  | established => rfl
  | closed => rw [hs] at hlo; exact absurd hlo (by decide)
  | synSent => rw [hs] at hlo; exact absurd hlo (by decide)
  | finWait => rw [hs] at hhi; exact absurd hhi (by decide)
  | timeWait => rw [hs] at hhi; exact absurd hhi (by decide)
  | done => rw [hs] at hhi; exact absurd hhi (by decide)

section Loop

variable {n : ℕ} {x : Transfer}

theorem looping_succ (hloop : (r.client n).Looping)
    (hnext : (r.client (n + 1)).state = .established) : (r.client (n + 1)).Looping := by
  obtain ⟨acks, hp⟩ := r.paced n
  have hstopping : (r.client (n + 1)).Stopping := established_stopping hp hloop.state
  cases hstopping with
  | looping h => exact h
  | leaving hs _ => exact absurd (hnext.symm.trans hs) (by decide)
  | exited h => exact absurd (hnext.symm.trans h.state) (by decide)

/-- The ACK that makes room is followed by a turn that reads. -/
theorem reads_behind_ack {h : RDTHeader} (d : ℕ) (hp : (r.client n).Pending x)
    (hloop : (r.client n).Looping)
    (hfirst : ∀ j, n ≤ j → j < n + d → ∀ h, ¬ TakesAckFor x (r.client j) (r.env j) h)
    (hack : TakesAckFor x (r.client (n + d)) (r.env (n + d)) h)
    (hroom : x.gbn.nextseqnum < h.ackNum + UInt32.ofNat windowSize)
    (hlive : progressTimeoutReached
      (markProgress (r.client n).lastProgressMs (r.env (n + d)).markMs) r.config.timeout
      (r.env (n + d + 1)).checkMs = false) :
    ∃ m ≥ n, (r.client m).TurnReads r.config (r.env m) := by
  induction d generalizing n x with
  | zero =>
    obtain ⟨acks, hpaced⟩ := r.paced n
    rw [Nat.add_zero] at hack hlive
    obtain ⟨x', hslides⟩ := hack.advances r.config hloop hpaced hp.xfer
    refine ⟨n + 1, Nat.le_succ n, hslides.pc, ?_, x', ?_, ?_⟩
    · rw [expired, client_succ, hslides.last]
      exact hlive
    · refine ⟨hslides.state, hslides.xfer, hslides.same.eof.trans hp.eof, ?_⟩
      rw [client_succ, hslides.file]
      exact hp.chunk
    · rw [Transfer.Room, hslides.same.base, hslides.same.next]
      exact hroom
  | succ d ih =>
    by_cases hreads : (r.client n).TurnReads r.config (r.env n)
    · exact ⟨n, Nat.le_refl n, hreads⟩
    · obtain ⟨acks, hpaced⟩ := r.paced n
      have hnext : (r.client (n + 1)).state = .established :=
        established_between hloop.state hack.state (Nat.le_succ n) (by omega)
      cases hloop.unread hpaced hp.xfer hreads with
      | left hleft => exact absurd hnext hleft
      | ended _ _ _ hnone =>
        obtain ⟨chunk, rest, hf⟩ := hp.chunk
        exact absurd hf (hnone chunk rest)
      | advances _ h' hack' _ => exact absurd hack' (hfirst n (Nat.le_refl n) (by omega) h')
      | waits x' hholds _ =>
        rw [show n + (d + 1) = n + 1 + d by omega] at hack hlive hfirst
        have hpending : (r.client (n + 1)).Pending x' :=
          (hholds.pending_iff hloop.state hp.xfer hnext).mpr hp
        obtain ⟨m, hm, hreads⟩ := ih hpending (looping_succ hloop hnext)
          (fun j hj hjd h => fun hack =>
            hfirst j (by omega) hjd h ((TakesAckFor.congr hholds.same).mp hack))
          ((TakesAckFor.congr hholds.same).mpr hack) (by rw [hholds.same.next]; exact hroom)
          (by rw [client_succ, hholds.last]; exact hlive)
        exact ⟨m, by omega, hreads⟩

/-- A transfer that goes on reads a chunk. -/
theorem GoesOn.reads (hg : r.GoesOn n) (hloop : (r.client n).Looping) :
    ∃ m ≥ n, (r.client m).TurnReads r.config (r.env m) := by
  cases hg with
  | turn x hp hroom hpc hlive => exact ⟨n, Nat.le_refl n, ⟨hpc, hlive, x, hp, hroom⟩⟩
  | ack x hp m hnm hfirst h hack hroom hlive =>
    obtain ⟨d, rfl⟩ := Nat.exists_eq_add_of_le hnm
    exact reads_behind_ack d hp hloop hfirst hack hroom hlive

/-- Once an acknowledgement has moved the base and there is no room, the limit of the window has
wrapped around and stays below `nextseqnum`. -/
theorem room_wraps {base next ack ack' : UInt32} (hfits : next.toNat ≤ base.toNat + windowSize)
    (hack : base < ack ∧ ack ≤ next) (hfull : ¬ next < ack + UInt32.ofNat windowSize)
    (hack' : ack < ack' ∧ ack' ≤ next) : ¬ next < ack' + UInt32.ofNat windowSize := by
  have hsize : (UInt32.ofNat windowSize).toNat = 30 := rfl
  rw [UInt32.lt_iff_toNat_lt, UInt32.le_iff_toNat_le] at hack hack'
  rw [UInt32.lt_iff_toNat_lt, UInt32.toNat_add, hsize] at hfull ⊢
  simp only [windowSize] at hfits
  have hlt := ack'.toNat_lt
  omega

theorem GoesOn.pending (hg : r.GoesOn n) : ∃ x, (r.client n).Pending x := by
  cases hg with
  | turn x hp => exact ⟨x, hp⟩
  | ack x hp => exact ⟨x, hp⟩

/-- Behind an activation of the loop that changes nothing. -/
theorem GoesOn.back_waits {x' : Transfer} (hg : r.GoesOn (n + 1)) (hloop : (r.client n).Looping)
    (hx : (r.client n).xfer = some x)
    (hfull : ∀ ms, (r.client n).pc = .select ms → x.eofReached = true ∨ ¬ x.Room)
    (hreads : ¬ (r.client n).TurnReads r.config (r.env n))
    (hholds : (r.client n).HoldsWindow x (r.client (n + 1)) x')
    (hnone : ∀ h, ¬ TakesAckFor x (r.client n) (r.env n) h) : r.GoesOn n := by
  have hpending {y : Transfer} (hy : (r.client (n + 1)).Pending y) :
      y = x' ∧ (r.client n).Pending x := by
    obtain rfl := Option.some.inj (hy.xfer.symm.trans hholds.xfer)
    exact ⟨rfl, (hholds.pending_iff hloop.state hx hy.state).mp hy⟩
  cases hg with
  | turn y hy hroom hpc hlive =>
    obtain ⟨rfl, hp⟩ := hpending hy
    rw [Transfer.Room, hholds.same.base, hholds.same.next] at hroom
    rcases hloop.pc with hpc' | ⟨ms, hpc'⟩
    · have hexpired : (r.client n).expired r.config (r.env n) = true := by
        by_contra hlive'
        exact hreads ⟨hpc', Bool.eq_false_of_not_eq_true hlive', x, hp, hroom⟩
      exact absurd (looping_succ hloop hy.state) (hloop.expires hpc' hexpired)
    · rcases hfull ms hpc' with heof | hno
      · exact absurd (hp.eof.symm.trans heof) Bool.false_ne_true
      · exact absurd hroom hno
  | ack y hy m hm hfirst h hack hroom hlive =>
    obtain ⟨rfl, hp⟩ := hpending hy
    rw [hholds.same.next] at hroom
    rw [hholds.last] at hlive
    refine .ack x hp m (by omega) ?_ h ((TakesAckFor.congr hholds.same).mp hack) hroom hlive
    intro j hj hjm h' hack'
    rcases hj.eq_or_lt with rfl | hlt
    · exact hnone h' hack'
    · exact hfirst j hlt hjm h' ((TakesAckFor.congr hholds.same).mpr hack')

/-- Behind an activation that moves the base. -/
theorem GoesOn.back_slides {x' : Transfer} {h : RDTHeader} (hg : r.GoesOn (n + 1))
    (hloop : (r.client n).Looping) (hx : (r.client n).xfer = some x)
    (hfits : x.gbn.nextseqnum.toNat ≤ x.gbn.base.toNat + windowSize)
    (hack : TakesAckFor x (r.client n) (r.env n) h)
    (hslides : (r.client n).SlidesTo x (r.env n) h (r.client (n + 1)) x') : r.GoesOn n := by
  obtain ⟨y, hy⟩ := hg.pending
  obtain rfl := Option.some.inj (hy.xfer.symm.trans hslides.xfer)
  have hp : (r.client n).Pending x := by
    refine ⟨hloop.state, hx, hslides.same.eof.symm.trans hy.eof, ?_⟩
    rw [← hslides.file]
    exact hy.chunk
  have hroom : y.Room ↔ x.gbn.nextseqnum < h.ackNum + UInt32.ofNat windowSize := by
    rw [Transfer.Room, hslides.same.base, hslides.same.next]
  by_cases hfull : y.Room
  · refine .ack x hp n (Nat.le_refl n) (fun j hj hjn => absurd hj (Nat.not_le.mpr hjn)) h hack
      (hroom.mp hfull) ?_
    rw [← hslides.last]
    -- were the watchdog expired, the turn that begins now would be the last one
    by_contra hexpired
    have hexpired' : (r.client (n + 1)).expired r.config (r.env (n + 1)) = true :=
      Bool.eq_true_of_not_eq_false hexpired
    have hloop' : (r.client (n + 1)).Looping := ⟨hslides.state, Or.inl hslides.pc, y, hslides.xfer⟩
    cases hg with
    | turn _ _ _ _ hlive => exact hexpired hlive
    | ack _ _ m hm _ h' hack' _ _ =>
      rcases hm.eq_or_lt with rfl | hlt
      · exact hack'.waits hslides.pc
      · have hnext := established_between hslides.state hack'.state (Nat.le_succ (n + 1)) hlt
        exact hloop'.expires hslides.pc hexpired' (looping_succ hloop' hnext)
  · cases hg with
    | turn z hz hroom' _ _ =>
      rw [Option.some.inj (hz.xfer.symm.trans hslides.xfer)] at hroom'
      exact absurd hroom' hfull
    | ack z hz m hm _ h' hack' hroom' _ =>
      have hin := hack'.inside
      rw [Option.some.inj (hz.xfer.symm.trans hslides.xfer), hslides.same.next] at hroom'
      rw [Option.some.inj (hz.xfer.symm.trans hslides.xfer), hslides.same.base,
        hslides.same.next] at hin
      exact absurd hroom' (room_wraps hfits hack.inside (fun hlt => hfull (hroom.mpr hlt)) hin)

/-- What goes on behind an activation that reads nothing goes on before it. -/
theorem GoesOn.back (hg : r.GoesOn (n + 1)) (hloop : (r.client n).Looping)
    (hfull : ∀ ms x, (r.client n).pc = .select ms → (r.client n).xfer = some x →
      x.eofReached = true ∨ ¬ x.Room)
    (hreads : ¬ (r.client n).TurnReads r.config (r.env n)) : r.GoesOn n := by
  obtain ⟨acks, hpaced⟩ := r.paced n
  obtain ⟨x, sent, hx, hpaces⟩ := hloop.paces hpaced
  obtain ⟨y, hy⟩ := hg.pending
  cases hloop.unread hpaced hx hreads with
  | left hleft => exact absurd hy.state hleft
  | ended x' hx' heof _ =>
    rw [← Option.some.inj (hy.xfer.symm.trans hx'), hy.eof] at heof
    exact absurd heof Bool.false_ne_true
  | waits x' hholds hnone =>
    exact hg.back_waits hloop hx (fun ms hpc => hfull ms x hpc hx) hreads hholds hnone
  | advances x' h hack hslides =>
    exact hg.back_slides hloop hx hpaces.represents.fits hack hslides

end Loop

/-- The loop waits only with a full window or behind the end of the file. -/
theorem select_full {k n ms : ℕ} {x : Transfer} (hs : (r.client k).state = .established)
    (hn : n > k) (hnext : (r.client n).state = .established)
    (hpc : (r.client n).pc = .select ms) (hx : (r.client n).xfer = some x) :
    x.eofReached = true ∨ ¬ x.Room := by
  obtain ⟨m, rfl⟩ : ∃ m, n = m + 1 := ⟨n - 1, by omega⟩
  obtain ⟨acks, hp⟩ := r.paced m
  have hm := established_between hs hnext (Nat.le_of_lt_succ hn) (Nat.le_succ m)
  exact waits_full hp hm hnext hpc hx

section Stop

variable {k : ℕ} (hs : (r.client k).state = .established)
  (hstop : ∀ n > k, (r.env n).stopRequested = true)

include hs hstop

theorem stopping : ∀ n > k, (r.client n).Stopping := by
  apply states_invariant
  · obtain ⟨acks, hp⟩ := r.paced k
    exact established_stopping hp hs
  · intro n hn h
    obtain ⟨acks, hp⟩ := r.paced n
    exact h.step hp (hstop n hn)

theorem noFin (n : ℕ) : NoFin (r.sends n) := by
  obtain ⟨acks, hp⟩ := r.paced n
  rcases Nat.lt_or_ge k n with hn | hn
  · exact (stopping hs hstop n hn).noFin hp (hstop n hn)
  · apply hp.noFin
    have hrank : (r.client n).state.rank ≤ (r.client k).state.rank := r.rank_mono hn
    rw [hs] at hrank
    exact hrank

/-- The chunks to come and the next number, from the turn after the flag on. -/
theorem frozen (hno : ∀ n > k, ¬ (r.client n).TurnReads r.config (r.env n)) : ∀ n > k,
    chunksOf (r.client n).file = chunksOf (r.client (k + 1)).file ∧
      (r.client n).nextNumber = (r.client (k + 1)).nextNumber := by
  intro n hn
  induction n, hn using Nat.le_induction with
  | base => exact ⟨rfl, rfl⟩
  | succ n hn ih =>
    obtain ⟨acks, hp⟩ := r.paced n
    have hstill := (stopping hs hstop n hn).still hp (hstop n hn) (hno n hn)
    exact ⟨hstill.file.trans ih.1, hstill.unmoved.trans ih.2⟩

/-- Once the flag is set, nor does the client. -/
theorem run_returns (htime : r.TimePasses) : ∃ n > k, ∃ code, (r.client n).pc = .returned code := by
  have hend (n : ℕ) (h : (r.client n).Exited False) :
      ∃ code, (r.client (n + 1)).pc = .returned code := by
    rw [client_succ]
    rcases h.pc with hpc | hpc
    · rw [step_fsm hpc, runClient_done h.state]
      exact ⟨_, rfl⟩
    · rw [step_returned hpc]
      exact ⟨_, hpc⟩
  obtain ⟨n, hn, hleft⟩ := r.loop_ends k htime
  cases stopping hs hstop n hn with
  | looping h => exact absurd h hleft
  | exited h => exact ⟨n + 1, Nat.lt_succ_of_lt hn, hend n h⟩
  | leaving hst hpc =>
    have hexited : (r.client (n + 1)).Exited False := by
      rw [client_succ, step_fsm hpc, runClient_finWait hst, if_pos (hstop n hn)]
      exact ⟨rfl, Or.inl rfl, (by decide : exSoftware ≠ exOk)⟩
    exact ⟨n + 2, by omega, hend (n + 1) hexited⟩

/-- A later turn reads a chunk exactly if the transfer goes on. -/
theorem goesOn_iff :
    r.GoesOn (k + 1) ↔ ∃ n > k, (r.client n).TurnReads r.config (r.env n) := by
  have hloop {n : ℕ} (hn : n > k) (h : (r.client n).state = .established) :
      (r.client n).Looping := by
    cases stopping hs hstop n hn with
    | looping h => exact h
    | leaving h' _ => exact absurd (h.symm.trans h') (by decide)
    | exited h' => exact absurd (h.symm.trans h'.state) (by decide)
  constructor
  · intro hg
    obtain ⟨x, hp⟩ := hg.pending
    exact hg.reads (hloop (Nat.lt_succ_self k) hp.state)
  · intro hreads
    obtain ⟨m, hm, hreads⟩ := hreads
    -- backwards from the turn that reads
    have hback (d n : ℕ) (hn : n > k) (hnm : n + d = m) : r.GoesOn n := by
      induction d generalizing n with
      | zero =>
        obtain rfl : n = m := hnm
        obtain ⟨hpc, hlive, x, hp, hroom⟩ := hreads
        exact .turn x hp hroom hpc hlive
      | succ d ih =>
        obtain ⟨_, _, _, hpending, _⟩ := hreads
        have hstate := established_between hs hpending.state hn.le (by omega : n ≤ m)
        by_cases hnow : (r.client n).TurnReads r.config (r.env n)
        · obtain ⟨hpc, hlive, x, hp, hroom⟩ := hnow
          exact .turn x hp hroom hpc hlive
        · exact (ih (n + 1) (Nat.lt_succ_of_lt hn) (by omega)).back (hloop hn hstate)
            (fun ms x hpc hx => select_full hs hn hstate hpc hx) hnow
    exact hback (m - (k + 1)) (k + 1) (Nat.lt_succ_self k) (by omega)

end Stop

/-- The stop flag ends a running transfer exactly if what it meets, and what comes in behind it,
does not make the transfer go on; a FIN or the exit code `EX_OK` there is in no case. -/
theorem stop_ends_transfer_iff (r : ClientRun Addr) (k : ℕ)
    (hs : (r.client k).state = .established) (hstop : ∀ n > k, (r.env n).stopRequested = true) :
    r.StopsTransfer k ↔ ¬ r.GoesOn (k + 1) := by
  rw [goesOn_iff hs hstop]
  constructor
  · intro h hgoes
    obtain ⟨n, hn, hreads⟩ := hgoes
    have huses := hreads.uses
    have hnext := h.reads (n + 1) (Nat.lt_succ_of_lt hn)
    rw [client_succ] at hnext
    rw [hnext, h.reads n hn] at huses
    exact absurd huses (Nat.lt_irrefl _)
  · intro hgoes
    have hno : ∀ n > k, ¬ (r.client n).TurnReads r.config (r.env n) :=
      fun n hn hreads => hgoes ⟨n, hn, hreads⟩
    refine ⟨fun n hn => (frozen hs hstop hno n hn).1, ?_, ?_, ?_, run_returns hs hstop⟩
    · intro n hn o ho h payload hparse hdata
      obtain ⟨acks, hp⟩ := r.paced n
      have hstill := (stopping hs hstop n hn).still hp (hstop n hn) (hno n hn)
      obtain ⟨_, limit, hlimit, hlt⟩ := hstill.sends.parsed ho hparse
      rw [(frozen hs hstop hno n hn).2, nextNumber, Option.map_eq_some_iff] at hlimit
      obtain ⟨x, hx, hnext⟩ := hlimit
      exact ⟨x, hx, by rw [hnext]; exact hlt⟩
    · intro n o ho h payload hparse
      exact (noFin hs hstop n).parsed ho hparse
    · intro n hn code hpc
      exact (stopping hs hstop n hn).returned hpc

/-- A transfer of 31 chunks with the flag set while the client waits behind its first window, which
holds 30; `wait` is how that wait goes. -/
def signalledRun (wait : Env Nat) : ClientRun Nat where
  config := ⟨10, none, none⟩
  serverAddr := 7
  startMs := 1
  input := List.replicate 31 (.bytes ⟨[33], by decide⟩)
  env n := [Env.calm Nat 1, Env.calm Nat 1,
    Env.arrival 7 (encode 100 1 9 (flagSyn ||| flagAck) []) 1, Env.calm Nat 1, Env.calm Nat 1,
    { wait with stopRequested := true }].getD n
      { Env.calm Nat (UInt64.ofNat n) with stopRequested := true }

theorem signalledRun_stop (wait : Env Nat) :
    ∀ n > 5, ((signalledRun wait).env n).stopRequested = true := by
  intro n hn
  obtain ⟨m, rfl⟩ : ∃ m, n = m + 6 := ⟨n - 6, by omega⟩
  rfl

/-- A `select` that the signal interrupts ends the transfer. If none is interrupted and nothing is
acknowledged, the full window stands still until the watchdog expires. -/
theorem stop_ends_transfer_iff_signalled :
    (signalledRun { Env.calm Nat 1 with selectResult := -1 }).StopsTransfer 5 ∧
    (signalledRun (Env.calm Nat 1)).StopsTransfer 5 := by
  constructor
  · have hs : ((signalledRun { Env.calm Nat 1 with selectResult := -1 }).client 5).state =
        .established := by decide +kernel
    have hpc : ((signalledRun { Env.calm Nat 1 with selectResult := -1 }).client 5).pc =
        .select 250 := by decide +kernel
    have hleaves := interrupted_leaves hs hpc (by decide)
    refine (stop_ends_transfer_iff _ 5 hs (signalledRun_stop _)).mpr ?_
    intro hgoes
    obtain ⟨x, hpending⟩ := hgoes.pending
    exact absurd (hpending.state.symm.trans hleaves) (by decide)
  · have hs : ((signalledRun (Env.calm Nat 1)).client 5).state = .established := by
      decide +kernel
    have hwindow : ((signalledRun (Env.calm Nat 1)).client 6).xfer.map
        (fun x => (x.gbn.base, x.gbn.nextseqnum)) = some (1, 31) := by decide +kernel
    refine (stop_ends_transfer_iff _ 5 hs (signalledRun_stop _)).mpr ?_
    intro hgoes
    cases hgoes with
    | turn x hp hroom _ _ =>
      rw [hp.xfer, Option.map_some, Option.some.injEq, Prod.mk.injEq] at hwindow
      rw [Transfer.Room, hwindow.1, hwindow.2] at hroom
      exact absurd hroom (by decide)
    | ack x _ m hm _ h hack _ _ =>
      obtain ⟨n, rfl⟩ := Nat.exists_eq_add_of_le' hm
      have ht := hack.taken
      rw [taken] at ht
      split_ifs at ht
      exact absurd (show none = some h from ht) (by simp)

/-- An ACK that comes in together with the signal makes room for the last chunk. -/
theorem transfer_goes_on :
    ¬ ∀ (r : ClientRun Nat) (k : ℕ), (r.client k).state = .established →
      (∀ n > k, (r.env n).stopRequested = true) → r.StopsTransfer k := by
  intro hall
  have hstops : (signalledRun (Env.arrival 7 (encode 101 6 9 flagAck []) 1)).StopsTransfer 5 := by
    apply hall
    · decide +kernel
    · exact signalledRun_stop _
  have hlen := congrArg List.length (hstops.reads 7 (by decide))
  exact absurd hlen (by decide +kernel)

end ClientRun

end ReliableUdp
