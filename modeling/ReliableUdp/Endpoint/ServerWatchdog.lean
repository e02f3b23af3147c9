import ReliableUdp.Endpoint.ExitCode

namespace ReliableUdp

open Machine

variable {Addr : Type}

namespace Server

instance (s : Server Addr) : Decidable s.Open := inferInstanceAs (Decidable (_ ∨ _))

/-- The number of the DATA packet of the session that an activation in HANDSHAKE or ESTABLISHED
takes from the socket. -/
def numbers (s : Server Addr) (e : Env Addr) : List UInt32 :=
  if s.Open ∧ s.receives e = true then
    ((recvPacket e s.clientAddr).2.toOption.toList.filter (fun r => s.IsData r.1)).map
      (fun r => r.1.seqNum)
  else []

/-- The numbers of the DATA packets received so far in the session. -/
abbrev received (config : AppConfig) (s : Server Addr) (es : List (Env Addr)) : List UInt32 :=
  logged (step config) numbers s es

/-- In ESTABLISHED the activation updates `last_progress_ms`: with some reading of the clock it
changes. -/
def Updates (config : AppConfig) (s : Server Addr) (e : Env Addr) : Prop :=
  s.state = .established ∧
    ∃ ms, (s.step config { e with markMs := ms }).1.lastProgressMs ≠ s.lastProgressMs

/-- A FIN is accepted. -/
def AcceptsFin (config : AppConfig) (s : Server Addr) (e : Env Addr) : Prop :=
  s.state = .established ∧ (s.step config e).1.state = .lastAck

instance (config : AppConfig) (s : Server Addr) (e : Env Addr) :
    Decidable (s.AcceptsFin config e) := inferInstanceAs (Decidable (_ ∧ _))

/-- What `handle_established` takes for progress: the packet is a FIN whose FIN+ACK could be sent,
or a DATA packet that is written in full, or a DATA packet with a number above the expected one. -/
def Counts (s : Server Addr) (e : Env Addr) (h : RDTHeader) (payload : List UInt8) : Prop :=
  h.flags = flagFin ∧ h.connId = s.connection.connId ∧ h.seqNum = s.connection.ackNum ∧
      e.sendto s.connection.seqNum = true ∨
    s.IsData h ∧ (h.seqNum = s.connection.ackNum ∧ written e payload = payload.length ∨
      s.connection.ackNum < h.seqNum)

instance (s : Server Addr) (e : Env Addr) (h : RDTHeader) (payload : List UInt8) :
    Decidable (s.Counts e h payload) := inferInstanceAs (Decidable (_ ∨ _))

end Server

open Server

/-- What one activation in ESTABLISHED does to `last_progress_ms` and to the state. -/
inductive WatchdogMove (s : Server Addr) (e : Env Addr) (next : Server Addr) : Prop where
  /-- nothing that counts was taken from the socket -/
  | still (taken : ∀ h payload, s.taken e = some (h, payload) → ¬ s.Counts e h payload)
      (kept : next.lastProgressMs = s.lastProgressMs)
      (state : next.state = .done ∨ next.state = .established ∧
        (s.pc = .fsm ∨ next.pc = .fsm ∨ ∃ code, s.pc = .returned code))
  | data (h : RDTHeader) (payload : List UInt8) (taken : s.taken e = some (h, payload))
      (isData : s.IsData h) (counts : s.Counts e h payload)
      (marked : next.lastProgressMs = markProgress s.lastProgressMs e.markMs)
      (state : next.state = .done ∨ next.state = .established)
  | fin (h : RDTHeader) (payload : List UInt8) (taken : s.taken e = some (h, payload))
      (counts : s.Counts e h payload)
      (marked : next.lastProgressMs = markProgress s.lastProgressMs e.markMs)
      (state : next.state = .lastAck)

section Moves

variable {config : AppConfig} {s : Server Addr} {e : Env Addr}

theorem WatchdogMove.idle (hr : s.receives e = false) {next : Server Addr}
    (hkept : next.lastProgressMs = s.lastProgressMs)
    (hst : next.state = .done ∨ next.state = .established ∧
      (s.pc = .fsm ∨ next.pc = .fsm ∨ ∃ code, s.pc = .returned code)) : WatchdogMove s e next := by
  apply WatchdogMove.still _ hkept hst
  intro h payload ht
  rw [taken, if_neg (fun hcon => by rw [hr] at hcon; exact absurd hcon.2 (by decide))] at ht
  exact absurd ht (by simp)

theorem WatchdogMove.uncounted {h : RDTHeader} {payload : List UInt8}
    (ht : s.taken e = some (h, payload)) {next : Server Addr}
    (hkept : next.lastProgressMs = s.lastProgressMs)
    (hst : next.state = .done ∨ next.state = .established ∧
      (s.pc = .fsm ∨ next.pc = .fsm ∨ ∃ code, s.pc = .returned code))
    (hno : ¬ s.Counts e h payload) : WatchdogMove s e next := by
  apply WatchdogMove.still _ hkept hst
  intro h' payload' ht'
  obtain ⟨rfl, rfl⟩ := Prod.mk.inj (Option.some.inj (ht.symm.trans ht'))
  exact hno

theorem receives_select {ms : Nat} (hpc : s.pc = .select ms) (hs : s.state = .established) :
    s.receives e = decide (e.selectResult > 0) := by
  simp only [receives, hpc, hs]

/-- A reply leaves the server as it is behind the reply, or ends it. -/
theorem reply_lastProgress {s' next : Server Addr} {flags : UInt8} {ms : UInt64}
    (hs : s'.lastProgressMs = ms) (hn : next.lastProgressMs = ms) :
    (s'.reply e flags next).1.lastProgressMs = ms := by
  rw [Server.reply]
  split_ifs
  · exact hn
  · exact hs

theorem reply_state (s' next : Server Addr) (e : Env Addr) (flags : UInt8) :
    (s'.reply e flags next).1.state = .done ∨ (s'.reply e flags next).1 = next := by
  rw [Server.reply]
  split_ifs
  · exact Or.inr rfl
  · exact Or.inl rfl

theorem dataPacket_watchdog {h : RDTHeader} {payload : List UInt8} (src : Addr)
    (ht : s.taken e = some (h, payload)) (hd : s.IsData h) :
    WatchdogMove s e ({ s with clientAddr := src }.dataPacket e h payload).1 := by
  have hnofin : h.flags ≠ flagFin := by
    rw [hd.1]
    decide
  have hreply {s' next : Server Addr} (hn : next.state = .established) :
      (s'.reply e flagAck next).1.state = .done ∨
        (s'.reply e flagAck next).1.state = .established := by
    rcases reply_state s' next e flagAck with hdone | heq
    · exact Or.inl hdone
    · rw [heq]
      exact Or.inr hn
  rw [Server.dataPacket]
  dsimp only
  split_ifs with hnext hshort habove
  · refine .uncounted ht rfl (Or.inl rfl) ?_
    intro hcon
    rcases hcon with ⟨hf, _⟩ | ⟨_, ⟨_, hfull⟩ | hlt⟩
    · exact hnofin hf
    · exact hshort hfull
    · rw [hnext] at hlt
      exact absurd hlt (UInt32.lt_irrefl _)
  · exact .data h payload ht hd (Or.inr ⟨hd, Or.inl ⟨hnext, not_not.mp hshort⟩⟩)
      (reply_lastProgress rfl rfl) (hreply rfl)
  · exact .data h payload ht hd (Or.inr ⟨hd, Or.inr habove⟩)
      (reply_lastProgress rfl rfl) (hreply rfl)
  · refine .uncounted ht (reply_lastProgress rfl rfl) ?_ ?_
    · rcases reply_state { s with clientAddr := src }
        ({ s with clientAddr := src }.goto .established) e flagAck with hdone | heq
      · exact Or.inl hdone
      · rw [heq]
        exact Or.inr ⟨rfl, Or.inr (Or.inl rfl)⟩
    · intro hcon
      rcases hcon with ⟨hf, _⟩ | ⟨_, ⟨hcon, _⟩ | hlt⟩
      · exact hnofin hf
      · exact hnext hcon
      · exact habove hlt

theorem establishedPacket_watchdog {h : RDTHeader} {payload : List UInt8} (src : Addr)
    (ht : s.taken e = some (h, payload)) :
    WatchdogMove s e ({ s with clientAddr := src }.establishedPacket e h payload).1 := by
  rw [establishedPacket]
  split_ifs with hfin hdata
  · dsimp only
    by_cases hsent : e.sendto s.connection.seqNum = true
    · have hcounts : s.Counts e h payload :=
        Or.inl ⟨hfin.1, hfin.2.1, hfin.2.2, hsent⟩
      rw [Server.reply, if_pos (by exact hsent)]
      exact .fin h payload ht hcounts rfl rfl
    · rw [Server.reply, if_neg (by exact hsent)]
      refine .uncounted ht rfl (Or.inl rfl) ?_
      intro hcon
      rcases hcon with ⟨_, _, _, hcon⟩ | ⟨⟨hcon, _⟩, _⟩
      · exact hsent hcon
      · exact absurd (hfin.1.symm.trans hcon) (by decide)
  · exact dataPacket_watchdog src ht hdata
  · refine .uncounted ht rfl (Or.inr ⟨rfl, Or.inr (Or.inl rfl)⟩) ?_
    intro hcon
    rcases hcon with ⟨hf, hc, hseq, _⟩ | ⟨hd, _⟩
    · exact hfin ⟨hf, hc, hseq⟩
    · exact hdata hd

/-- Every activation in ESTABLISHED. -/
theorem established_watchdog (config : AppConfig) (hs : s.state = .established) :
    WatchdogMove s e (s.step config e).1 := by
  cases hpc : s.pc with
  | returned code =>
    rw [step_returned hpc]
    exact .idle (by simp [receives, hpc]) rfl (Or.inr ⟨hs, Or.inr (Or.inr ⟨code, hpc⟩)⟩)
  | fsm =>
    have hr : s.receives e = false := by simp [receives, hpc]
    rw [step_fsm hpc, runServer_running (by rw [hs]; decide), enter]
    split_ifs
    · exact .idle hr rfl (Or.inl rfl)
    · exact .idle hr rfl (Or.inl rfl)
    · exact .idle hr rfl (Or.inr ⟨hs, Or.inl hpc⟩)
  | select ms =>
    have hr := receives_select (e := e) hpc hs
    rw [step_select hpc, resume_established hs, establishedReady, ready]
    split_ifs with h0 hexp hneg
    · rw [waitForPacket_eq_zero] at h0
      exact .idle (by rw [hr, h0]; rfl) rfl (Or.inl rfl)
    · rw [waitForPacket_eq_zero] at h0
      exact .idle (by rw [hr, h0]; rfl) rfl (Or.inr ⟨hs, Or.inr (Or.inl rfl)⟩)
    · rw [waitForPacket_neg] at hneg
      exact .idle (by rw [hr]; exact decide_eq_false (by omega)) rfl (Or.inl rfl)
    · have hpos := pos_of_waitForPacket h0 hneg
      rw [receive]
      cases hrecv : (recvPacket e s.clientAddr).2 with
      | error code =>
        refine WatchdogMove.still ?_ rfl (Or.inr ⟨hs, Or.inr (Or.inl rfl)⟩)
        intro h payload ht
        rw [taken, hrecv] at ht
        split_ifs at ht
        exact absurd ht (by simp [Except.toOption])
      | ok r =>
        apply establishedPacket_watchdog
        rw [taken, if_pos ⟨hs, by rw [hr]; exact decide_eq_true hpos⟩, hrecv]
        rfl

/-- An activation in ESTABLISHED updates `last_progress_ms` exactly for a packet that counts. -/
theorem Server.updates_iff : s.Updates config e ↔
    s.state = .established ∧ ∃ h payload, s.taken e = some (h, payload) ∧
      s.Counts e h payload := by
  constructor
  · intro hup
    obtain ⟨hs, ms, hne⟩ := hup
    refine ⟨hs, ?_⟩
    have hmove : WatchdogMove s { e with markMs := ms } (s.step config { e with markMs := ms }).1 :=
      established_watchdog config hs
    cases hmove with
    | still _ hkept _ => exact absurd hkept hne
    | data h payload ht _ hcounts _ _ => exact ⟨h, payload, ht, hcounts⟩
    | fin h payload ht hcounts _ _ => exact ⟨h, payload, ht, hcounts⟩
  · intro hcounted
    obtain ⟨hs, h, payload, ht, hcounts⟩ := hcounted
    obtain ⟨ms, hms⟩ := exists_markProgress_ne s.lastProgressMs
    refine ⟨hs, ms, ?_⟩
    have hmove : WatchdogMove s { e with markMs := ms } (s.step config { e with markMs := ms }).1 :=
      established_watchdog config hs
    cases hmove with
    | still hno _ _ => exact absurd hcounts (hno h payload ht)
    | data _ _ _ _ _ hmarked _ => rw [hmarked]; exact hms
    | fin _ _ _ _ hmarked _ => rw [hmarked]; exact hms

instance : Decidable (s.Updates config e) :=
  decidable_of_iff (s.state = .established ∧
      (s.taken e).any (fun r => decide (s.Counts e r.1 r.2)) = true) <| by
    rw [updates_iff, Option.any_eq_true]
    simp

/-- An update comes from a FIN that is accepted or from a DATA packet of the session. -/
theorem Server.Updates.source (h : s.Updates config e) : s.AcceptsFin config e ∨
    ∃ hd payload, s.taken e = some (hd, payload) ∧ s.IsData hd ∧ s.Counts e hd payload := by
  obtain ⟨hs, hd, payload, ht, hcounts⟩ := updates_iff.mp h
  have hmove : WatchdogMove s e (s.step config e).1 := established_watchdog config hs
  cases hmove with
  | still hno _ _ => exact absurd hcounts (hno hd payload ht)
  | data hd payload ht hdata hcounts _ _ => exact Or.inr ⟨hd, payload, ht, hdata, hcounts⟩
  | fin _ _ _ _ _ hst => exact Or.inl ⟨hs, hst⟩

theorem mem_numbers_of_taken {h : RDTHeader} {payload : List UInt8}
    (ht : s.taken e = some (h, payload)) (hd : s.IsData h) : h.seqNum ∈ s.numbers e := by
  rw [taken] at ht
  split_ifs at ht with hr
  rw [numbers, if_pos ⟨Or.inr hr.1, hr.2⟩, ht, List.mem_map]
  refine ⟨(h, payload), ?_, rfl⟩
  rw [List.mem_filter]
  exact ⟨by simp, decide_eq_true hd⟩

theorem taken_of_mem_numbers (hs : s.state = .established) {n : UInt32} (hn : n ∈ s.numbers e) :
    ∃ h payload, s.taken e = some (h, payload) ∧ s.IsData h ∧ h.seqNum = n := by
  rw [numbers] at hn
  split_ifs at hn with hr
  · obtain ⟨r, hmem, rfl⟩ := List.mem_map.mp hn
    rw [List.mem_filter, Option.mem_toList] at hmem
    refine ⟨r.1, r.2, ?_, of_decide_eq_true hmem.2, rfl⟩
    rw [taken, if_pos ⟨hs, hr.2⟩]
    exact hmem.1
  · exact absurd hn List.not_mem_nil

/-- A DATA packet counts by its number: expected and written, or above the expected one. -/
theorem Server.Counts.number {h : RDTHeader} {payload : List UInt8} (hc : s.Counts e h payload)
    (hd : s.IsData h) : h.seqNum = s.connection.ackNum ∧ written e payload = payload.length ∨
      s.connection.ackNum < h.seqNum := by
  rcases hc with ⟨hf, _⟩ | ⟨_, hnum⟩
  · exact absurd (hf.symm.trans hd.1) (by decide)
  · exact hnum

/-- The watchdog sees a turn of the loop. -/
theorem Server.turn_expired (hs : s.state = .established) (hpc : s.pc = .fsm)
    (hexp : s.expired config e = true) : (s.step config e).1.state = .done := by
  rw [step_fsm hpc, runServer_running (by rw [hs]; decide), enter, if_pos hexp]
  split_ifs
  · rfl
  · rfl

/-- What is left of a run in ESTABLISHED in which nothing counts. -/
theorem Server.still_run {es : List (Env Addr)} (hs : s.state = .established)
    (hpc : s.pc.Waiting)
    (hno : Always (step config) (fun s e => ¬ s.Updates config e) s es) :
    (after (step config) s es).state = .done ∨ (after (step config) s es).state = .established ∧
      (after (step config) s es).lastProgressMs = s.lastProgressMs ∧
      (after (step config) s es).pc.Waiting := by
  induction es using List.reverseRecOn with
  | nil => exact Or.inr ⟨hs, rfl, hpc⟩
  | append_singleton es e ih =>
    rw [always_snoc] at hno
    rw [after_snoc]
    rcases ih hno.1 with hd | ⟨hst, hlast, hwait⟩
    · exact Or.inl (step_done config hd e).1
    · have hmove : WatchdogMove (after (step config) s es) e
          ((after (step config) s es).step config e).1 := established_watchdog config hst
      cases hmove with
      | data h payload ht _ hcounts _ _ =>
        exact absurd (updates_iff.mpr ⟨hst, h, payload, ht, hcounts⟩) hno.2
      | fin h payload ht hcounts _ _ =>
        exact absurd (updates_iff.mpr ⟨hst, h, payload, ht, hcounts⟩) hno.2
      | still _ hkept hnext =>
        rcases hnext with hd | ⟨hst', _⟩
        · exact Or.inl hd
        · have hkeeps : (after (step config) s es).Keeps
              ((after (step config) s es).step config e) := step_keeps (by rw [hst]; decide) hwait
          rcases hkeeps with hd | ⟨_, hwait'⟩
          · exact Or.inl hd
          · exact Or.inr ⟨hst', hkept.trans hlast, hwait'⟩

/-- The watchdog is looked at in one of two activations. -/
theorem Server.two_expired {e' : Env Addr} (hs : s.state = .established) (hpc : s.pc.Waiting)
    (hno : ¬ s.Updates config e) (hexp : s.expired config e = true)
    (hexp' : s.expired config e' = true) :
    (after (step config) s [e, e']).state = .done := by
  change ((s.step config e).1.step config e').1.state = .done
  rcases hpc with hpc | ⟨ms, hpc⟩
  · exact (step_done config (turn_expired hs hpc hexp) e').1
  · have hmove : WatchdogMove s e (s.step config e).1 := established_watchdog config hs
    cases hmove with
    | data h payload ht _ hcounts _ _ =>
      exact absurd (updates_iff.mpr ⟨hs, h, payload, ht, hcounts⟩) hno
    | fin h payload ht hcounts _ _ =>
      exact absurd (updates_iff.mpr ⟨hs, h, payload, ht, hcounts⟩) hno
    | still _ hkept hnext =>
      rcases hnext with hd | ⟨hst, hcon | hfsm | ⟨code, hcon⟩⟩
      · exact (step_done config hd e').1
      · exact absurd (hpc.symm.trans hcon) (by simp)
      · apply turn_expired hst hfsm
        rw [expired, hkept]
        exact hexp'
      · exact absurd (hpc.symm.trans hcon) (by simp)

end Moves

section Runs

variable (config : AppConfig) (s₀ : Server Addr) (es : List (Env Addr))

/-- Only new packets count as progress in the run `es`. -/
structure ProgressIsNew : Prop where
  /-- a DATA packet with a number received before updates nothing -/
  repeats : ∀ pre e post, es = pre ++ e :: post →
    (∃ n ∈ (after (step config) s₀ pre).numbers e, n ∈ received config s₀ pre) →
    ¬ (after (step config) s₀ pre).Updates config e
  /-- nor does a malformed datagram or a packet of another connection -/
  useless : ∀ pre e post, es = pre ++ e :: post →
    (∀ h payload, (after (step config) s₀ pre).taken e = some (h, payload) →
      h.connId ≠ (after (step config) s₀ pre).connection.connId) →
    ¬ (after (step config) s₀ pre).Updates config e
  bounded : count (Updates config) (step config) s₀ es ≤ (received config s₀ es).toFinset.card +
    count (AcceptsFin config) (step config) s₀ es
  finOnce : count (AcceptsFin config) (step config) s₀ es ≤ 1
  /-- when only numbers come that were received by `pre`, the server ends once TIMEOUT is over -/
  exits : ∀ pre mid e e' post, es = pre ++ (mid ++ e :: e' :: post) →
    (after (step config) s₀ pre).state = .established →
    received config (after (step config) s₀ pre) (mid ++ [e]) ⊆ received config s₀ pre →
    count (AcceptsFin config) (step config) (after (step config) s₀ pre) (mid ++ [e]) = 0 →
    (after (step config) s₀ pre).expired config e = true →
    (after (step config) s₀ pre).expired config e' = true →
    (after (step config) s₀ (pre ++ (mid ++ [e, e']))).state = .done

/-- Whenever a DATA packet comes in ESTABLISHED whose number was received before, this number is
below the expected one, or it is the expected one and the write comes up short. -/
def RepeatsAreOld : Prop :=
  ∀ pre e post h payload, es = pre ++ e :: post →
    (after (step config) s₀ pre).taken e = some (h, payload) →
    (after (step config) s₀ pre).IsData h → h.seqNum ∈ received config s₀ pre →
    h.seqNum < (after (step config) s₀ pre).connection.ackNum ∨
      h.seqNum = (after (step config) s₀ pre).connection.ackNum ∧
        written e payload ≠ payload.length

variable {config s₀ es}

/-- A step that takes a repeated number updates nothing. -/
theorem RepeatsAreOld.not_updates (h : RepeatsAreOld config s₀ es) {pre : List (Env Addr)}
    {e : Env Addr} {post : List (Env Addr)} (hes : es = pre ++ e :: post) {n : UInt32}
    (hn : n ∈ (after (step config) s₀ pre).numbers e) (hrec : n ∈ received config s₀ pre) :
    ¬ (after (step config) s₀ pre).Updates config e := by
  intro hup
  obtain ⟨hs, hd, payload, ht, hcounts⟩ := updates_iff.mp hup
  obtain ⟨hd', payload', ht', hdata, rfl⟩ := taken_of_mem_numbers hs hn
  obtain ⟨rfl, rfl⟩ := Prod.mk.inj (Option.some.inj (ht.symm.trans ht'))
  rcases h pre e post hd payload hes ht hdata hrec with hlt | ⟨heq, hshort⟩
  · rcases hcounts.number hdata with ⟨heq, _⟩ | hgt
    · rw [heq] at hlt
      exact UInt32.lt_irrefl _ hlt
    · exact UInt32.lt_asymm hlt hgt
  · rcases hcounts.number hdata with ⟨_, hfull⟩ | hgt
    · exact hshort hfull
    · rw [heq] at hgt
      exact UInt32.lt_irrefl _ hgt

theorem updates_le_received (h : RepeatsAreOld config s₀ es) :
    count (Updates config) (step config) s₀ es ≤ (received config s₀ es).toFinset.card +
      count (AcceptsFin config) (step config) s₀ es := by
  apply count_le_card
  intro pre e post hes hup
  rcases hup.source with hfin | ⟨hd, payload, ht, hdata, _⟩
  · exact Or.inl hfin
  · have hmem := mem_numbers_of_taken ht hdata
    refine Or.inr ⟨hd.seqNum, hmem, ?_⟩
    intro hrec
    exact h.not_updates hes hmem hrec hup

/-- ESTABLISHED is behind the server. -/
def Server.Past (s : Server Addr) : Prop := s.state ≠ .listen ∧ ¬ s.Open

theorem Server.Past.step {s : Server Addr} (h : s.Past) (config : AppConfig) (e : Env Addr) :
    (s.step config e).1.Past := by
  refine ⟨step_running config e h.1, ?_⟩
  have hmove : ServerMove s e (s.step config e) := step_move
  cases hmove with
  | quiet _ _ _ hkept _ _ => exact fun ho => h.2 (hkept h.1 ho).1
  | acks hst _ _ _ _ _ => exact absurd (Or.inr hst) h.2
  | breaks hst _ _ _ _ _ _ => exact absurd (Or.inr hst) h.2

theorem acceptsFin_once (config : AppConfig) (s₀ : Server Addr) (es : List (Env Addr)) :
    count (AcceptsFin config) (step config) s₀ es ≤ 1 := by
  apply count_le_one (I := fun _ => True) (R := Server.Past)
  · intro s e _
    trivial
  · intro s e _ h
    refine ⟨by rw [h.2]; decide, ?_⟩
    intro ho
    rcases ho with hs | hs
    · exact absurd (h.2.symm.trans hs) (by decide)
    · exact absurd (h.2.symm.trans hs) (by decide)
  · intro s e _ h
    exact h.step config e
  · intro s e h hfin
    exact h.2 (Or.inr hfin.1)
  · trivial

/-- Behind `pre` nothing updates as long as only known numbers come and no FIN is accepted. -/
theorem RepeatsAreOld.still (h : RepeatsAreOld config s₀ es) {pre mid post : List (Env Addr)}
    (hes : es = pre ++ (mid ++ post))
    (hrec : received config (after (step config) s₀ pre) mid ⊆ received config s₀ pre)
    (hfin : count (AcceptsFin config) (step config) (after (step config) s₀ pre) mid = 0) :
    Always (step config) (fun s e => ¬ s.Updates config e) (after (step config) s₀ pre) mid := by
  intro pre' e post' hmid hup
  have hsplit : es = (pre ++ pre') ++ e :: (post' ++ post) := by
    rw [hes, hmid]
    simp
  rw [← after_append] at hup
  rcases hup.source with hacc | ⟨hd, payload, ht, hdata, _⟩
  · rw [hmid, count_append, count, ← after_append, if_pos hacc] at hfin
    omega
  · have hmem := mem_numbers_of_taken ht hdata
    have hknown : hd.seqNum ∈ received config s₀ pre := by
      apply hrec
      rw [received, hmid, logged_append, List.mem_append, logged, List.mem_append,
        ← after_append]
      exact Or.inr (Or.inl hmem)
    refine h.not_updates hsplit hmem ?_ hup
    rw [received, logged_append, List.mem_append]
    exact Or.inl hknown

theorem waiting_after (config : AppConfig) (clientAddr : Addr) (startMs : UInt64)
    (es : List (Env Addr))
    (hs : (after (step config) (init clientAddr startMs) es).state ≠ .done) :
    (after (step config) (init clientAddr startMs) es).pc.Waiting := by
  have hkeep : (after (step config) (init clientAddr startMs) es).OnTrack :=
    after_invariant (P := OnTrack) (fun s e h => h.step e) (Or.inr ⟨rfl, Or.inl rfl⟩) es
  rcases hkeep with hd | ⟨_, hpc⟩
  · exact absurd hd hs
  · exact hpc

/-- A server that hears only known numbers ends with the watchdog. -/
theorem RepeatsAreOld.exits {clientAddr : Addr} {startMs : UInt64}
    (h : RepeatsAreOld config (init clientAddr startMs) es) {pre mid post : List (Env Addr)}
    {e e' : Env Addr} (hes : es = pre ++ (mid ++ e :: e' :: post))
    (hs : (after (step config) (init clientAddr startMs) pre).state = .established)
    (hrec : received config (after (step config) (init clientAddr startMs) pre) (mid ++ [e]) ⊆
      received config (init clientAddr startMs) pre)
    (hfin : count (AcceptsFin config) (step config)
      (after (step config) (init clientAddr startMs) pre) (mid ++ [e]) = 0)
    (he : (after (step config) (init clientAddr startMs) pre).expired config e = true)
    (he' : (after (step config) (init clientAddr startMs) pre).expired config e' = true) :
    (after (step config) (init clientAddr startMs) (pre ++ (mid ++ [e, e']))).state = .done := by
  have hpc := waiting_after config clientAddr startMs pre (by rw [hs]; decide)
  have hsplit : es = pre ++ (mid ++ [e] ++ e' :: post) := by
    rw [hes]
    simp
  have hstill := h.still hsplit hrec hfin
  rw [always_snoc] at hstill
  rw [after_append, after_append]
  rcases still_run hs hpc hstill.1 with hd | ⟨hst, hlast, hwait⟩
  · exact (step_done config (step_done config hd e).1 e').1
  · apply two_expired hst hwait hstill.2
    · rw [expired, hlast]
      exact he
    · rw [expired, hlast]
      exact he'

/-- Only new packets count as progress exactly in the runs in which no repeated packet comes that
the server still takes for new. -/
theorem progress_is_new_iff (config : AppConfig) (clientAddr : Addr) (startMs : UInt64)
    (es : List (Env Addr)) : ProgressIsNew config (init clientAddr startMs) es ↔
      RepeatsAreOld config (init clientAddr startMs) es := by
  constructor
  · intro h pre e post hd payload hes ht hdata hrec
    have hs : (after (step config) (init clientAddr startMs) pre).state = .established := by
      rw [taken] at ht
      split_ifs at ht with hr
      exact hr.1
    have hno := h.repeats pre e post hes ⟨hd.seqNum, mem_numbers_of_taken ht hdata, hrec⟩
    have hcounts : ¬ Counts _ e hd payload :=
      fun hcon => hno (updates_iff.mpr ⟨hs, hd, payload, ht, hcon⟩)
    by_cases heq : hd.seqNum =
        (after (step config) (init clientAddr startMs) pre).connection.ackNum
    · exact Or.inr ⟨heq, fun hfull => hcounts (Or.inr ⟨hdata, Or.inl ⟨heq, hfull⟩⟩)⟩
    · left
      by_contra hge
      have hle := UInt32.not_lt.mp hge
      exact hcounts (Or.inr ⟨hdata, Or.inr (UInt32.lt_of_le_of_ne hle (Ne.symm heq))⟩)
  · intro h
    refine ⟨?_, ?_, updates_le_received h, acceptsFin_once config _ es, ?_⟩
    · intro pre e post hes hrep
      obtain ⟨n, hn, hrec⟩ := hrep
      exact h.not_updates hes hn hrec
    · intro pre e post _ hforeign hup
      obtain ⟨_, hd, payload, ht, hcounts⟩ := updates_iff.mp hup
      rcases hcounts with ⟨_, hc, _⟩ | ⟨hdata, _⟩
      · exact hforeign hd payload ht hc
      · exact hforeign hd payload ht hdata.2
    · intro pre mid e e' post hes hs hrec hfin he he'
      exact h.exits hes hs hrec hfin he he'

/-- After the handshake the packet 5 arrives, when the server waits for the packet 1, and comes
again every four seconds. -/
def repeatedTraffic : List (Env Nat) :=
  [.calm Nat 1000, straySyn, .calm Nat 1000, .arrival 1 (encode 1 1 1 flagAck []) 1000,
    .calm Nat 1000, .arrival 1 (encode 5 1 1 flagData [65]) 2000] ++
  ([.calm Nat 6000, .arrival 1 (encode 5 1 1 flagData [65]) 6000] ++
    [.calm Nat 10000, .arrival 1 (encode 5 1 1 flagData [65]) 10000])

/-- Eight seconds after the last new packet the server is still there, with a TIMEOUT of five. -/
theorem repeated_packet_feeds_watchdog :
    ¬ ∀ (config : AppConfig) (clientAddr : Nat) (startMs : UInt64) (es : List (Env Nat)),
      ProgressIsNew config (init clientAddr startMs) es := by
  intro hall
  have h := (hall strayConfig 0 1000 repeatedTraffic).exits
    [.calm Nat 1000, straySyn, .calm Nat 1000, .arrival 1 (encode 1 1 1 flagAck []) 1000,
      .calm Nat 1000, .arrival 1 (encode 5 1 1 flagData [65]) 2000]
    [.calm Nat 6000, .arrival 1 (encode 5 1 1 flagData [65]) 6000]
    (.calm Nat 10000) (.arrival 1 (encode 5 1 1 flagData [65]) 10000) [] rfl
    (by decide +kernel) (by decide +kernel) (by decide +kernel) (by decide +kernel)
    (by decide +kernel)
  exact absurd h (by decide +kernel)

end Runs

end ReliableUdp
