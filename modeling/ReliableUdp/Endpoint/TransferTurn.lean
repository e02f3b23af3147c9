import ReliableUdp.Endpoint.ClientWatchdog

namespace ReliableUdp

open Machine

variable {Addr : Type}

/-- The window has room for one more packet. -/
def Transfer.Room (x : Transfer) : Prop :=
  x.gbn.nextseqnum < x.gbn.base + UInt32.ofNat windowSize

/-- What a turn of the transfer loop looks at, its timers and counters apart. -/
structure Transfer.SameAs (x x' : Transfer) : Prop where
  base : x'.gbn.base = x.gbn.base
  next : x'.gbn.nextseqnum = x.gbn.nextseqnum
  eof : x'.eofReached = x.eofReached

theorem Transfer.SameAs.full {x x' : Transfer} (h : x.SameAs x')
    (hfull : x.eofReached = true ∨ ¬ x.Room) : x'.eofReached = true ∨ ¬ x'.Room := by
  rw [Transfer.Room, h.base, h.next, h.eof]
  exact hfull

section Fill

variable {connection : ConnectionState} {state : GBNSenderState}

/-- With a full window, or with no chunk to come, a fill does nothing but look at the file. -/
theorem gbnFillAndSendWindow_idle (e : Env Addr) (addr : Addr) (connection : ConnectionState)
    (file : InputFile)
    (hno : ¬ (state.nextseqnum < state.base + UInt32.ofNat windowSize ∧
      ∃ chunk rest, file = .bytes chunk :: rest)) :
    (gbnFillAndSendWindow e addr connection state file).state = state ∧
    (gbnFillAndSendWindow e addr connection state file).sends = [] ∧
    chunksOf (gbnFillAndSendWindow e addr connection state file).file = chunksOf file := by
  rw [gbnFillAndSendWindow]
  cases hn : (state.base + UInt32.ofNat windowSize).toNat - state.nextseqnum.toNat with
  | zero => exact ⟨rfl, rfl, rfl⟩
  | succ n =>
    have hroom : state.nextseqnum < state.base + UInt32.ofNat windowSize := by
      rw [UInt32.lt_iff_toNat_lt]
      omega
    cases file with
    | nil => exact ⟨rfl, rfl, rfl⟩
    | cons outcome rest =>
      cases outcome with
      | eof => exact ⟨rfl, rfl, rfl⟩
      | error => exact ⟨rfl, rfl, rfl⟩
      | bytes chunk => exact absurd ⟨hroom, chunk, rest, rfl⟩ hno

theorem fillLoop_chunks (e : Env Addr) (addr : Addr) (connection : ConnectionState) (n : Nat)
    (state : GBNSenderState) (file : InputFile) :
    (chunksOf (fillLoop e addr connection n state file).file).length ≤ (chunksOf file).length := by
  induction n generalizing state file with
  | zero => exact Nat.le_refl _
  | succ n ih =>
    cases file with
    | nil => exact Nat.le_refl _
    | cons outcome rest =>
      cases outcome with
      | eof => exact Nat.le_refl _
      | error => exact Nat.le_refl _
      | bytes chunk => exact (ih _ rest).trans (Nat.le_succ _)

/-- With room in the window the next chunk is read. -/
theorem gbnFillAndSendWindow_reads (e : Env Addr) (addr : Addr) (connection : ConnectionState)
    (chunk : Chunk) (rest : InputFile)
    (hroom : state.nextseqnum < state.base + UInt32.ofNat windowSize) :
    (chunksOf (gbnFillAndSendWindow e addr connection state (.bytes chunk :: rest)).file).length <
      (chunksOf (.bytes chunk :: rest)).length := by
  rw [gbnFillAndSendWindow]
  cases hn : (state.base + UInt32.ofNat windowSize).toNat - state.nextseqnum.toNat with
  | zero =>
    rw [UInt32.lt_iff_toNat_lt] at hroom
    omega
  | succ n => exact Nat.lt_succ_of_le (fillLoop_chunks e addr connection n _ rest)

variable {e : Env Addr} {addr : Addr}

/-- A fill without room does not look at the file. -/
theorem gbnFillAndSendWindow_full (file : InputFile)
    (h : ¬ state.nextseqnum < state.base + UInt32.ofNat windowSize) :
    gbnFillAndSendWindow e addr connection state file = ⟨state, file, 0, []⟩ := by
  rw [UInt32.lt_iff_toNat_lt] at h
  rw [gbnFillAndSendWindow, Nat.sub_eq_zero_of_le (Nat.not_lt.mp h), fillLoop]

/-- A fill that finds no chunk says so. -/
theorem gbnFillAndSendWindow_ended (e : Env Addr) (addr : Addr)
    (connection : ConnectionState) (file : InputFile)
    (h : state.nextseqnum < state.base + UInt32.ofNat windowSize)
    (hno : ∀ chunk rest, file ≠ .bytes chunk :: rest) :
    (gbnFillAndSendWindow e addr connection state file).state = state ∧
      (gbnFillAndSendWindow e addr connection state file).result ≠ 0 := by
  rw [UInt32.lt_iff_toNat_lt] at h
  obtain ⟨n, hn⟩ := Nat.exists_eq_add_of_lt h
  rw [gbnFillAndSendWindow, hn, Nat.add_assoc, Nat.add_sub_cancel_left]
  cases file with
  | nil => exact ⟨rfl, by simp [fillLoop, readChunk]⟩
  | cons outcome file =>
    cases outcome with
    | bytes chunk => exact absurd rfl (hno chunk file)
    | eof => exact ⟨rfl, by simp [fillLoop, readChunk]⟩
    | error => exact ⟨rfl, by simp [fillLoop, readChunk, exIoErr]⟩

/-- A fill that ends without the end of the file or an error leaves a full window. -/
theorem fillLoop_full (n : Nat) (state : GBNSenderState) (file : InputFile)
    (h : (fillLoop e addr connection n state file).result = 0) :
    (fillLoop e addr connection n state file).state.base = state.base ∧
      (fillLoop e addr connection n state file).state.nextseqnum =
        state.nextseqnum + UInt32.ofNat n := by
  induction n generalizing state file with
  | zero => exact ⟨rfl, (UInt32.add_zero _).symm⟩
  | succ n ih =>
    match file with
    | [] => exact absurd h (by simp [fillLoop, readChunk])
    | .eof :: file => exact absurd h (by simp [fillLoop, readChunk])
    | .error :: file => exact absurd h (by simp [fillLoop, readChunk, exIoErr])
    | .bytes chunk :: file =>
      obtain ⟨hbase, hnext⟩ := ih (advance (fillSlot e connection state chunk)) file h
      refine ⟨hbase, hnext.trans ?_⟩
      show state.nextseqnum + 1 + UInt32.ofNat n = _
      rw [UInt32.ofNat_add, UInt32.add_assoc, UInt32.add_comm 1]
      rfl

theorem add_ofNat_sub {a b : UInt32} (h : a ≤ b) : a + UInt32.ofNat (b.toNat - a.toNat) = b := by
  have hle := UInt32.le_iff_toNat_le.mp h
  have hlt := b.toNat_lt
  apply UInt32.toNat_inj.mp
  rw [UInt32.toNat_add, UInt32.toNat_ofNat', Nat.add_mod_mod, Nat.add_sub_cancel' hle,
    Nat.mod_eq_of_lt hlt]

theorem gbnFillAndSendWindow_fills (file : InputFile)
    (h : (gbnFillAndSendWindow e addr connection state file).result = 0) :
    ¬ (gbnFillAndSendWindow e addr connection state file).state.nextseqnum <
      (gbnFillAndSendWindow e addr connection state file).state.base + UInt32.ofNat windowSize := by
  by_cases hroom : state.nextseqnum < state.base + UInt32.ofNat windowSize
  · obtain ⟨hbase, hnext⟩ := fillLoop_full _ state file h
    have hlimit := add_ofNat_sub (UInt32.le_of_lt hroom)
    rw [gbnFillAndSendWindow, hbase, hnext, hlimit]
    exact UInt32.lt_irrefl _
  · rw [gbnFillAndSendWindow_full file hroom]
    exact hroom

end Fill

namespace Client

variable {config : AppConfig} {c : Client Addr} {e : Env Addr} {x : Transfer}

/-- The client is in its transfer loop. -/
structure Looping (c : Client Addr) : Prop where
  state : c.state = .established
  pc : c.pc = .transfer ∨ ∃ ms, c.pc = .select ms
  xfer : ∃ x, c.xfer = some x

/-- The client is in its transfer loop and a chunk waits to be read. -/
structure Pending (c : Client Addr) (x : Transfer) : Prop where
  state : c.state = .established
  xfer : c.xfer = some x
  eof : x.eofReached = false
  chunk : ∃ chunk rest, c.file = .bytes chunk :: rest

/-- A turn of the transfer loop that reads a chunk: it finds the watchdog not expired, a chunk that
waits and room in the window. -/
def TurnReads (config : AppConfig) (c : Client Addr) (e : Env Addr) : Prop :=
  c.pc = .transfer ∧ c.expired config e = false ∧ ∃ x, c.Pending x ∧ x.Room

theorem transferWait_file : (c.transferWait x e).1.file = c.file := by
  rw [transferWait]
  split_ifs
  · rfl
  · cases c.transferTimer_move x e with
    | empty hnext => rw [hnext]
    | resends timer hnext => rw [hnext]
    | waits timer ms hnext => rw [hnext]

/-- Such a turn uses up a chunk. -/
theorem TurnReads.uses (h : c.TurnReads config e) :
    (chunksOf (c.step config e).1.file).length < (chunksOf c.file).length := by
  obtain ⟨hpc, hexp, x, ⟨_, hx, heof, chunk, rest, hf⟩, hroom⟩ := h
  have hrunning : ¬ c.expired config e = true := by
    rw [hexp]
    exact Bool.false_ne_true
  have hreads := gbnFillAndSendWindow_reads e c.serverAddr c.connection chunk rest hroom
  rw [step_transfer hpc hx, transferRound, if_neg (not_not.mpr (Or.inl heof)), if_neg hrunning,
    if_pos heof, hf]
  dsimp only
  split_ifs
  · exact hreads
  · rw [transferWait_file]
    exact hreads

section Expiry

variable {input : InputFile} {acks : Nat}

theorem Looping.paces (h : c.Looping) (hp : Paced input acks c) :
    ∃ x sent, c.xfer = some x ∧ Paces input acks c x.gbn sent := by
  cases hp with
  | opening _ _ _ hnone _ _ =>
    obtain ⟨x, hx⟩ := h.xfer
    rw [hnone] at hx
    exact absurd hx (by simp)
  | running _ _ x sent hx hp => exact ⟨x, sent, hx, hp⟩
  | behind hrank _ _ _ =>
    rw [h.state] at hrank
    exact absurd hrank (by decide)

/-- A turn of the loop that finds the watchdog expired is the last one. -/
theorem Looping.expires (h : c.Looping) (hpc : c.pc = .transfer)
    (hexp : c.expired config e = true) : ¬ (c.step config e).1.Looping := by
  obtain ⟨x, hx⟩ := h.xfer
  intro hloop
  have hs := hloop.state
  rw [step_transfer hpc hx, transferRound, if_pos hexp] at hs
  split_ifs at hs
  · exact ClientState.noConfusion hs
  · exact ClientState.noConfusion hs

/-- Behind its `select` the loop begins a new turn. -/
theorem Looping.turns (config : AppConfig) (e : Env Addr) {ms : Nat} (h : c.Looping)
    (hpc : c.pc = .select ms) (hnext : (c.step config e).1.Looping) :
    (c.step config e).1.pc = .transfer := by
  obtain ⟨x, hx⟩ := h.xfer
  have hs := hnext.state
  rw [step_select hpc, resume_established h.state hx] at hs ⊢
  cases transferReady_move (x := x) (receives_transfer hpc h.state hx e) with
  | ack addr hd _ _ hmove =>
    rw [hmove, transferAck]
    dsimp only
    split_ifs <;> rfl
  | idle _ hmove =>
    rcases hmove with hmove | ⟨addr, hmove⟩
    · rw [hmove] at hs
      exact ClientState.noConfusion hs
    · rw [hmove]
      rfl

/-- The window base as a number, to tell how far a transfer has got. -/
def baseNumber (c : Client Addr) : Nat := c.xfer.elim 0 (fun x => x.gbn.base.toNat)

theorem baseNumber_le (c : Client Addr) : c.baseNumber ≤ 2 ^ 32 := by
  rw [baseNumber]
  cases c.xfer with
  | none => exact Nat.zero_le _
  | some x => exact x.gbn.base.toNat_lt.le

/-- In the transfer loop the watchdog is not fed unless the base moves. -/
theorem Looping.fed (h : c.Looping) (hnext : (c.step config e).1.Looping)
    (hp : Paced input acks c) :
    c.baseNumber < (c.step config e).1.baseNumber ∨
      c.baseNumber = (c.step config e).1.baseNumber ∧
        (c.step config e).1.lastProgressMs = c.lastProgressMs := by
  obtain ⟨x, hx⟩ := h.xfer
  obtain ⟨x', hx'⟩ := hnext.xfer
  rw [baseNumber, baseNumber, hx, hx']
  cases hp.move config e with
  | rests hno _ _ hbase =>
    right
    refine ⟨congrArg UInt32.toNat (hbase h.state x x' hx hx').symm, ?_⟩
    have hmove : c.Watched e (c.step config e).1 := step_watched
    rcases hmove with ⟨_, hkept⟩ | ⟨hd, ht, hc, _⟩
    · exact hkept
    · exact absurd ⟨h.state, updates_iff.mpr ⟨hd, ht, hc⟩⟩ hno
  | advances _ _ _ _ hbase =>
    left
    obtain ⟨y, y', hy, hy', hlt⟩ := hbase
    rw [← Option.some.inj (hx.symm.trans hy), ← Option.some.inj (hx'.symm.trans hy')] at hlt
    exact UInt32.lt_iff_toNat_lt.mp hlt

end Expiry

/-- The transfer loop takes an ACK for a packet that waits in the window of `x`. -/
structure TakesAckFor (x : Transfer) (c : Client Addr) (e : Env Addr) (h : RDTHeader) : Prop where
  state : c.state = .established
  taken : c.taken e = some h
  isAck : c.IsAck h
  inside : x.gbn.base < h.ackNum ∧ h.ackNum ≤ x.gbn.nextseqnum

/-- The window, the file and the watchdog are left alone. -/
structure HoldsWindow (c : Client Addr) (x : Transfer) (next : Client Addr) (x' : Transfer) :
    Prop where
  xfer : next.xfer = some x'
  same : x.SameAs x'
  file : next.file = c.file
  last : next.lastProgressMs = c.lastProgressMs

/-- The base of the window has moved up to the acknowledged number, and the watchdog is fed. -/
structure SlidesTo (c : Client Addr) (x : Transfer) (e : Env Addr) (h : RDTHeader)
    (next : Client Addr) (x' : Transfer) : Prop where
  state : next.state = .established
  pc : next.pc = .transfer
  xfer : next.xfer = some x'
  same : { x with gbn := { x.gbn with base := h.ackNum } }.SameAs x'
  file : next.file = c.file
  last : next.lastProgressMs = markProgress c.lastProgressMs e.markMs

/-- What the transfer loop does where it reads no chunk: it is left, has found the end of the file,
goes on with nothing changed that counts, or moves the base of its window. -/
inductive Unread (c : Client Addr) (x : Transfer) (e : Env Addr) (next : Client Addr) : Prop where
  | left (state : next.state ≠ .established)
  | ended (x' : Transfer) (xfer : next.xfer = some x') (eof : x'.eofReached = true)
      (none : ∀ chunk rest, c.file ≠ .bytes chunk :: rest)
  | waits (x' : Transfer) (holds : c.HoldsWindow x next x') (none : ∀ h, ¬ TakesAckFor x c e h)
  | advances (x' : Transfer) (h : RDTHeader) (ack : TakesAckFor x c e h)
      (advances : c.SlidesTo x e h next x')

theorem TakesAckFor.waits {h : RDTHeader} (hack : TakesAckFor x c e h) : c.pc ≠ .transfer := by
  intro hpc
  have hreceives := receives_of_taken hack.taken
  rw [receives, hpc] at hreceives
  exact Bool.noConfusion hreceives

theorem transferTimer_holds (c : Client Addr) (x : Transfer) (e : Env Addr) :
    ∃ x', c.HoldsWindow x (c.transferTimer x e).1 x' := by
  cases c.transferTimer_move x e with
  | empty hnext =>
    rw [hnext]
    exact ⟨x, rfl, ⟨rfl, rfl, rfl⟩, rfl, rfl⟩
  | resends timer hnext =>
    obtain ⟨timer', hgbn⟩ := gbnRetransmitWindow_state e c.serverAddr
      { x.gbn with windowTimerMs := timer }
    rw [hnext, hgbn]
    exact ⟨_, rfl, ⟨rfl, rfl, rfl⟩, rfl, rfl⟩
  | waits timer ms hnext =>
    rw [hnext]
    exact ⟨_, rfl, ⟨rfl, rfl, rfl⟩, rfl, rfl⟩

theorem transferWait_holds (c : Client Addr) (x : Transfer) (e : Env Addr) :
    (c.transferWait x e).1.state ≠ .established ∨
      ∃ x', c.HoldsWindow x (c.transferWait x e).1 x' := by
  rw [transferWait]
  split_ifs
  · exact Or.inl (by simp [transferDone, goto])
  · exact Or.inr (c.transferTimer_holds x e)

/-- A turn of the loop in which no chunk is read. -/
theorem transferRound_unread (hs : c.state = .established) (hpc : c.pc = .transfer)
    (hx : c.xfer = some x) (hno : ¬ c.TurnReads config e) :
    c.Unread x e (c.transferRound config x e).1 := by
  have hnone (h : RDTHeader) : ¬ TakesAckFor x c e h := fun hack => hack.waits hpc
  rw [transferRound]
  by_cases hloop : x.eofReached = false ∨ x.gbn.base < x.gbn.nextseqnum
  · rw [if_neg (not_not.mpr hloop)]
    by_cases hexp : c.expired config e = true
    · rw [if_pos hexp]
      exact .left (by simp [fail])
    · rw [if_neg hexp]
      by_cases heof : x.eofReached = false
      · rw [if_pos heof]
        by_cases hroom : x.Room
        · have hend (chunk : Chunk) (rest : InputFile) : c.file ≠ .bytes chunk :: rest := by
            intro hf
            have hlive : c.expired config e = false := Bool.eq_false_of_not_eq_true hexp
            exact hno ⟨hpc, hlive, x, ⟨hs, hx, heof, chunk, rest, hf⟩, hroom⟩
          obtain ⟨hstate, hresult⟩ := gbnFillAndSendWindow_ended e c.serverAddr
            c.connection c.file hroom hend
          simp only [hstate]
          by_cases hneg : (gbnFillAndSendWindow e c.serverAddr c.connection x.gbn c.file).result < 0
          · rw [if_pos hneg]
            exact .left (by simp [fail])
          · rw [if_neg hneg]
            have hpos : decide ((gbnFillAndSendWindow e c.serverAddr c.connection x.gbn
                c.file).result > 0) = true := decide_eq_true (by omega)
            rw [hpos]
            rcases transferWait_holds { c with file := _ } { x with eofReached := true } e with
              hleft | ⟨x', hholds⟩
            · exact .left hleft
            · exact .ended x' hholds.xfer hholds.same.eof hend
        · rw [gbnFillAndSendWindow_full c.file hroom]
          simp only [Int.lt_irrefl, if_false, gt_iff_lt, decide_false]
          rcases c.transferWait_holds { x with eofReached := false } e with
            hleft | ⟨x', hxfer, ⟨hbase, hnext, heof'⟩, hfile, hlast⟩
          · exact .left hleft
          · exact .waits x' ⟨hxfer, ⟨hbase, hnext, heof'.trans heof.symm⟩, hfile, hlast⟩ hnone
      · rw [if_neg heof]
        rcases c.transferWait_holds x e with hleft | ⟨x', hholds⟩
        · exact .left hleft
        · exact .waits x' hholds hnone
  · rw [if_pos hloop]
    exact .left (by simp [transferDone, goto])

theorem transferAck_holds (ack : UInt32)
    (hout : ¬ (x.gbn.base < ack ∧ ack ≤ x.gbn.nextseqnum)) :
    ∃ x', c.HoldsWindow x (c.transferAck x e ack).1 x' := by
  obtain ⟨timer, hgbn⟩ := gbnRetransmitWindow_state e c.serverAddr x.gbn
  rw [transferAck, gbnProcessAck_outside ack hout]
  dsimp only
  rw [hgbn, if_neg Bool.false_ne_true]
  split_ifs
  · exact ⟨_, rfl, ⟨rfl, rfl, rfl⟩, rfl, rfl⟩
  · exact ⟨_, rfl, ⟨rfl, rfl, rfl⟩, rfl, rfl⟩
  · exact ⟨_, rfl, ⟨rfl, rfl, rfl⟩, rfl, rfl⟩

theorem transferAck_advances {s0 : Nat} {sent : List Chunk} {h : RDTHeader}
    (hr : x.gbn.Represents s0 c.connection sent) (hs : c.state = .established)
    (hpc : c.pc = .transfer)
    (hin : x.gbn.base < h.ackNum ∧ h.ackNum ≤ x.gbn.nextseqnum) :
    ∃ x', c.SlidesTo x e h (c.transferAck x e h.ackNum).1 x' := by
  obtain ⟨hnew, hbase, hseq, _⟩ := gbnProcessAck_inside hr h.ackNum hin.1 hin.2
  rw [transferAck]
  dsimp only
  rw [if_pos hnew]
  exact ⟨_, hs, hpc, rfl, ⟨hbase, hseq, rfl⟩, rfl, rfl⟩

/-- Behind its `select` the loop moves the base, or leaves everything as it is. -/
theorem transferReady_unread {s0 : Nat} {sent : List Chunk}
    (h : x.gbn.Represents s0 c.connection sent) (hs : c.state = .established)
    (hx : c.xfer = some x) (hr : c.receives e = decide (e.selectResult > 0)) :
    (∃ x' hd, TakesAckFor x c e hd ∧ c.SlidesTo x e hd (c.transferReady x e).1 x') ∨
    (∀ hd, ¬ TakesAckFor x c e hd) ∧ ((c.transferReady x e).1.state ≠ .established ∨
      ∃ x', c.HoldsWindow x (c.transferReady x e).1 x') := by
  cases transferReady_move (x := x) hr with
  | ack addr hd ht hack hnext =>
    rw [hnext]
    by_cases hin : x.gbn.base < hd.ackNum ∧ hd.ackNum ≤ x.gbn.nextseqnum
    · obtain ⟨x', hstate, hpc, hxfer, hsame, hfile, hlast⟩ :=
        transferAck_advances (c := c.looping addr) (e := e) h hs rfl hin
      exact Or.inl ⟨x', hd, ⟨hs, ht, hack, hin⟩, hstate, hpc, hxfer, hsame, hfile, hlast⟩
    · obtain ⟨x', hxfer, hsame, hfile, hlast⟩ := transferAck_holds (c := c.looping addr) (e := e)
        hd.ackNum hin
      refine Or.inr ⟨?_, Or.inr ⟨x', hxfer, hsame, hfile, hlast⟩⟩
      intro hd' hack'
      rw [Option.some.inj (ht.symm.trans hack'.taken)] at hin
      exact hin hack'.inside
  | idle hno hnext =>
    refine Or.inr ⟨fun hd hack => hno hd hack.taken hack.isAck, ?_⟩
    rcases hnext with hnext | ⟨addr, hnext⟩
    · rw [hnext]
      exact Or.inl (by simp [fail])
    · rw [hnext]
      exact Or.inr ⟨x, hx, ⟨rfl, rfl, rfl⟩, rfl, rfl⟩

/-- An activation of the transfer loop that reads no chunk. -/
theorem Looping.unread {input : InputFile} {acks : Nat} (h : c.Looping) (hp : Paced input acks c)
    (hx : c.xfer = some x) (hno : ¬ c.TurnReads config e) :
    c.Unread x e (c.step config e).1 := by
  obtain ⟨y, sent, hy, hpaces⟩ := h.paces hp
  obtain rfl := Option.some.inj (hx.symm.trans hy)
  rcases h.pc with hpc | ⟨ms, hpc⟩
  · rw [step_transfer hpc hx]
    exact transferRound_unread h.state hpc hx hno
  · rw [step_select hpc, resume_established h.state hx]
    rcases transferReady_unread hpaces.represents h.state hx (receives_transfer hpc h.state hx e)
      with ⟨x', hd, hack, hadv⟩ | ⟨hnone, hleft | ⟨x', hholds⟩⟩
    · exact .advances x' hd hack hadv
    · exact .left hleft
    · exact .waits x' hholds hnone

/-- An ACK for the window moves its base. -/
theorem TakesAckFor.advances (config : AppConfig) {input : InputFile} {acks : Nat}
    {hd : RDTHeader} (hack : TakesAckFor x c e hd) (h : c.Looping) (hp : Paced input acks c)
    (hx : c.xfer = some x) : ∃ x', c.SlidesTo x e hd (c.step config e).1 x' := by
  obtain ⟨y, sent, hy, hpaces⟩ := h.paces hp
  obtain rfl := Option.some.inj (hx.symm.trans hy)
  rcases h.pc with hpc | ⟨ms, hpc⟩
  · exact absurd hpc hack.waits
  · rw [step_select hpc, resume_established h.state hx]
    rcases transferReady_unread hpaces.represents h.state hx (receives_transfer hpc h.state hx e)
      with ⟨x', hd', hack', hadv⟩ | ⟨hnone, _⟩
    · rw [Option.some.inj (hack.taken.symm.trans hack'.taken)]
      exact ⟨x', hadv⟩
    · exact absurd hack (hnone hd)

theorem transferWait_full (hfull : x.eofReached = true ∨ ¬ x.Room) {x' : Transfer}
    (hnext : (c.transferWait x e).1.state = .established)
    (hx' : (c.transferWait x e).1.xfer = some x') : x'.eofReached = true ∨ ¬ x'.Room := by
  rcases c.transferWait_holds x e with hleft | ⟨y, hholds⟩
  · exact absurd hnext hleft
  · obtain rfl := Option.some.inj (hx'.symm.trans hholds.xfer)
    exact hholds.same.full hfull

/-- A turn gets to its end with a full window or behind the end of the file. -/
theorem transferRound_full {x' : Transfer}
    (hnext : (c.transferRound config x e).1.state = .established)
    (hx' : (c.transferRound config x e).1.xfer = some x') : x'.eofReached = true ∨ ¬ x'.Room := by
  rw [transferRound] at hnext hx'
  dsimp only at hnext hx'
  split_ifs at hnext hx' with hdone hexp heof hneg
  · exact absurd hnext (by simp [fail])
  · exact absurd hnext (by simp [fail])
  · refine transferWait_full ?_ hnext hx'
    rcases (Int.not_lt.mp hneg).lt_or_eq with hpos | hzero
    · exact Or.inl (decide_eq_true hpos)
    · exact Or.inr (gbnFillAndSendWindow_fills c.file hzero.symm)
  · exact transferWait_full (Or.inl (Bool.eq_true_of_not_eq_false heof)) hnext hx'
  · exact absurd hnext (by simp [transferDone, goto])

/-- The loop waits in `select` only with a full window or behind the end of the file. -/
theorem waits_full {input : InputFile} {acks ms : Nat} (hp : Paced input acks c)
    (hs : c.state = .established) (hnext : (c.step config e).1.state = .established)
    (hpc' : (c.step config e).1.pc = .select ms) (hx : (c.step config e).1.xfer = some x) :
    x.eofReached = true ∨ ¬ x.Room := by
  cases hp with
  | opening _ _ hentered _ _ _ =>
    rw [step_fsm (hentered hs), runClient_established hs, handleEstablished] at hpc'
    split_ifs at hpc'
    · exact absurd hpc' (by simp [fail])
    · exact absurd hpc' (by simp [fail])
  | running _ hpc y _ hy _ =>
    rcases hpc with hpc | ⟨ms', hpc⟩
    · rw [step_transfer hpc hy] at hnext hx
      exact transferRound_full hnext hx
    · -- behind the `select` the loop is at its top
      have hloop := Looping.turns config e ⟨hs, Or.inr ⟨ms', hpc⟩, y, hy⟩ hpc
        ⟨hnext, Or.inr ⟨ms, hpc'⟩, x, hx⟩
      exact absurd (hpc'.symm.trans hloop) (by simp)
  | behind hrank _ _ _ =>
    rw [hs] at hrank
    exact absurd hrank (by decide)

theorem TakesAckFor.congr {x' : Transfer} {h : RDTHeader} (hsame : x.SameAs x') :
    TakesAckFor x' c e h ↔ TakesAckFor x c e h := by
  constructor
  · intro hack
    obtain ⟨hs, ht, hisAck, hin⟩ := hack
    rw [hsame.base, hsame.next] at hin
    exact ⟨hs, ht, hisAck, hin⟩
  · intro hack
    obtain ⟨hs, ht, hisAck, hin⟩ := hack
    rw [← hsame.base, ← hsame.next] at hin
    exact ⟨hs, ht, hisAck, hin⟩

theorem HoldsWindow.pending_iff {next : Client Addr} {x' : Transfer}
    (h : c.HoldsWindow x next x') (hs : c.state = .established) (hx : c.xfer = some x)
    (hnext : next.state = .established) : next.Pending x' ↔ c.Pending x := by
  constructor
  · intro hp
    refine ⟨hs, hx, h.same.eof.symm.trans hp.eof, ?_⟩
    rw [← h.file]
    exact hp.chunk
  · intro hp
    refine ⟨hnext, h.xfer, h.same.eof.trans hp.eof, ?_⟩
    rw [h.file]
    exact hp.chunk

end Client

end ReliableUdp
