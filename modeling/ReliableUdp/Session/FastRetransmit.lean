import ReliableUdp.Endpoint.WindowTimer
import ReliableUdp.Framework.Trace
import ReliableUdp.Session.Delivery

namespace ReliableUdp

variable {Addr : Type}

namespace Client

/-- The numbers of the ACKs of its connection that the transfer loop takes, at most one. -/
def acksHeard (c : Client Addr) (e : Env Addr) : List UInt32 :=
  if c.state = .established then
    ((c.taken e).filter (fun h => decide (c.IsAck h))).toList.map RDTHeader.ackNum
  else []

/-- The activation runs into `dup_ack_count == 3`. -/
def Triggers (c : Client Addr) (x : Transfer) (e : Env Addr) (ack : UInt32) : Prop :=
  ack ∈ c.acksHeard e ∧ (gbnProcessAck x.gbn ack).2 = false ∧ ack = x.lastAck ∧
    x.dupAckCount + 1 = 3

/-- As the third equal ACK in a row the client hears one that the window has moved past, or one
that finds the window empty. -/
def StaleThird (c : Client Addr) (e : Env Addr) : Prop :=
  ∃ x, c.xfer = some x ∧ x.dupAckCount = 2 ∧ x.lastAck ∈ c.acksHeard e ∧
    (x.lastAck < x.gbn.base ∨ x.gbn.base = x.gbn.nextseqnum)

instance (c : Client Addr) (e : Env Addr) : Decidable (c.StaleThird e) :=
  decidable_of_iff (c.xfer.any (fun x => decide (x.dupAckCount = 2 ∧ x.lastAck ∈ c.acksHeard e ∧
    (x.lastAck < x.gbn.base ∨ x.gbn.base = x.gbn.nextseqnum))) = true) <| by
    rw [StaleThird, Option.any_eq_true]
    simp

/-- `dup_ack_count` says how many of the ACKs heard last repeat `last_ack`. -/
def Tally (c : Client Addr) (heard : List UInt32) : Prop :=
  ∀ x, c.xfer = some x → ∃ earlier, heard = earlier ++ List.replicate x.dupAckCount x.lastAck

variable {config : AppConfig} {c : Client Addr} {e : Env Addr} {x : Transfer}
  {heard : List UInt32}

theorem mem_acksHeard {ack : UInt32} : ack ∈ c.acksHeard e ↔
    c.state = .established ∧ ∃ h, c.taken e = some h ∧ c.IsAck h ∧ h.ackNum = ack := by
  rw [acksHeard]
  split_ifs with hs
  · simp [hs, and_assoc]
  · simp [hs]

theorem acksHeard_ack {h : RDTHeader} (hs : c.state = .established) (ht : c.taken e = some h)
    (hack : c.IsAck h) : c.acksHeard e = [h.ackNum] := by
  simp [acksHeard, hs, ht, hack]

theorem acksHeard_none (h : ∀ ack, ack ∉ c.acksHeard e) : c.acksHeard e = [] :=
  List.eq_nil_iff_forall_not_mem.mpr h

theorem acksHeard_of_state (hs : c.state ≠ .established) : c.acksHeard e = [] := if_neg hs

theorem acksHeard_of_not_receives (hr : c.receives e = false) : c.acksHeard e = [] := by
  apply acksHeard_none
  intro ack hmem
  obtain ⟨_, h, ht, _⟩ := mem_acksHeard.mp hmem
  rw [taken_of_not_receives hr] at ht
  exact absurd ht (by simp)

theorem recv_of_taken {h : RDTHeader} (ht : c.taken e = some h) :
    ∃ src payload, recvPacket e c.serverAddr = (src, .ok (h, payload)) := by
  rw [taken] at ht
  split_ifs at ht
  cases hr : (recvPacket e c.serverAddr).2 with
  | error code =>
    rw [hr] at ht
    exact absurd ht (by simp [Except.toOption])
  | ok received =>
    rw [hr] at ht
    obtain rfl := Option.some.inj ht
    exact ⟨(recvPacket e c.serverAddr).1, received.2, by rw [← hr]⟩

theorem Tally.congr (h : c.Tally heard) {c' : Client Addr} (hx : c'.xfer = c.xfer) :
    c'.Tally heard := by
  intro x hx'
  exact h x (hx'.symm.trans hx).symm

/-- Nothing but the third equal ACK makes the loop send in answer to an ACK. -/
theorem transferAck_quiet {ack : UInt32} (h : ¬ (ack = x.lastAck ∧ x.dupAckCount + 1 = 3)) :
    (c.transferAck x e ack).2 = [] := by
  rw [transferAck]
  by_cases hnew : (gbnProcessAck x.gbn ack).2 = true
  · simp only [if_pos hnew]
  · by_cases hlast : ack = x.lastAck
    · have hthird : ¬ x.dupAckCount + 1 = 3 := fun hthird => h ⟨hlast, hthird⟩
      simp only [if_neg hnew, if_pos hlast, if_neg hthird]
    · simp only [if_neg hnew, if_neg hlast]

/-- The loop remembers the ACK it has taken, and counts it as a first one, as one more, or not. -/
theorem transferAck_count (ack : UInt32) : ∃ y, (c.transferAck x e ack).1.xfer = some y ∧
    y.lastAck = ack ∧ (y.dupAckCount = 0 ∨ y.dupAckCount = 1 ∨
      ack = x.lastAck ∧ y.dupAckCount = x.dupAckCount + 1) := by
  rw [transferAck]
  by_cases hnew : (gbnProcessAck x.gbn ack).2 = true
  · simp only [if_pos hnew]
    exact ⟨_, rfl, rfl, Or.inl rfl⟩
  · by_cases hlast : ack = x.lastAck
    · by_cases hthird : x.dupAckCount + 1 = 3
      · simp only [if_neg hnew, if_pos hlast, if_pos hthird]
        exact ⟨_, rfl, hlast.symm, Or.inl rfl⟩
      · simp only [if_neg hnew, if_pos hlast, if_neg hthird]
        exact ⟨_, rfl, hlast.symm, Or.inr (Or.inr ⟨hlast, rfl⟩)⟩
    · simp only [if_neg hnew, if_neg hlast]
      exact ⟨_, rfl, rfl, Or.inr (Or.inl rfl)⟩

theorem Tally.transferAck (h : c.Tally heard) (hx : c.xfer = some x) (ack : UInt32) :
    (c.transferAck x e ack).1.Tally (heard ++ [ack]) := by
  obtain ⟨earlier, hheard⟩ := h x hx
  obtain ⟨y, hy, hlast, hcount⟩ := transferAck_count (c := c) (x := x) (e := e) ack
  intro z hz
  obtain rfl := Option.some.inj (hy.symm.trans hz)
  rw [hlast]
  rcases hcount with hzero | hone | ⟨hrepeats, hmore⟩
  · exact ⟨heard ++ [ack], by rw [hzero]; simp⟩
  · exact ⟨heard, by rw [hone]; rfl⟩
  · refine ⟨earlier, ?_⟩
    rw [hmore, hheard, ← hrepeats, List.append_assoc, ← List.replicate_succ']

/-- A round of the loop before its `select` does not touch the count. -/
theorem Tally.transferRound (h : c.Tally heard) (hx : c.xfer = some x) :
    (c.transferRound config x e).1.Tally heard := by
  have hkeep (c' : Client Addr) (gbn : GBNSenderState) (eof : Bool)
      (hx' : c'.xfer = some { x with gbn := gbn, eofReached := eof }) : c'.Tally heard := by
    intro y hy
    obtain rfl := Option.some.inj (hx'.symm.trans hy)
    exact h x hx
  have htimer (c' : Client Addr) (gbn : GBNSenderState) (eof : Bool) :
      (c'.transferWait { x with gbn := gbn, eofReached := eof } e).1.Tally heard := by
    rw [transferWait]
    split_ifs
    · exact hkeep _ gbn eof rfl
    · cases c'.transferTimer_move { x with gbn := gbn, eofReached := eof } e with
      | empty hnext =>
        rw [hnext]
        exact hkeep _ gbn eof rfl
      | resends timer hnext =>
        rw [hnext]
        exact hkeep _ _ eof rfl
      | waits timer ms hnext =>
        rw [hnext]
        exact hkeep _ _ eof rfl
  rw [Client.transferRound]
  dsimp only
  split_ifs
  · exact h.congr rfl
  · exact hkeep _ _ x.eofReached rfl
  · exact htimer _ _ _
  · exact htimer c x.gbn x.eofReached
  · exact hkeep _ x.gbn x.eofReached rfl

theorem Tally.transferReady (h : c.Tally heard) (hs : c.state = .established)
    (hx : c.xfer = some x) (hr : c.receives e = decide (e.selectResult > 0)) :
    (c.transferReady x e).1.Tally (heard ++ c.acksHeard e) := by
  cases transferReady_move (x := x) hr with
  | ack addr hd ht hack hnext =>
    rw [hnext, acksHeard_ack hs ht hack]
    exact Tally.transferAck (c := c.looping addr) h hx hd.ackNum
  | idle hno hnext =>
    have hnone : c.acksHeard e = [] := by
      apply acksHeard_none
      intro ack hmem
      obtain ⟨_, hd, ht, hack, _⟩ := mem_acksHeard.mp hmem
      exact hno hd ht hack
    rw [hnone, List.append_nil]
    rcases hnext with hnext | ⟨addr, hnext⟩
    · rw [hnext]
      exact h.congr rfl
    · rw [hnext]
      exact h.congr rfl

/-- Every activation keeps the count. -/
theorem Tally.step (h : c.Tally heard) :
    (c.step config e).1.Tally (heard ++ c.acksHeard e) := by
  have hquiet (hr : c.receives e = false) {next : Client Addr} (hnext : next.Tally heard) :
      next.Tally (heard ++ c.acksHeard e) := by
    rw [acksHeard_of_not_receives hr, List.append_nil]
    exact hnext
  cases hpc : c.pc with
  | returned code =>
    apply hquiet (by simp [receives, hpc])
    rw [step_returned hpc]
    exact h
  | transfer =>
    apply hquiet (by simp [receives, hpc])
    cases hx : c.xfer with
    | none =>
      simp only [Client.step, hpc, hx]
      exact h
    | some x =>
      rw [step_transfer hpc hx]
      exact h.transferRound hx
  | fsm =>
    apply hquiet (by simp [receives, hpc])
    by_cases hs : c.state = .established
    · rw [step_fsm hpc, runClient_established hs, handleEstablished]
      split_ifs
      · exact h.congr rfl
      · exact h.congr rfl
      · intro y hy
        obtain rfl := Option.some.inj hy
        exact ⟨heard, by simp⟩
    · exact h.congr (step_onward hs (by simp [hpc])).xfer
  | select ms =>
    by_cases hs : c.state = .established
    · rw [step_select hpc]
      cases hx : c.xfer with
      | none =>
        apply hquiet (by simp [receives, hpc, hs, hx])
        simp only [resume, hs, hx]
        exact h
      | some x =>
        rw [resume_established hs hx]
        exact h.transferReady hs hx (receives_transfer hpc hs hx e)
    · rw [acksHeard_of_state hs, List.append_nil]
      exact h.congr (step_onward hs (by simp [hpc])).xfer

/-- What the transfer loop does with an ACK it hears. -/
theorem step_heard (config : AppConfig) (hx : c.xfer = some x) {ack : UInt32}
    (hmem : ack ∈ c.acksHeard e) :
    ∃ addr, c.step config e = (c.looping addr).transferAck x e ack := by
  obtain ⟨hs, hd, ht, hack, rfl⟩ := mem_acksHeard.mp hmem
  obtain ⟨⟨ms, hpc⟩, _⟩ := select_of_receives (receives_of_taken ht)
  rw [step_select hpc, resume_established hs hx]
  have hready : c.receives e = decide (e.selectResult > 0) := by simp only [receives, hpc, hs, hx]
  cases transferReady_move (x := x) hready with
  | ack addr hd' ht' _ hnext =>
    obtain rfl := Option.some.inj (ht.symm.trans ht')
    exact ⟨addr, hnext⟩
  | idle hno _ => exact absurd hack (hno hd ht)

/-- The transfer loop has its window in order. -/
def WindowIntact (c : Client Addr) : Prop :=
  ∀ x, c.state = .established → c.xfer = some x →
    ∃ s0 sent, x.gbn.Represents s0 c.connection sent

theorem Paced.windowIntact {input : InputFile} {acks : Nat} (h : Paced input acks c) :
    c.WindowIntact := by
  intro x hs hx
  cases h with
  | opening _ _ _ hnone _ _ => exact absurd (hx.symm.trans hnone) (by simp)
  | running _ _ y sent hy hpaces =>
    rw [Option.some.inj (hx.symm.trans hy)]
    exact ⟨_, sent, hpaces.represents⟩
  | behind hrank _ _ _ =>
    rw [hs] at hrank
    exact absurd hrank (by decide)

/-- Triggering resends what is left of the window, the packet at `base` first. -/
theorem Triggers.resends (config : AppConfig) (hwindow : c.WindowIntact) (hx : c.xfer = some x)
    {ack : UInt32} (h : c.Triggers x e ack) (hout : x.gbn.base ≠ x.gbn.nextseqnum) :
    SendsNumber c.connection x.gbn.base (c.step config e).2 := by
  obtain ⟨hmem, hold, hlast, hthird⟩ := h
  obtain ⟨s0, sent, hrep⟩ := hwindow x (mem_acksHeard.mp hmem).1 hx
  have hkept : gbnProcessAck x.gbn ack = (x.gbn, false) := by
    apply gbnProcessAck_outside
    intro hin
    rw [(gbnProcessAck_inside hrep ack hin.1 hin.2).1] at hold
    exact Bool.noConfusion hold
  obtain ⟨addr, hstep⟩ := step_heard config hx hmem
  rw [hstep, transferAck, hkept]
  simp only [Bool.false_eq_true, if_false, if_pos hlast, if_pos hthird]
  exact gbnRetransmitWindow_sendsBase hrep hout

/-- Nothing else makes the loop send in answer to an ACK. -/
theorem triggers_of_sends (hx : c.xfer = some x) {ack : UInt32} (hmem : ack ∈ c.acksHeard e)
    (hsends : (c.step config e).2 ≠ []) : c.Triggers x e ack := by
  obtain ⟨addr, hstep⟩ := step_heard config hx hmem
  rw [hstep] at hsends
  have hagain : ack = x.lastAck ∧ x.dupAckCount + 1 = 3 := by
    by_contra hno
    exact hsends (transferAck_quiet hno)
  refine ⟨hmem, ?_, hagain⟩
  by_contra hnew
  apply hsends
  simp only [transferAck, if_pos (Bool.eq_true_of_not_eq_false hnew)]

/-- The last three ACKs, the one heard now included, ask for the oldest packet waiting. -/
def Evidence (heard : List UInt32) (c : Client Addr) (e : Env Addr) (x : Transfer) : Prop :=
  x.gbn.base ≠ x.gbn.nextseqnum ∧
    ∃ earlier, heard ++ c.acksHeard e = earlier ++ List.replicate 3 x.gbn.base

/-- Fast retransmission as it should be, in an activation after the ACKs `heard`. -/
structure FiresOnEvidence (config : AppConfig) (heard : List UInt32) (c : Client Addr)
    (e : Env Addr) : Prop where
  evidence : ∀ x ack, c.xfer = some x → c.Triggers x e ack → Evidence heard c e x
  /-- so it is whenever packets are sent in answer to an ACK -/
  answers : ∀ x ack, c.xfer = some x → ack ∈ c.acksHeard e → (c.step config e).2 ≠ [] →
    Evidence heard c e x
  /-- and it is the packet asked for that goes out again -/
  resends : ∀ x ack, c.xfer = some x → c.Triggers x e ack →
    SendsNumber c.connection x.gbn.base (c.step config e).2
  /-- an ACK that the window has moved past resends nothing -/
  late : ∀ x ack, c.xfer = some x → ack ∈ c.acksHeard e → ack < x.gbn.base →
    (c.step config e).2 = []

/-- The ACKs heard are not ahead of the window, and those inside it bring something new. -/
def HearsSent (c : Client Addr) (e : Env Addr) : Prop :=
  ∀ x ack, c.xfer = some x → ack ∈ c.acksHeard e → ack ≤ x.gbn.nextseqnum ∧
    (x.gbn.base < ack → (gbnProcessAck x.gbn ack).2 = true)

theorem acksHeard_of_mem {ack : UInt32} (hmem : ack ∈ c.acksHeard e) : c.acksHeard e = [ack] := by
  obtain ⟨hs, h, ht, hack, rfl⟩ := mem_acksHeard.mp hmem
  exact acksHeard_ack hs ht hack

/-- When the count is kept and the ACKs heard are those of the peer, what can go wrong is a stale
third ACK. -/
theorem firesOnEvidence_iff (htally : c.Tally heard) (hsent : c.HearsSent e)
    (hwindow : c.WindowIntact) :
    c.FiresOnEvidence config heard e ↔ ¬ c.StaleThird e := by
  constructor
  · intro hfires hstale
    obtain ⟨x, hx, hdup, hmem, hwhy⟩ := hstale
    have hnext := (hsent x x.lastAck hx hmem).1
    have hle : ¬ x.gbn.base < x.lastAck := by
      rcases hwhy with hlt | hempty
      · exact UInt32.lt_asymm hlt
      · rw [hempty]
        exact UInt32.not_lt.mpr hnext
    have hold : (gbnProcessAck x.gbn x.lastAck).2 = false := by
      rw [gbnProcessAck_outside _ (fun hin => hle hin.1)]
    obtain ⟨hne, earlier, hlast⟩ := hfires.evidence x x.lastAck hx
      ⟨hmem, hold, rfl, by rw [hdup]⟩
    rw [acksHeard_of_mem hmem, List.replicate_succ', ← List.append_assoc] at hlast
    have hbase : x.lastAck = x.gbn.base := (List.cons.inj (List.append_inj' hlast rfl).2).1
    rcases hwhy with hlt | hempty
    · rw [hbase] at hlt
      exact UInt32.lt_irrefl _ hlt
    · exact hne hempty
  · intro hstale
    have hthird (x : Transfer) (ack : UInt32) (hx : c.xfer = some x) (hmem : ack ∈ c.acksHeard e)
        (hlast : ack = x.lastAck) (hdup : x.dupAckCount + 1 = 3) :
        ¬ ack < x.gbn.base ∧ x.gbn.base ≠ x.gbn.nextseqnum := by
      subst hlast
      constructor
      · intro hlt
        exact hstale ⟨x, hx, Nat.succ.inj hdup, hmem, Or.inl hlt⟩
      · intro hempty
        exact hstale ⟨x, hx, Nat.succ.inj hdup, hmem, Or.inr hempty⟩
    have hevidence (x : Transfer) (ack : UInt32) (hx : c.xfer = some x)
        (htrigger : c.Triggers x e ack) : Evidence heard c e x := by
      obtain ⟨hmem, hold, hlast, hdup⟩ := htrigger
      obtain ⟨hlt, hne⟩ := hthird x ack hx hmem hlast hdup
      have hbase : x.lastAck = x.gbn.base := by
        rw [← hlast]
        apply UInt32.le_antisymm _ (UInt32.not_lt.mp hlt)
        apply UInt32.not_lt.mp
        intro hnew
        rw [(hsent x ack hx hmem).2 hnew] at hold
        exact Bool.noConfusion hold
      obtain ⟨earlier, hheard⟩ := htally x hx
      refine ⟨hne, earlier, ?_⟩
      rw [hheard, acksHeard_of_mem hmem, hlast, hbase, List.append_assoc, ← List.replicate_succ',
        hdup]
    refine ⟨hevidence, ?_, ?_, ?_⟩
    · intro x ack hx hmem hsends
      exact hevidence x ack hx (triggers_of_sends hx hmem hsends)
    · intro x ack hx htrigger
      exact htrigger.resends config hwindow hx (hevidence x ack hx htrigger).1
    · intro x ack hx hmem hlt
      obtain ⟨addr, hstep⟩ := step_heard config hx hmem
      rw [hstep]
      apply transferAck_quiet
      intro hagain
      exact (hthird x ack hx hmem hagain.1 hagain.2).1 hlt

end Client

/-- How a step of the system looks to the client: it is given an input, or left alone. -/
inductive Sys.Acts (p : Params Unit) (s : Sys Unit) : List (Env (Node Unit)) → Sys Unit → Prop where
  | client (e : Env (Node Unit)) (net : List (Datagram Unit))
      (hr : Receives (.client ()) ((s.clients ()).reads e) e s.net net)
      (hrand : e.rand 0 = p.clientRand ()) : Acts p s [e] (s.stepClient p () e net)
  | other {s' : Sys Unit} (hs : Sys.Step p s s') (hc : s'.clients = s.clients) : Acts p s [] s'

/-- A run of the system with the inputs of the client. -/
abbrev Sys.Trace (p : Params Unit) : List (Env (Node Unit)) → Sys Unit → Prop :=
  Transition.Trace (Sys.Acts p) p.init

namespace Params

variable (p : Params Unit)

def clientAfter (es : List (Env (Node Unit))) : Client (Node Unit) :=
  Machine.after (Client.step (p.clientConfig ())) (p.init.clients ()) es

/-- The ACKs of its connection that the client has heard by then, oldest first. -/
def acksHeard (es : List (Env (Node Unit))) : List UInt32 :=
  Machine.logged (Client.step (p.clientConfig ())) Client.acksHeard (p.init.clients ()) es

end Params

section Trace

variable {p : Params Unit} {es : List (Env (Node Unit))} {s s' : Sys Unit}

theorem Sys.Acts.step (h : Sys.Acts p s es s') : Sys.Step p s s' := by
  cases h with
  | client e net hr hrand => exact .client s () e net hr hrand
  | other hs _ => exact hs

theorem Sys.Acts.length_le (s : Sys Unit) (es : List (Env (Node Unit))) (s' : Sys Unit)
    (h : Sys.Acts p s es s') : es.length ≤ 1 := by
  cases h with
  | client e net _ _ => exact Nat.le_refl 1
  | other _ _ => exact Nat.zero_le 1

theorem Sys.Trace.client (h : Sys.Trace p es s) : s.clients () = p.clientAfter es := by
  apply Transition.Trace.component (fun s => s.clients ()) _ h
  intro s given s' hacts
  cases hacts with
  | client e net _ _ => exact Function.update_self () _ s.clients
  | other _ hc => rw [hc]; rfl

end Trace

/-- In a session the client hears only ACKs for what it has sent. -/
theorem ClientAt.hearsSent {L : Link} {S : Session L.size} {addr : Addr} {c : Client Addr}
    {e : Env Addr} (h : ClientAt L S addr c) (hears : HearsServer L S addr e) :
    c.HearsSent e := by
  intro x ack hx hmem
  obtain ⟨hs, hd, ht, hack, rfl⟩ := Client.mem_acksHeard.mp hmem
  have hsending : Sending L S x c.file := by
    obtain ⟨_, ⟨_, _, _, hnone⟩ | ⟨_, y, hy, hsending⟩⟩ := h.inState hs
    · exact absurd (hx.symm.trans hnone) (by simp)
    · rw [Option.some.inj (hx.symm.trans hy)]
      exact hsending
  obtain ⟨src, payload, hrecv⟩ := Client.recv_of_taken ht
  obtain ⟨m, hm, hread⟩ := hears.recvServer hrecv
  obtain ⟨k, hk, hnum⟩ := hm.dataAck_of (hread.flags.symm.trans hack.1)
  have hle : hd.ackNum ≤ x.gbn.nextseqnum := by
    have hroom := hsending.room
    have hnext := hsending.next
    have hsent := S.delivered_le
    rw [hread.ackNum, hnum, UInt32.le_iff_toNat_le, L.num_toNat (by omega)]
    omega
  refine ⟨hle, ?_⟩
  intro hlt
  exact (gbnProcessAck_inside hsending.represents _ hlt hle).1

section Trace

variable {p : Params Unit} {es : List (Env (Node Unit))} {s s' : Sys Unit}

theorem Sys.Trace.hearsSent {pre : List (Env (Node Unit))} {e : Env (Node Unit)}
    (h : Sys.Trace p pre s) (hs : Sys.Acts p s [e] s') : (p.clientAfter pre).HearsSent e := by
  obtain ⟨past, hrun⟩ := h.run (fun _ _ _ hacts => Sys.Acts.step hacts)
  obtain ⟨a, ha, _⟩ := Sys.Run.follows p.isn_injective hrun
  rw [← h.client]
  rcases ha.joint.client () with hopening | ⟨S, rfl, hclient⟩
  · intro x ack _ hmem
    obtain ⟨hs, _⟩ := Client.mem_acksHeard.mp hmem
    rcases hopening.state_ne hs with h | h | h <;> exact absurd h (by decide)
  · cases hs with
    | client e net hr hrand =>
      exact hclient.hearsSent (hears_server ha.joint.parties.2.2 hr)

theorem Params.tally (p : Params Unit) (es : List (Env (Node Unit))) :
    (p.clientAfter es).Tally (p.acksHeard es) := by
  rw [Params.clientAfter]
  apply Machine.run_invariant (I := fun es (c : Client (Node Unit)) => c.Tally (p.acksHeard es))
  · intro x hx
    exact absurd hx (by simp [Params.init, Client.init])
  · intro pre e h
    rw [Params.acksHeard, Machine.logged_snoc]
    exact h.step

/-- Fast retransmission fires only on evidence in exactly the runs in which the client does not hear
a stale ACK as the third equal one. -/
theorem fast_retransmit_iff (h : Sys.Trace p es s) :
    (∀ pre e post, es = pre ++ e :: post →
      (p.clientAfter pre).FiresOnEvidence (p.clientConfig ()) (p.acksHeard pre) e) ↔
    Machine.Always (Client.step (p.clientConfig ())) (fun c e => ¬ c.StaleThird e)
      (p.init.clients ()) es := by
  have hpoint (pre : List (Env (Node Unit))) (e : Env (Node Unit))
      (post : List (Env (Node Unit))) (hes : es = pre ++ e :: post) :
      (p.clientAfter pre).FiresOnEvidence (p.clientConfig ()) (p.acksHeard pre) e ↔
        ¬ (p.clientAfter pre).StaleThird e := by
    obtain ⟨t, t', htrace, hacts⟩ := h.given Sys.Acts.length_le hes
    exact Client.firesOnEvidence_iff (p.tally pre) (Sys.Trace.hearsSent htrace hacts)
      (Client.paced_after _ _ _ _ pre).windowIntact
  constructor
  · intro hfires pre e post hes
    exact (hpoint pre e post hes).mp (hfires pre e post hes)
  · intro hstale pre e post hes
    exact (hpoint pre e post hes).mpr (hstale pre e post hes)

end Trace

section Schedule

variable {p : Params Unit} {s s' : Sys Unit}

/-- What the client is given in an event of a schedule. -/
def Sys.given (p : Params Unit) (s : Sys Unit) : Event Unit → List (Env (Node Unit))
  | .client _ ms => [p.clientEnv () ms]
  | .clientRecv _ k ms =>
    s.net[k]?.toList.map (fun d => (p.clientEnv () ms).receiving d.src d.data)
  | .server _ => []
  | .serverRecv _ _ => []
  | .lose _ => []

theorem Sys.play_acts {ev : Event Unit} (h : s.play p ev = some s') :
    Sys.Acts p s (s.given p ev) s' := by
  have hstep := Sys.play_step h
  cases ev with
  | client i ms =>
    obtain rfl := Option.some.inj h
    exact .client _ s.net (.nothing rfl) rfl
  | clientRecv i k ms =>
    cases hd : s.net[k]? with
    | none => simp [play, hd] at h
    | some d =>
      simp only [play, hd] at h
      split_ifs at h with hc
      obtain rfl := Option.some.inj h
      rw [Sys.given, hd]
      exact .client _ _ (.datagram ⟨ClientPc.exists_of_isSelect hc.2, Int.one_pos⟩ d
        (List.mem_of_getElem? hd) hc.1 rfl) rfl
  | server ms =>
    apply Sys.Acts.other hstep
    obtain rfl := Option.some.inj h
    rfl
  | serverRecv k ms =>
    apply Sys.Acts.other hstep
    cases hd : s.net[k]? with
    | none => simp [play, hd] at h
    | some d =>
      simp only [play, hd] at h
      split_ifs at h
      obtain rfl := Option.some.inj h
      rfl
  | lose k =>
    apply Sys.Acts.other hstep
    cases hd : s.net[k]? with
    | none => simp [play, hd] at h
    | some d =>
      simp only [play, hd] at h
      obtain rfl := Option.some.inj h
      rfl

/-- The inputs the client is given when a schedule is played from `s` on. -/
def Sys.inputs (p : Params Unit) : Sys Unit → List (Event Unit) → List (Env (Node Unit))
  | _, [] => []
  | s, ev :: evs =>
    match s.play p ev with
    | none => inputs p s evs
    | some s' => s.given p ev ++ inputs p s' evs

theorem Sys.inputs_trace (evs : List (Event Unit)) {es : List (Env (Node Unit))}
    {r : List (Sys Unit) × Sys Unit} (h : Sys.Trace p es r.2) :
    Sys.Trace p (es ++ Sys.inputs p r.2 evs) (Sys.replay p r evs).2 := by
  induction evs generalizing es r with
  | nil =>
    rw [Sys.inputs, List.append_nil]
    exact h
  | cons ev evs ih =>
    rw [Sys.inputs, Sys.replay]
    cases hp : r.2.play p ev with
    | none => exact ih h
    | some s =>
      dsimp only
      rw [← List.append_assoc]
      exact ih (r := (s :: r.1, s)) (h.step (Sys.play_acts hp))

theorem Params.schedule_trace (p : Params Unit) (evs : List (Event Unit)) :
    Sys.Trace p (Sys.inputs p p.init evs) (p.schedule evs).2 :=
  Sys.inputs_trace evs (r := ([p.init], p.init)) .start

end Schedule

/-- One client that sends five chunks. -/
def fiveChunks : Params Unit :=
  { hello with input := fun _ => [1, 2, 3, 4, 5].map (fun b => .bytes (byteChunk b)) }

/-- The second packet is lost, and the three behind it are acknowledged with its number. -/
def gap : List (Event Unit) :=
  helloSent ++ [.serverRecv 0 1000, .server 1000, .clientRecv () 0 1000, .client () 1000, .lose 0,
    .serverRecv 0 1000, .server 1000, .serverRecv 1 1000, .server 1000, .serverRecv 2 1000,
    .clientRecv () 0 1000, .client () 1000, .clientRecv () 0 1000, .client () 1000,
    .clientRecv () 0 1000]

theorem fast_retransmit_iff_gap :
    fiveChunks.acksHeard (Sys.inputs fiveChunks fiveChunks.init gap) = [19, 19, 19, 19] ∧
    ∀ pre e post, Sys.inputs fiveChunks fiveChunks.init gap = pre ++ e :: post →
      (fiveChunks.clientAfter pre).FiresOnEvidence (fiveChunks.clientConfig ())
        (fiveChunks.acksHeard pre) e :=
  ⟨by decide +kernel, (fast_retransmit_iff (fiveChunks.schedule_trace gap)).mpr (by decide +kernel)⟩

/-- The second packet comes behind the third and the fourth, and its ACK overtakes the three ACKs
that asked for it. -/
def overtaken : List (Event Unit) :=
  helloSent ++ [.serverRecv 0 1000, .server 1000, .serverRecv 2 1000, .server 1000,
    .serverRecv 3 1000, .server 1000, .serverRecv 3 1000, .clientRecv () 0 1000, .client () 1000,
    .clientRecv () 0 1000, .client () 1000, .clientRecv () 0 1000, .client () 1000,
    .clientRecv () 0 1000]

def overtakenInputs : List (Env (Node Unit)) := Sys.inputs fiveChunks fiveChunks.init overtaken

theorem overtakenInputs_ne : overtakenInputs ≠ [] := by
  apply List.ne_nil_of_length_pos
  decide +kernel

/-- The client resends its window, which starts at 20, for the third late ACK with number 19. -/
theorem late_acks_resend_window :
    ¬ ∀ (p : Params Unit) (es : List (Env (Node Unit))) (s : Sys Unit), Sys.Trace p es s →
      ∀ pre e post, es = pre ++ e :: post →
        (p.clientAfter pre).FiresOnEvidence (p.clientConfig ()) (p.acksHeard pre) e := by
  intro hall
  have hfires := hall fiveChunks overtakenInputs _ (fiveChunks.schedule_trace overtaken) _ _ _
    (List.dropLast_append_getLast overtakenInputs_ne).symm
  have hbase : (fiveChunks.clientAfter overtakenInputs.dropLast).xfer.map (fun x => x.gbn.base) =
      some 20 := by decide +kernel
  have hsends : ((fiveChunks.clientAfter overtakenInputs.dropLast).step
      (fiveChunks.clientConfig ()) (overtakenInputs.getLast overtakenInputs_ne)).2.length = 3 := by
    decide +kernel
  obtain ⟨x, hx, hbase⟩ := Option.map_eq_some_iff.mp hbase
  have hquiet := hfires.late x 19 hx (by decide +kernel) (by rw [hbase]; decide)
  rw [hquiet] at hsends
  exact absurd hsends (by decide)

end ReliableUdp
