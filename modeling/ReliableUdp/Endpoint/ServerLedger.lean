import ReliableUdp.Endpoint.PeerAddress

namespace ReliableUdp

open Machine

variable {Addr : Type}

namespace Server

/-- The packet that an activation in ESTABLISHED takes from the socket. -/
def taken (s : Server Addr) (e : Env Addr) : Option (RDTHeader × List UInt8) :=
  if s.state = .established ∧ s.receives e = true then (recvPacket e s.clientAddr).2.toOption
  else none

/-- A DATA packet of the session with the number the server waits for. -/
def Expects (s : Server Addr) (h : RDTHeader) : Prop :=
  h.flags = flagData ∧ h.connId = s.connection.connId ∧ h.seqNum = s.connection.ackNum

instance (s : Server Addr) (h : RDTHeader) : Decidable (s.Expects h) :=
  inferInstanceAs (Decidable (_ ∧ _ ∧ _))

/-- The packet whose payload an activation writes in full. -/
def commits (s : Server Addr) (e : Env Addr) : List (RDTHeader × List UInt8) :=
  (s.taken e).toList.filter (fun r => s.Expects r.1 ∧ written e r.2 = r.2.length)

/-- The packets written in full by the activations `es`, in order. -/
abbrev ledger (config : AppConfig) (s : Server Addr) (es : List (Env Addr)) :
    List (RDTHeader × List UInt8) := logged (step config) commits s es

/-- A write comes up short. -/
def Breaks (s : Server Addr) (e : Env Addr) (payload : List UInt8) : Prop :=
  ∃ h, s.taken e = some (h, payload) ∧ s.Expects h ∧ written e payload < payload.length

end Server

def payloads (packets : List (RDTHeader × List UInt8)) : List UInt8 :=
  (packets.map Prod.snd).flatten

theorem payloads_append (xs ys : List (RDTHeader × List UInt8)) :
    payloads (xs ++ ys) = payloads xs ++ payloads ys := by
  simp [payloads]

theorem payloads_prefix {xs ys : List (RDTHeader × List UInt8)} (h : xs <+: ys) :
    payloads xs <+: payloads ys := by
  obtain ⟨rest, rfl⟩ := h
  rw [payloads_append]
  exact List.prefix_append _ _

theorem payloads_single (h : RDTHeader) (payload : List UInt8) :
    payloads [(h, payload)] = payload := by
  simp [payloads]

theorem Server.written_le (e : Env Addr) (payload : List UInt8) :
    written e payload ≤ payload.length := by
  rw [written]
  cases e.fwrite with
  | none => exact Nat.le_refl _
  | some m => exact Nat.min_le_right _ _

/-- HANDSHAKE and ESTABLISHED: the states in which the numbers of the session are in use. -/
def Server.Open (s : Server Addr) : Prop := s.state = .handshake ∨ s.state = .established

/-- What one activation does to the numbers, the output and the ledger. -/
inductive ServerMove (s : Server Addr) (e : Env Addr) (next : Server Addr × List (Send Addr)) :
    Prop where
  /-- nothing is written and nothing acknowledged -/
  | quiet (commits : s.commits e = []) (output : next.1.output = s.output)
      (running : next.1.state = .listen → s.state = .listen)
      (kept : s.state ≠ .listen → next.1.Open → s.Open ∧ next.1.connection = s.connection)
      (done : s.state = .done → next.1.state = .done)
      (sends : ∀ o ∈ next.2, s.state ≠ .done ∧ ∃ seq ack connId flags, flags ≠ flagAck ∧
        o.data = encode seq ack connId flags [])
  /-- the packet is written and acknowledged, or only acknowledged -/
  | acks (state : s.state = .established) (running : next.1.state ≠ .listen)
      (connection : next.1.connection =
        { s.connection with ackNum := s.connection.ackNum + UInt32.ofNat (s.commits e).length })
      (output : next.1.output = s.output ++ payloads (s.commits e))
      (single : (s.commits e).length ≤ 1)
      (sends : ∀ o ∈ next.2, o.data = encode next.1.connection.seqNum next.1.connection.ackNum
        next.1.connection.connId flagAck [])
  /-- the write comes up short -/
  | breaks (state : s.state = .established) (payload : List UInt8) (broken : s.Breaks e payload)
      (commits : s.commits e = []) (done : next.1.state = .done)
      (output : next.1.output = s.output ++ payload.take (Server.written e payload))
      (sends : next.2 = [])

namespace Server

variable {config : AppConfig} {s : Server Addr} {e : Env Addr}

theorem commits_of_not_taken (h : s.taken e = none) : s.commits e = [] := by
  simp [commits, h]

theorem commits_of_state (h : s.state ≠ .established) : s.commits e = [] := by
  apply commits_of_not_taken
  rw [taken, if_neg (fun hs => h hs.1)]

theorem commits_of_not_receives (h : s.receives e = false) : s.commits e = [] := by
  apply commits_of_not_taken
  rw [taken, if_neg (fun hs => absurd hs.2 (by simp [h]))]

theorem fail_running (s : Server Addr) (code : Int) : (s.fail code).state ≠ .listen := by
  simp [fail]

theorem not_open_of_done {s : Server Addr} (h : s.state = .done) : ¬ s.Open := by
  intro hcase
  rcases hcase with h' | h'
  · exact absurd (h.symm.trans h') (by decide)
  · exact absurd (h.symm.trans h') (by decide)

end Server

section Moves

variable {config : AppConfig} {s : Server Addr} {e : Env Addr}

open Server

theorem ServerMove.fail (hc : s.commits e = []) (code : Int) :
    ServerMove s e (s.fail code, []) := by
  apply ServerMove.quiet hc rfl (fun hn => absurd hn (fail_running s code))
  · intro _ ho
    exact absurd ho (not_open_of_done rfl)
  · intro _
    rfl
  · intro o ho
    exact absurd ho List.not_mem_nil

theorem left_listen (state : ServerState) {s' : Server Addr} (h : s'.state = state)
    (hne : state ≠ .listen) (hl : s'.state = .listen) : s.state = .listen :=
  absurd (h.symm.trans hl) hne

/-- An activation that changes no number, in a state that is not left for good. -/
theorem ServerMove.stay (hc : s.commits e = []) (hs : s.state ≠ .done) {next : Server Addr}
    (hout : next.output = s.output) (hl : next.state = .listen → s.state = .listen)
    (hk : next.Open → s.Open ∧ next.connection = s.connection) :
    ServerMove s e (next, []) := by
  apply ServerMove.quiet hc hout hl
  · intro _ ho
    exact hk ho
  · intro hd
    exact absurd hd hs
  · intro o ho
    exact absurd ho List.not_mem_nil

/-- Any reply but an ACK. -/
theorem ServerMove.reply (hc : s.commits e = []) (hs : s.state ≠ .done) {s' next : Server Addr}
    {flags : UInt8} (hf : flags ≠ flagAck) (hout : next.output = s.output)
    (hout' : s'.output = s.output) (hl : next.state = .listen → s.state = .listen)
    (hk : s.state ≠ .listen → next.Open → s.Open ∧ next.connection = s.connection) :
    ServerMove s e (s'.reply e flags next) := by
  have hsends : ∀ o ∈ [s'.control e flags], s.state ≠ .done ∧
      ∃ seq ack connId flags, flags ≠ flagAck ∧ o.data = encode seq ack connId flags [] := by
    intro o ho
    rw [List.mem_singleton.mp ho]
    exact ⟨hs, _, _, _, flags, hf, rfl⟩
  rw [Server.reply]
  split_ifs
  · exact .quiet hc hout hl hk (fun hd => absurd hd hs) hsends
  · apply ServerMove.quiet hc hout' (fun hn => absurd hn (fail_running s' exOsErr)) _
      (fun _ => rfl) hsends
    intro _ ho
    exact absurd ho (not_open_of_done rfl)

theorem runServer_move (hpc : s.pc = .fsm) : ServerMove s e (s.runServer config e) := by
  have hc : s.commits e = [] := commits_of_not_receives (by simp [receives, hpc])
  by_cases hs : s.state = .done
  · rw [runServer_done hs]
    apply ServerMove.quiet hc rfl id
    · intro _ ho
      exact absurd ho (not_open_of_done hs)
    · intro _
      exact hs
    · intro o ho
      exact absurd ho List.not_mem_nil
  · rw [runServer_running hs, enter]
    split_ifs
    · exact .fail hc _
    · exact .fail hc _
    · exact .stay hc hs rfl id (fun ho => ⟨ho, rfl⟩)

theorem ServerMove.receive (hs : s.state ≠ .done)
    {handle : Server Addr → RDTHeader → List UInt8 → Server Addr × List (Send Addr)}
    (hh : ∀ src h payload, recvPacket e s.clientAddr = (src, .ok (h, payload)) →
      ServerMove s e (handle { s with clientAddr := src } h payload)) :
    ServerMove s e (s.receive e handle) := by
  rw [Server.receive]
  cases hr : (recvPacket e s.clientAddr).2 with
  | error code =>
    have hc : s.commits e = [] := by
      apply commits_of_not_taken
      rw [taken, hr]
      exact ite_self _
    exact .stay hc hs rfl id (fun ho => ⟨ho, rfl⟩)
  | ok received => exact hh _ received.1 received.2 (by rw [← hr])

theorem ServerMove.ready (hs : s.state ≠ .done)
    {handle : Server Addr → RDTHeader → List UInt8 → Server Addr × List (Send Addr)}
    (hh : 0 < e.selectResult → ∀ src h payload,
      recvPacket e s.clientAddr = (src, .ok (h, payload)) →
      ServerMove s e (handle { s with clientAddr := src } h payload)) :
    ServerMove s e (s.ready config e handle) := by
  have hc (h : ¬ 0 < e.selectResult) : s.commits e = [] := by
    apply commits_of_not_receives
    rw [receives]
    split
    · rfl
    · exact decide_eq_false h
    · rfl
  rw [Server.ready]
  split_ifs with h0 hexp hneg
  · rw [waitForPacket_eq_zero] at h0
    exact .fail (hc (by omega)) _
  · rw [waitForPacket_eq_zero] at h0
    exact .stay (hc (by omega)) hs rfl id (fun ho => ⟨ho, rfl⟩)
  · rw [waitForPacket_neg] at hneg
    exact .fail (hc (by omega)) _
  · exact .receive hs (hh (pos_of_waitForPacket h0 hneg))

theorem listenPacket_move (hs : s.state = .listen) (src : Addr) (h : RDTHeader) :
    ServerMove s e ({ s with clientAddr := src }.listenPacket e h) := by
  have hc : s.commits e = [] := commits_of_state (by rw [hs]; decide)
  have hd : s.state ≠ .done := by rw [hs]; decide
  rw [listenPacket]
  split_ifs
  · exact .reply hc hd (by decide) rfl rfl (left_listen .handshake rfl (by decide))
      (fun hl => absurd hs hl)
  · apply ServerMove.quiet hc rfl (fun _ => hs)
    · intro hl
      exact absurd hs hl
    · intro hd'
      exact absurd hd' hd
    · intro o ho
      exact absurd ho List.not_mem_nil

theorem handshakePacket_move (hs : s.state = .handshake) (src : Addr) (h : RDTHeader) :
    ServerMove s e ({ s with clientAddr := src }.handshakePacket e h) := by
  have hc : s.commits e = [] := commits_of_state (by rw [hs]; decide)
  have hd : s.state ≠ .done := by rw [hs]; decide
  have ho : s.Open := Or.inl hs
  rw [handshakePacket]
  split_ifs with hsyn hack hdata
  · exact .reply hc hd (by decide) rfl rfl (left_listen .handshake rfl (by decide))
      (fun _ _ => ⟨ho, rfl⟩)
  · rw [hack.2.2.2]
    exact .stay hc hd rfl (left_listen .established rfl (by decide)) (fun _ => ⟨ho, rfl⟩)
  · exact .stay hc hd rfl (left_listen .established rfl (by decide)) (fun _ => ⟨ho, rfl⟩)
  · exact .stay hc hd rfl (left_listen .handshake rfl (by decide)) (fun _ => ⟨ho, rfl⟩)

theorem lastAckReady_move (hs : s.state = .lastAck) :
    ServerMove s e (s.lastAckReady config e) := by
  have hc : s.commits e = [] := commits_of_state (by rw [hs]; decide)
  have hd : s.state ≠ .done := by rw [hs]; decide
  have hclosed {s' : Server Addr} (h : s'.state = .lastAck) : ¬ s'.Open := by
    intro hcase
    rcases hcase with h' | h'
    · exact absurd (h.symm.trans h') (by decide)
    · exact absurd (h.symm.trans h') (by decide)
  have hsends (s' : Server Addr) : ∀ o ∈ [s'.control e (flagFin ||| flagAck)], s.state ≠ .done ∧
      ∃ seq ack connId flags, flags ≠ flagAck ∧ o.data = encode seq ack connId flags [] := by
    intro o ho
    rw [List.mem_singleton.mp ho]
    exact ⟨hd, _, _, _, _, by decide, rfl⟩
  rw [lastAckReady]
  split_ifs with h0 hexp hneg hstop
  · exact .fail hc _
  · dsimp only
    split_ifs
    · exact .quiet hc rfl (left_listen .lastAck rfl (by decide))
        (fun _ ho => absurd ho (hclosed rfl)) (fun hd' => absurd hd' hd)
        (hsends s)
    · exact .quiet hc rfl (left_listen .done rfl (by decide))
        (fun _ ho => absurd ho (not_open_of_done rfl)) (fun _ => rfl)
        (hsends s)
  · exact .fail hc _
  · exact .fail hc _
  · apply ServerMove.receive hd
    intro src h payload _
    rw [lastAckPacket]
    split_ifs
    · exact .reply hc hd (by decide) rfl rfl (left_listen .lastAck rfl (by decide))
        (fun _ ho => absurd ho (hclosed rfl))
    · exact .stay hc hd rfl (left_listen .done rfl (by decide))
        (fun ho => absurd ho (not_open_of_done rfl))
    · exact .stay hc hd rfl (left_listen .lastAck rfl (by decide))
        (fun ho => absurd ho (hclosed rfl))

/-- An ACK goes out, whether it can be sent or not. -/
theorem ServerMove.acked (hs : s.state = .established) {s' next : Server Addr}
    (hconn : s'.connection =
      { s.connection with ackNum := s.connection.ackNum + UInt32.ofNat (s.commits e).length })
    (hout : s'.output = s.output ++ payloads (s.commits e)) (hsingle : (s.commits e).length ≤ 1)
    (hn : next.state = .established) (hc' : next.connection = s'.connection)
    (ho' : next.output = s'.output) :
    ServerMove s e (s'.reply e flagAck next) := by
  rw [Server.reply]
  split_ifs
  · apply ServerMove.acks hs (by rw [hn]; decide) (hc'.trans hconn) (ho'.trans hout) hsingle
    intro o ho
    rw [List.mem_singleton.mp ho, hc']
    rfl
  · apply ServerMove.acks hs (fail_running s' exOsErr) hconn hout hsingle
    intro o ho
    rw [List.mem_singleton.mp ho]
    rfl

theorem establishedPacket_move (hs : s.state = .established) (hr : s.receives e = true)
    {src : Addr} {h : RDTHeader} {payload : List UInt8}
    (hrecv : recvPacket e s.clientAddr = (src, .ok (h, payload))) :
    ServerMove s e ({ s with clientAddr := src }.establishedPacket e h payload) := by
  have htaken : s.taken e = some (h, payload) := by
    rw [taken, if_pos ⟨hs, hr⟩, hrecv]
    rfl
  have hd : s.state ≠ .done := by rw [hs]; decide
  have hnone (hn : ¬ s.Expects h) : s.commits e = [] := by
    simp [commits, htaken, hn]
  rw [establishedPacket]
  split_ifs with hfin hdata
  · have hn : ¬ s.Expects h := fun hx => absurd (hfin.1.symm.trans hx.1) (by decide)
    refine .reply (hnone hn) hd (by decide) rfl rfl (left_listen .lastAck rfl (by decide)) ?_
    intro _ hcase
    rcases hcase with ho | ho
    · exact absurd ho (by simp [goto])
    · exact absurd ho (by simp [goto])
  · rw [Server.dataPacket]
    by_cases hseq : h.seqNum = s.connection.ackNum
    · have hx : s.Expects h := ⟨hdata.1, hdata.2, hseq⟩
      rw [if_pos hseq]
      dsimp only
      by_cases hshort : written e payload ≠ payload.length
      · rw [if_pos hshort]
        have hle := written_le e payload
        refine .breaks hs payload ⟨h, htaken, hx, by omega⟩ ?_ rfl rfl rfl
        simp [commits, htaken, hshort]
      · rw [if_neg hshort]
        rw [not_not] at hshort
        have hc : s.commits e = [(h, payload)] := by
          simp [commits, htaken, hx, hshort]
        apply ServerMove.acked hs
        · rw [hc]
          rfl
        · rw [hc, payloads_single]
          simp [marked, hshort]
        · rw [hc]
          exact Nat.le_refl 1
        · rfl
        · rfl
        · rfl
    · have hc := hnone (fun hx => hseq hx.2.2)
      have hsame (s' : Server Addr) (h1 : s'.connection = s.connection)
          (h2 : s'.output = s.output) :
          ServerMove s e (s'.reply e flagAck (s'.goto .established)) := by
        apply ServerMove.acked hs
        · rw [hc, h1]
          simp
        · rw [hc, h2]
          simp [payloads]
        · rw [hc]
          exact Nat.zero_le 1
        · rfl
        · rfl
        · rfl
      rw [if_neg hseq]
      apply hsame
      · split_ifs <;> rfl
      · split_ifs <;> rfl
  · have hn : ¬ s.Expects h := fun hx => hdata ⟨hx.1, hx.2.1⟩
    exact .stay (hnone hn) hd rfl (left_listen .established rfl (by decide))
      (fun _ => ⟨Or.inr hs, rfl⟩)

/-- What one activation of the server writes and acknowledges. -/
theorem Server.step_move : ServerMove s e (s.step config e) := by
  cases hpc : s.pc with
  | fsm =>
    rw [step_fsm hpc]
    exact runServer_move hpc
  | returned code =>
    have hc : s.commits e = [] := commits_of_not_receives (by simp [receives, hpc])
    rw [step_returned hpc]
    apply ServerMove.quiet hc rfl id
    · intro _ ho
      exact ⟨ho, rfl⟩
    · exact id
    · intro o ho
      exact absurd ho List.not_mem_nil
  | select ms =>
    rw [step_select hpc]
    cases hs : s.state with
    | listen =>
      rw [resume_listen hs]
      exact .ready (by rw [hs]; decide) (fun _ src h _ _ => listenPacket_move hs src h)
    | handshake =>
      rw [resume_handshake hs]
      exact .ready (by rw [hs]; decide) (fun _ src h _ _ => handshakePacket_move hs src h)
    | established =>
      rw [resume_established hs]
      apply ServerMove.ready (by rw [hs]; decide)
      intro hsel src h payload hrecv
      exact establishedPacket_move hs (by simp [receives, hpc, hs, hsel]) hrecv
    | lastAck =>
      rw [resume_lastAck hs]
      exact lastAckReady_move hs
    | done =>
      have hc : s.commits e = [] := commits_of_state (by rw [hs]; decide)
      simp only [resume, hs]
      apply ServerMove.quiet hc rfl id
      · intro _ ho
        exact ⟨ho, rfl⟩
      · exact id
      · intro o ho
        exact absurd ho List.not_mem_nil

end Moves

section Runs

open Server

variable {config : AppConfig} {s₀ s : Server Addr} {es : List (Env Addr)}

/-- A write came up short, with the packet that comes after those of the ledger. -/
def BrokeOff (config : AppConfig) (s₀ : Server Addr) (es : List (Env Addr)) (s : Server Addr) :
    Prop :=
  s.state = .done ∧ ∃ pre e post h payload, es = pre ++ e :: post ∧
    (after (step config) s₀ pre).taken e = some (h, payload) ∧ h.flags = flagData ∧
    h.connId = s₀.connection.connId ∧
    h.seqNum = s₀.connection.ackNum + UInt32.ofNat (ledger config s₀ es).length ∧
    written e payload < payload.length ∧
    s.output = payloads (ledger config s₀ es) ++ payload.take (written e payload)

/-- The books of a server that took its SYN in the activation before the state `s₀`. -/
structure Balanced (config : AppConfig) (s₀ : Server Addr) (es : List (Env Addr))
    (s : Server Addr) : Prop where
  running : s.state ≠ .listen
  connection : s.Open → s.connection = { s₀.connection with
    ackNum := s₀.connection.ackNum + UInt32.ofNat (ledger config s₀ es).length }
  numbered : ∀ i r, (ledger config s₀ es)[i]? = some r → r.1.flags = flagData ∧
    r.1.connId = s₀.connection.connId ∧ r.1.seqNum = s₀.connection.ackNum + UInt32.ofNat i
  output : s.output = payloads (ledger config s₀ es) ∨ BrokeOff config s₀ es s

theorem Server.expects_of_commits {e : Env Addr} {r : RDTHeader × List UInt8}
    (h : r ∈ s.commits e) : s.Expects r.1 := by
  rw [commits, List.mem_filter, decide_eq_true_eq] at h
  exact h.2.1

/-- Entries are only ever made by a server in ESTABLISHED, with the number it waits for. -/
theorem Balanced.numbered_snoc (h : Balanced config s₀ es s) {e : Env Addr}
    (hs : s = after (step config) s₀ es) (ho : s.commits e ≠ [] → s.Open)
    (hsingle : (s.commits e).length ≤ 1) (i : Nat) (r : RDTHeader × List UInt8)
    (hr : (ledger config s₀ (es ++ [e]))[i]? = some r) :
    r.1.flags = flagData ∧ r.1.connId = s₀.connection.connId ∧
      r.1.seqNum = s₀.connection.ackNum + UInt32.ofNat i := by
  rw [ledger, logged_snoc, ← hs] at hr
  by_cases hi : i < (ledger config s₀ es).length
  · rw [List.getElem?_append_left hi] at hr
    exact h.numbered i r hr
  · rw [List.getElem?_append_right (Nat.not_lt.mp hi)] at hr
    have hmem := List.mem_of_getElem? hr
    have hlt := (List.getElem?_eq_some_iff.mp hr).1
    have hi' : i = (ledger config s₀ es).length := by omega
    have hx := expects_of_commits hmem
    rw [Expects, h.connection (ho (List.ne_nil_of_mem hmem))] at hx
    rw [hi']
    exact hx

theorem Balanced.step (h : Balanced config s₀ es s) (hs : s = after (step config) s₀ es)
    (e : Env Addr) : Balanced config s₀ (es ++ [e]) (s.step config e).1 := by
  have hsnoc : ledger config s₀ (es ++ [e]) = ledger config s₀ es ++ s.commits e := by
    rw [hs]
    exact logged_snoc s₀ es e
  have hmove : ServerMove s e (s.step config e) := step_move
  cases hmove with
  | quiet hc hout hl hk hd _ =>
    have hsame : ledger config s₀ (es ++ [e]) = ledger config s₀ es := by
      rw [hsnoc, hc, List.append_nil]
    refine ⟨fun hn => h.running (hl hn), ?_, ?_, ?_⟩
    · intro ho
      obtain ⟨ho', hconn⟩ := hk h.running ho
      rw [hsame, hconn]
      exact h.connection ho'
    · rw [hsame]
      exact h.numbered
    · rw [hsame, hout]
      rcases h.output with hout' | ⟨hst, pre, d, post, hd', payload, hes, hbroken⟩
      · exact Or.inl hout'
      · right
        refine ⟨hd hst, pre, d, post ++ [e], hd', payload, ?_, ?_⟩
        · rw [hes]
          simp
        · rw [hsame, hout]
          exact hbroken
  | acks hst hrun hconn hout hsingle _ =>
    have ho : s.Open := Or.inr hst
    refine ⟨hrun, ?_, h.numbered_snoc hs (fun _ => ho) hsingle, ?_⟩
    · intro _
      rw [hconn, h.connection ho, hsnoc, List.length_append, UInt32.ofNat_add, UInt32.add_assoc]
    · left
      rcases h.output with hout' | ⟨hd, _⟩
      · rw [hout, hout', hsnoc, payloads_append]
      · exact absurd (hd.symm.trans hst) (by decide)
  | breaks hst payload hbroken hc hdone hout _ =>
    have hsame : ledger config s₀ (es ++ [e]) = ledger config s₀ es := by
      rw [hsnoc, hc, List.append_nil]
    refine ⟨by rw [hdone]; decide, ?_, ?_, ?_⟩
    · intro ho
      exact absurd ho (not_open_of_done hdone)
    · rw [hsame]
      exact h.numbered
    · right
      obtain ⟨hd, htaken, hx, hlt⟩ := hbroken
      rw [Expects, h.connection (Or.inr hst)] at hx
      refine ⟨hdone, es, e, [], hd, payload, rfl, ?_, hx.1, hx.2.1, ?_, hlt, ?_⟩
      · rw [← hs]
        exact htaken
      · rw [hsame]
        exact hx.2.2
      · rcases h.output with hout' | ⟨hd', _⟩
        · rw [hout, hout', hsame]
        · exact absurd (hd'.symm.trans hst) (by decide)

theorem balanced_after (config : AppConfig) (hst : s₀.state = .handshake) (hout : s₀.output = [])
    (es : List (Env Addr)) : Balanced config s₀ es (after (step config) s₀ es) := by
  apply run_invariant
  · refine ⟨by rw [hst]; decide, ?_, nofun, Or.inl hout⟩
    intro _
    simp [ledger, logged]
  · intro pre e h
    exact h.step rfl e

theorem parsePacket_control {seq ack : UInt32} {connId : UInt16} {flags : UInt8} {h : RDTHeader}
    {payload : List UInt8} (hp : parsePacket (encode seq ack connId flags []) = .ok (h, payload)) :
    h.ackNum = ack ∧ h.flags = flags := by
  obtain ⟨checksum, hp'⟩ := parsePacket_encode seq ack connId flags [] (Nat.zero_le _)
  rw [hp'] at hp
  obtain ⟨rfl, _⟩ := Prod.mk.inj (Except.ok.inj hp)
  exact ⟨rfl, rfl⟩

/-- An ACK acknowledges exactly the packets of the ledger, which have been written by then. -/
theorem Balanced.acknowledges (h : Balanced config s₀ es s)
    (hs : s = after (Server.step config) s₀ es)
    {e : Env Addr} {o : Send Addr} (ho : o ∈ (s.step config e).2) {hd : RDTHeader}
    {payload : List UInt8} (hp : parsePacket o.data = .ok (hd, payload))
    (hf : hd.flags = flagAck) :
    hd.ackNum = s₀.connection.ackNum + UInt32.ofNat (ledger config s₀ (es ++ [e])).length ∧
      (s.step config e).1.output = payloads (ledger config s₀ (es ++ [e])) := by
  have hnext := h.step hs e
  have hmove : ServerMove s e (s.step config e) := step_move
  cases hmove with
  | quiet _ _ _ _ _ hsends =>
    obtain ⟨_, seq, ack, connId, flags, hne, hdata⟩ := hsends o ho
    rw [hdata] at hp
    exact absurd ((parsePacket_control hp).2.symm.trans hf) hne
  | acks hst _ hconn hout _ hsends =>
    have hsnoc : ledger config s₀ (es ++ [e]) = ledger config s₀ es ++ s.commits e := by
      rw [hs]
      exact logged_snoc s₀ es e
    rw [hsends o ho] at hp
    constructor
    · rw [(parsePacket_control hp).1, hconn, h.connection (Or.inr hst), hsnoc,
        List.length_append, UInt32.ofNat_add, UInt32.add_assoc]
    · rcases h.output with hout' | ⟨hdone, _⟩
      · rw [hout, hout', hsnoc, payloads_append]
      · exact absurd (hdone.symm.trans hst) (by decide)
  | breaks _ _ _ _ _ _ hsends =>
    rw [hsends] at ho
    exact absurd ho List.not_mem_nil

theorem Server.step_done (config : AppConfig) (hs : s.state = .done) (e : Env Addr) :
    (s.step config e).1.state = .done ∧ (s.step config e).2 = [] := by
  have hmove : ServerMove s e (s.step config e) := step_move
  cases hmove with
  | quiet _ _ _ _ hd hsends =>
    refine ⟨hd hs, List.eq_nil_iff_forall_not_mem.mpr ?_⟩
    intro o ho
    exact (hsends o ho).1 hs
  | acks hst _ _ _ _ _ => exact absurd (hs.symm.trans hst) (by decide)
  | breaks hst _ _ _ _ _ _ => exact absurd (hs.symm.trans hst) (by decide)

/-- The packet that ESTABLISHED waits for goes to the branch that writes. -/
theorem Server.step_expected (config : AppConfig) {e : Env Addr} {h : RDTHeader}
    {payload : List UInt8} (htaken : s.taken e = some (h, payload)) (hx : s.Expects h) :
    ∃ a, s.step config e = { s with clientAddr := a }.dataPacket e h payload := by
  rw [taken] at htaken
  split_ifs at htaken with hr
  have hsel : (∃ ms, s.pc = .select ms) ∧ e.selectResult > 0 := by
    have h := hr.2
    rw [receives] at h
    split at h
    · exact Bool.noConfusion h
    · exact ⟨⟨_, ‹_›⟩, of_decide_eq_true h⟩
    · exact Bool.noConfusion h
  obtain ⟨⟨ms, hpc⟩, hpos⟩ := hsel
  have hrecv : (recvPacket e s.clientAddr).2 = .ok (h, payload) := by
    cases hrecv : (recvPacket e s.clientAddr).2 with
    | error code => rw [hrecv] at htaken; exact absurd htaken (by simp [Except.toOption])
    | ok received =>
      rw [hrecv] at htaken
      exact congrArg Except.ok (Option.some.inj htaken)
  have h0 : ¬ waitForPacket e.selectResult = 0 := by
    rw [waitForPacket_eq_zero]
    omega
  have hneg : ¬ waitForPacket e.selectResult < 0 := by
    rw [waitForPacket_neg]
    omega
  have hnofin : ¬ h.flags = flagFin := fun hf => absurd (hf.symm.trans hx.1) (by decide)
  refine ⟨(recvPacket e s.clientAddr).1, ?_⟩
  rw [step_select hpc, resume_established hr.1, establishedReady, ready, if_neg h0, if_neg hneg,
    receive, hrecv]
  dsimp only
  rw [establishedPacket, if_neg (fun hf => hnofin hf.1), if_pos ⟨hx.1, hx.2.1⟩]

/-- A short write ends the server without a packet. -/
theorem Server.step_breaks (config : AppConfig) {e : Env Addr} {payload : List UInt8}
    (h : s.Breaks e payload) :
    (s.step config e).1.state = .done ∧ (s.step config e).2 = [] := by
  obtain ⟨hd, htaken, hx, hlt⟩ := h
  obtain ⟨a, hstep⟩ := step_expected config htaken hx
  rw [hstep, Server.dataPacket, if_pos hx.2.2]
  dsimp only
  rw [if_pos (by omega)]
  exact ⟨rfl, rfl⟩

/-- What the server has written and acknowledged in the activations `es` after it took a SYN. -/
structure Ledgered (config : AppConfig) (s₀ : Server Addr) (es : List (Env Addr)) : Prop where
  numbered : ∀ i r, (ledger config s₀ es)[i]? = some r → r.1.flags = flagData ∧
    r.1.connId = s₀.connection.connId ∧ r.1.seqNum = s₀.connection.ackNum + UInt32.ofNat i
  /-- every packet of the ledger was read in ESTABLISHED, and was written once -/
  once : (ledger config s₀ es).Sublist
    (logged (step config) (fun s e => (s.taken e).toList) s₀ es)
  output : (after (step config) s₀ es).output = payloads (ledger config s₀ es) ∨
    BrokeOff config s₀ es (after (step config) s₀ es)
  grows : ∀ pre post, es = pre ++ post → ledger config s₀ pre <+: ledger config s₀ es
  acks : ∀ pre e post, es = pre ++ e :: post →
    ∀ o ∈ ((after (step config) s₀ pre).step config e).2, ∀ h payload,
    parsePacket o.data = .ok (h, payload) → h.flags = flagAck →
    h.ackNum = s₀.connection.ackNum + UInt32.ofNat (ledger config s₀ (pre ++ [e])).length ∧
    (after (step config) s₀ (pre ++ [e])).output = payloads (ledger config s₀ (pre ++ [e]))
  failed : ∀ pre e post payload, es = pre ++ e :: post →
    (after (step config) s₀ pre).Breaks e payload →
    outputs (step config) (after (step config) s₀ pre) (e :: post) = []

theorem ledgered (hst : s₀.state = .handshake) (hout : s₀.output = []) (es : List (Env Addr)) :
    Ledgered config s₀ es := by
  have hall := balanced_after config hst hout
  refine ⟨(hall es).numbered, ?_, (hall es).output, ?_, ?_, ?_⟩
  · apply logged_sublist
    intro s e
    exact List.filter_sublist
  · intro pre post hes
    rw [hes]
    exact logged_prefix s₀ pre post
  · intro pre e post hes o ho h payload hp hf
    rw [after_snoc]
    exact (hall pre).acknowledges rfl ho hp hf
  · intro pre e post payload hes hbreaks
    obtain ⟨hdone, hnil⟩ := step_breaks config hbreaks
    rw [outputs, logged, hnil]
    exact outputs_nil (P := fun s : Server Addr => s.state = .done)
      (fun s e hs => step_done config hs e) hdone post

/-- In LISTEN a SYN is taken. -/
def Server.Admits (config : AppConfig) (s : Server Addr) (e : Env Addr) : Prop :=
  s.state = .listen ∧ (s.step config e).1.state = .handshake

theorem Server.step_listen (config : AppConfig) (e : Env Addr) (hs : s.state = .listen) :
    (s.step config e).1.state = .listen ∨ (s.step config e).1.state = .handshake ∨
      (s.step config e).1.state = .done := by
  cases hpc : s.pc with
  | returned code =>
    rw [step_returned hpc]
    exact Or.inl hs
  | fsm =>
    rw [step_fsm hpc, runServer_running (by rw [hs]; decide), enter]
    split_ifs
    · exact Or.inr (Or.inr rfl)
    · exact Or.inr (Or.inr rfl)
    · exact Or.inl hs
  | select ms =>
    rw [step_select hpc, resume_listen hs, listenReady, ready]
    split_ifs
    · exact Or.inr (Or.inr rfl)
    · exact Or.inl hs
    · exact Or.inr (Or.inr rfl)
    · rw [receive]
      cases (recvPacket e s.clientAddr).2 with
      | error code => exact Or.inl hs
      | ok received =>
        dsimp only
        rw [listenPacket]
        split_ifs
        · rw [Server.reply]
          split_ifs
          · exact Or.inr (Or.inl rfl)
          · exact Or.inr (Or.inr rfl)
        · exact Or.inl rfl

/-- No SYN is taken in the run `es`. -/
abbrev Server.Unadmitted (config : AppConfig) : Server Addr → List (Env Addr) → Prop :=
  Always (step config) (fun s e => ¬ s.Admits config e)

/-- As long as no SYN has been taken nothing is written. -/
theorem Server.step_unwritten (e : Env Addr) (hs : s.state ≠ .established) :
    (s.step config e).1.output = s.output := by
  have hmove : ServerMove s e (s.step config e) := step_move
  cases hmove with
  | quiet _ hout _ _ _ _ => exact hout
  | acks hst _ _ _ _ _ => exact absurd hst hs
  | breaks hst _ _ _ _ _ _ => exact absurd hst hs

theorem Server.unadmitted_idle {es : List (Env Addr)} (h : Unadmitted config s es)
    (hs : s.state = .listen) :
    ((after (step config) s es).state = .listen ∨ (after (step config) s es).state = .done) ∧
      (after (step config) s es).output = s.output := by
  induction es using List.reverseRecOn with
  | nil => exact ⟨Or.inl hs, rfl⟩
  | append_singleton pre e ih =>
    obtain ⟨hst, hout⟩ := ih h.left
    have hne : (after (step config) s pre).state ≠ .established := by
      rcases hst with hst | hst <;> rw [hst] <;> decide
    rw [after_snoc]
    refine ⟨?_, (step_unwritten e hne).trans hout⟩
    rcases hst with hst | hst
    · rcases step_listen config e hst with hn | hn | hn
      · exact Or.inl hn
      · exact absurd ⟨hst, hn⟩ (h pre e [] rfl)
      · exact Or.inr hn
    · exact Or.inr (step_done config hst e).1

theorem Server.step_running (config : AppConfig) (e : Env Addr) (hs : s.state ≠ .listen) :
    (s.step config e).1.state ≠ .listen := by
  have hmove : ServerMove s e (s.step config e) := step_move
  cases hmove with
  | quiet _ _ hl _ _ _ => exact fun hn => hs (hl hn)
  | acks _ hrun _ _ _ _ => exact hrun
  | breaks _ _ _ _ hdone _ _ => rw [hdone]; decide

/-- A server in LISTEN has always been there. -/
theorem Server.unadmitted_of_listen {es : List (Env Addr)}
    (h : (after (step config) s es).state = .listen) : Unadmitted config s es := by
  intro pre e post hes hadmits
  have hrun : ((after (step config) s pre).step config e).1.state ≠ .listen := by
    rw [hadmits.2]
    decide
  have hkeep := after_invariant (P := fun s : Server Addr => s.state ≠ .listen)
    (fun _ e hs => step_running config e hs) hrun post
  rw [hes, after_append] at h
  exact hkeep h

/-- Whatever arrives, the server acknowledges only what it has written. -/
theorem acknowledged_is_written (config : AppConfig) (clientAddr : Addr) (startMs : UInt64)
    (es : List (Env Addr)) :
    (∀ pre e post, es = pre ++ e :: post →
      (after (step config) (init clientAddr startMs) pre).Admits config e →
      Ledgered config (after (step config) (init clientAddr startMs) (pre ++ [e])) post) ∧
    (Unadmitted config (init clientAddr startMs) es →
      (after (step config) (init clientAddr startMs) es).output = [] ∧
      ∀ o ∈ outputs (step config) (init clientAddr startMs) es, ∀ h payload,
        parsePacket o.data = .ok (h, payload) → h.flags ≠ flagAck) := by
  constructor
  · intro pre e post hes hadmits
    obtain ⟨hs, hs'⟩ := hadmits
    have hout := (unadmitted_idle (unadmitted_of_listen hs) rfl).2
    rw [after_snoc]
    apply ledgered hs'
    rw [step_unwritten e (by rw [hs]; decide), hout]
    rfl
  · intro h
    refine ⟨(unadmitted_idle h rfl).2, ?_⟩
    intro o ho hd payload hp hf
    obtain ⟨pre, e, post, hes, hsent⟩ := mem_outputs.mp ho
    rw [hes] at h
    have hst := (unadmitted_idle h.left rfl).1
    have hmove : ServerMove (after (step config) (init clientAddr startMs) pre) e
        (step config (after (step config) (init clientAddr startMs) pre) e) := step_move
    cases hmove with
    | quiet _ _ _ _ _ hsends =>
      obtain ⟨_, seq, ack, connId, flags, hne, hdata⟩ := hsends o hsent
      rw [hdata] at hp
      exact hne ((parsePacket_control hp).2.symm.trans hf)
    | acks hst' _ _ _ _ _ => rcases hst with hst | hst <;> simp [hst] at hst'
    | breaks hst' _ _ _ _ _ _ => rcases hst with hst | hst <;> simp [hst] at hst'

/-- The handshake ACK, a forged DATA packet and a genuine one. -/
def ledgerTraffic : List (Env Nat) :=
  [.calm Nat 1000, .arrival 1 (encode 1 1 1 flagAck []) 1000, .calm Nat 1000,
    .arrival 9 (encode 1 1 7 flagData [66]) 1000, .calm Nat 1000,
    .arrival 1 (encode 1 1 1 flagData [65]) 1000]

theorem acknowledged_is_written_traffic :
    (ledger strayConfig (after (step strayConfig) (init 0 1000) [.calm Nat 1000, straySyn])
      ledgerTraffic).length = 1 ∧
    Ledgered strayConfig (after (step strayConfig) (init 0 1000) [.calm Nat 1000, straySyn])
      ledgerTraffic :=
  ⟨by decide +kernel,
    (acknowledged_is_written strayConfig 0 1000 (.calm Nat 1000 :: straySyn :: ledgerTraffic)).1
      [.calm Nat 1000] straySyn ledgerTraffic rfl ⟨by decide +kernel, by decide +kernel⟩⟩

end Runs

end ReliableUdp
