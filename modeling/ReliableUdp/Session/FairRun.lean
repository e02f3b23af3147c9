import ReliableUdp.Endpoint.SmoothRun
import ReliableUdp.Framework.Fairness
import ReliableUdp.Session.HandshakeLoss

namespace ReliableUdp

open Transition Filter

/-- What happens in one step: an activation of a party, with the answers of the operating system,
or the network loses or duplicates a datagram. -/
inductive Happening where
  | client (e : Env (Node Unit))
  | server (e : Env (Node Unit))
  | lose (d : Datagram Unit)
  | duplicate (d : Datagram Unit)

/-- The steps of the system in which no operation fails and no watchdog expires. -/
inductive Sys.Happens (p : Params Unit) : Sys Unit → Happening → Sys Unit → Prop where
  | client (s : Sys Unit) (e : Env (Node Unit)) (net : List (Datagram Unit))
      (hr : Receives (.client ()) ((s.clients ()).reads e) e s.net net)
      (hrand : e.rand 0 = p.clientRand ())
      (he : e.Smooth (p.clientConfig ()) (s.clients ()).lastProgressMs) :
      Happens p s (.client e) (s.stepClient p () e net)
  | server (s : Sys Unit) (e : Env (Node Unit)) (net : List (Datagram Unit))
      (hr : Receives .server (s.server.reads e) e s.net net)
      (hrand : e.rand 0 = p.connRand ∧ e.rand 1 = p.seqRand)
      (he : e.Smooth p.serverConfig s.server.lastProgressMs) :
      Happens p s (.server e) (s.stepServer p e net)
  | lose (s : Sys Unit) (d : Datagram Unit) (hd : d ∈ s.net) :
      Happens p s (.lose d) { s with net := s.net.erase d }
  | duplicate (s : Sys Unit) (d : Datagram Unit) (hd : d ∈ s.net) :
      Happens p s (.duplicate d) { s with net := d :: s.net }

/-- The party waits in its `select`. -/
def Sys.Listens (s : Sys Unit) : Node Unit → Prop
  | .client () => ∃ ms, (s.clients ()).pc = .select ms
  | .server => ∃ ms, s.server.pc = .select ms

variable {p : Params Unit} {s t : Sys Unit} {a : Happening} {e : Env (Node Unit)}

theorem Sys.Happens.step (h : Sys.Happens p s a t) : Sys.Step p s t := by
  cases h with
  | client e net hr hrand he => exact .client s () e net hr hrand
  | server e net hr hrand he => exact .server s e net hr hrand (fun _ => he.fwrite)
  | lose d hd => exact .lose s d hd
  | duplicate d hd => exact .duplicate s d hd

/-- The client is activated with `e`. -/
structure ClientActs (p : Params Unit) (s t : Sys Unit) (e : Env (Node Unit)) : Prop where
  smooth : e.Smooth (p.clientConfig ()) (s.clients ()).lastProgressMs
  rand : e.rand 0 = p.clientRand ()
  receives : ∃ net, Receives (.client ()) ((s.clients ()).reads e) e s.net net
  client : t.clients () = ((s.clients ()).step (p.clientConfig ()) e).1
  server : t.server = s.server

structure ServerActs (p : Params Unit) (s t : Sys Unit) (e : Env (Node Unit)) : Prop where
  smooth : e.Smooth p.serverConfig s.server.lastProgressMs
  rand : e.rand 0 = p.connRand ∧ e.rand 1 = p.seqRand
  receives : ∃ net, Receives .server (s.server.reads e) e s.net net
  server : t.server = (s.server.step p.serverConfig e).1
  clients : t.clients = s.clients

theorem Sys.Happens.clientActs (h : Sys.Happens p s (.client e) t) : ClientActs p s t e := by
  cases h with
  | client _ net hr hrand he =>
    exact ⟨he, hrand, ⟨net, hr⟩, by simp [stepClient], rfl⟩

theorem Sys.Happens.serverActs (h : Sys.Happens p s (.server e) t) : ServerActs p s t e := by
  cases h with
  | server _ net hr hrand he => exact ⟨he, hrand, ⟨net, hr⟩, rfl, rfl⟩

theorem Sys.Happens.client_still (h : Sys.Happens p s a t) (ha : ∀ e, a ≠ .client e) :
    t.clients = s.clients := by
  cases h with
  | client e net hr hrand he => exact absurd rfl (ha e)
  | server e net hr hrand he => rfl
  | lose d hd => rfl
  | duplicate d hd => rfl

theorem Sys.Happens.server_still (h : Sys.Happens p s a t) (ha : ∀ e, a ≠ .server e) :
    t.server = s.server := by
  cases h with
  | client e net hr hrand he => rfl
  | server e net hr hrand he => exact absurd rfl (ha e)
  | lose d hd => rfl
  | duplicate d hd => rfl

/-- What is under way from the server was so before, or is sent now. -/
theorem Sys.Happens.fromServer (h : Sys.Happens p s a t) {d : Datagram Unit} (hd : d ∈ t.net)
    (hsrc : d.src = .server) : d ∈ s.net ∨
      ∃ e, ∃ o ∈ (s.server.step p.serverConfig e).2, d.data = o.data := by
  cases h with
  | client e net hr hrand he =>
    rcases mem_stepClient hr hd with hd | ⟨_, _, _, rfl⟩
    · exact Or.inl hd
    · exact absurd hsrc (by simp)
  | server e net hr hrand he =>
    rcases mem_stepServer hr hd with hd | ⟨o, ho, _, rfl⟩
    · exact Or.inl hd
    · exact Or.inr ⟨e, o, ho, rfl⟩
  | lose d' hd' => exact Or.inl (List.mem_of_mem_erase hd)
  | duplicate d' hd' =>
    rcases List.mem_cons.mp hd with rfl | hd
    · exact Or.inl hd'
    · exact Or.inl hd

/-- What a socket hands out was under way to it, while its owner waited. -/
theorem Receives.taken {me : Node Unit} {reads : Prop} {net net' : List (Datagram Unit)}
    (h : Receives me reads e net net') (he : e.recvfrom ≠ none) : reads := by
  cases h with
  | nothing hnone => exact absurd hnone he
  | datagram hr _ _ _ _ => exact hr

/-- The timer of the window runs, and the retransmission interval is over. -/
def Client.Overdue {Addr : Type} (c : Client Addr) (e : Env Addr) : Prop :=
  c.window.windowTimerMs ≠ 0 ∧
    UInt64.ofNat retransmitIntervalMs ≤ e.nowMs - c.window.windowTimerMs

/-- A run of one client and the server that never ends. -/
abbrev EndlessRun (p : Params Unit) := Endless (Sys.Happens p) p.init

namespace EndlessRun

variable (r : EndlessRun p)

/-- The datagrams that the step at `i` puts on the wire. -/
def puts (i : ℕ) : List (Datagram Unit) :=
  match r.action i with
  | .client e => emitted (.client ()) (((r.state i).clients ()).step (p.clientConfig ()) e).2
  | .server e => emitted .server ((r.state i).server.step p.serverConfig e).2
  | _ => []

/-- The datagram that the step at `i` takes from a socket. -/
def takes (i : ℕ) : Option (Datagram Unit) :=
  match r.action i with
  | .client e => e.recvfrom.map (fun d => ⟨d.1, .client (), d.2⟩)
  | .server e => e.recvfrom.map (fun d => ⟨d.1, .server, d.2⟩)
  | _ => none

/-- The timer of the client's window. -/
def timer (i : ℕ) : UInt64 := ((r.state i).clients ()).window.windowTimerMs

/-- From some time on the client is in ESTABLISHED. -/
def Transfers : Prop := ∀ᶠ i in atTop, ((r.state i).clients ()).state = .established

/-- Both parties run again and again, and what is sent again and again to a party that waits again
and again reaches it again and again. Of the rounds of a client that stays in its transfer loop,
again and again one comes before the retransmission interval is over, and again and again one
after it, counted from whatever time. -/
structure Fair : Prop where
  client : ∃ᶠ i in atTop, ∃ e, r.action i = .client e
  server : ∃ᶠ i in atTop, ∃ e, r.action i = .server e
  network : ∀ d, (∃ᶠ i in atTop, d ∈ r.puts i) → (∃ᶠ i in atTop, (r.state i).Listens d.dst) →
    ∃ᶠ i in atTop, r.takes i = some d
  early : r.Transfers → ∃ᶠ i in atTop, ∃ e, r.action i = .client e ∧
    ((r.state i).clients ()).pc = .transfer ∧ ¬ ((r.state i).clients ()).Overdue e
  late : r.Transfers → ∀ ms, ∃ᶠ i in atTop, ∃ e, r.action i = .client e ∧
    ((r.state i).clients ()).pc = .transfer ∧ UInt64.ofNat retransmitIntervalMs ≤ e.nowMs - ms

variable {r} {i : ℕ}

theorem clientActs (ha : r.action i = .client e) :
    ClientActs p (r.state i) (r.state (i + 1)) e := by
  have h := r.next i
  rw [ha] at h
  exact h.clientActs

theorem serverActs (ha : r.action i = .server e) :
    ServerActs p (r.state i) (r.state (i + 1)) e := by
  have h := r.next i
  rw [ha] at h
  exact h.serverActs

theorem reached (r : EndlessRun p) (i : ℕ) : Reached p (r.state i) :=
  ⟨_, r.run (fun _ _ _ h => h.step) i⟩

theorem mem_puts_client (ha : r.action i = .client e) {o : Send (Node Unit)}
    (ho : o ∈ (((r.state i).clients ()).step (p.clientConfig ()) e).2) (hsent : o.sent = true) :
    ⟨.client (), o.dst, o.data⟩ ∈ r.puts i := by
  simp only [puts, ha]
  exact mem_emitted.mpr ⟨o, ho, hsent, rfl⟩

theorem mem_puts_server (ha : r.action i = .server e) {o : Send (Node Unit)}
    (ho : o ∈ ((r.state i).server.step p.serverConfig e).2) (hsent : o.sent = true) :
    ⟨.server, o.dst, o.data⟩ ∈ r.puts i := by
  simp only [puts, ha]
  exact mem_emitted.mpr ⟨o, ho, hsent, rfl⟩

variable (r) in
/-- At `i` the server takes the message `m` of the client. -/
structure ServerTakes (i : ℕ) (m : Message) (ms : ℕ) (e : Env (Node Unit)) (h : RDTHeader) :
    Prop where
  action : r.action i = .server e
  acts : ServerActs p (r.state i) (r.state (i + 1)) e
  pc : (r.state i).server.pc = .select ms
  selected : 0 < e.selectResult
  recv : recvPacket e (r.state i).server.clientAddr = (.client (), .ok (h, m.payload))
  read : m.Read h m.payload

variable (r) in
structure ClientTakes (i : ℕ) (m : Message) (ms : ℕ) (e : Env (Node Unit)) (h : RDTHeader) :
    Prop where
  action : r.action i = .client e
  acts : ClientActs p (r.state i) (r.state (i + 1)) e
  pc : ((r.state i).clients ()).pc = .select ms
  selected : 0 < e.selectResult
  recv : recvPacket e ((r.state i).clients ()).serverAddr = (.server, .ok (h, m.payload))
  read : m.Read h m.payload

variable {m : Message}

theorem serverTakes (h : r.takes i = some ⟨.client (), .server, m.bytes⟩)
    (hlen : m.payload.length ≤ maxPacketSize - headerSize) :
    ∃ ms e hd, r.ServerTakes i m ms e hd := by
  cases ha : r.action i with
  | client e =>
    simp only [takes, ha, Option.map_eq_some_iff] at h
    obtain ⟨d, _, hd⟩ := h
    exact absurd (congrArg Datagram.dst hd) (by simp)
  | server e =>
    simp only [takes, ha, Option.map_eq_some_iff] at h
    obtain ⟨⟨src, data⟩, he, hd⟩ := h
    obtain ⟨rfl, _, rfl⟩ := Datagram.mk.inj hd
    have hacts := serverActs ha
    obtain ⟨net, hr⟩ := hacts.receives
    obtain ⟨⟨ms, hpc⟩, hsel⟩ := hr.taken (by simp [he])
    obtain ⟨hd, hrecv, hread⟩ := m.recv hlen (r.state i).server.clientAddr he
    exact ⟨ms, e, hd, ha, hacts, hpc, hsel, hrecv, hread⟩
  | lose d =>
    simp only [takes, ha] at h
    exact absurd h (by simp)
  | duplicate d =>
    simp only [takes, ha] at h
    exact absurd h (by simp)

theorem clientTakes (h : r.takes i = some ⟨.server, .client (), m.bytes⟩)
    (hlen : m.payload.length ≤ maxPacketSize - headerSize) :
    ∃ ms e hd, r.ClientTakes i m ms e hd := by
  cases ha : r.action i with
  | client e =>
    simp only [takes, ha, Option.map_eq_some_iff] at h
    obtain ⟨⟨src, data⟩, he, hd⟩ := h
    obtain ⟨rfl, _, rfl⟩ := Datagram.mk.inj hd
    have hacts := clientActs ha
    obtain ⟨net, hr⟩ := hacts.receives
    obtain ⟨⟨ms, hpc⟩, hsel⟩ := hr.taken (by simp [he])
    obtain ⟨hd, hrecv, hread⟩ := m.recv hlen ((r.state i).clients ()).serverAddr he
    exact ⟨ms, e, hd, ha, hacts, hpc, hsel, hrecv, hread⟩
  | server e =>
    simp only [takes, ha, Option.map_eq_some_iff] at h
    obtain ⟨d, _, hd⟩ := h
    exact absurd (congrArg Datagram.dst hd) (by simp)
  | lose d =>
    simp only [takes, ha] at h
    exact absurd h (by simp)
  | duplicate d =>
    simp only [takes, ha] at h
    exact absurd h (by simp)

/-- The server never goes back into its handshake. -/
theorem past_kept (h : (r.state i).server.state.PastHandshake) :
    (r.state (i + 1)).server.state.PastHandshake := by
  by_cases hturn : ∃ e, r.action i = .server e
  · obtain ⟨e, ha⟩ := hturn
    rw [(serverActs ha).server]
    exact Server.past_step h p.serverConfig e
  · rw [(r.next i).server_still (fun e he => hturn ⟨e, he⟩)]
    exact h

theorem past_from (h : (r.state i).server.state.PastHandshake) :
    ∀ᶠ j in atTop, (r.state j).server.state.PastHandshake :=
  eventually_of_kept (P := fun j => (r.state j).server.state.PastHandshake) h
    (fun _ _ hj => past_kept hj)

/-- No ACK is under way from a server that has not been in ESTABLISHED. -/
theorem no_ack (r : EndlessRun p) (hno : ∀ j, (r.state j).server.state ≠ .established)
    (hflags : m.flags = flagAck) (hlen : m.payload.length ≤ maxPacketSize - headerSize)
    (dst : Node Unit) (i : ℕ) : ⟨.server, dst, m.bytes⟩ ∉ (r.state i).net := by
  induction i with
  | zero =>
    rw [r.start]
    exact List.not_mem_nil
  | succ i ih =>
    intro hd
    rcases (r.next i).fromServer hd rfl with hd | ⟨e, o, ho, hdata⟩
    · exact ih hd
    · obtain ⟨seq, ack, connId, flags, hne, hsent⟩ := Server.step_sends_ack (hno i) o ho
      have hsame : m.bytes = Message.bytes ⟨seq, ack, connId, flags, []⟩ := hdata.trans hsent
      exact hne ((Message.flags_of_bytes hlen (Nat.zero_le _) hsame).symm.trans hflags)

/-- An endless run follows a session. -/
theorem follows (r : EndlessRun p) : ∃ a : ℕ → Stage p, a 0 = none ∧
    ∀ i, Joint p (a i) (r.state i) ∧ Follows p (a i) (r.state (i + 1)) (a (i + 1)) := by
  apply r.simulate (Joint.init p)
  intro b s act t hj hs
  obtain ⟨c, hc⟩ := hj.step p.isn_injective hs.step
  exact ⟨c, hc, hc.joint⟩

end EndlessRun

/-- How much a session has achieved. -/
def Session.rank {n : ℕ} (S : Session n) : ℕ :=
  S.accepted.toNat + S.opened.toNat + S.sent + S.delivered + S.acked + S.closing.toNat +
    S.finSeen.toNat + S.finished.toNat

theorem Session.rank_le {n : ℕ} (S : Session n) : S.rank ≤ 3 * n + 5 := by
  have h1 := S.acked_le
  have h2 := S.delivered_le
  have h3 := S.sent_le
  have hb (b : Bool) : b.toNat ≤ 1 := Bool.toNat_le b
  have ha := hb S.accepted
  have ho := hb S.opened
  have hc := hb S.closing
  have hs := hb S.finSeen
  have hf := hb S.finished
  rw [rank]
  omega

/-- A session that has achieved no more is the same. -/
theorem Session.Le.eq_or_lt {n : ℕ} {S T : Session n} (h : S.Le T) : T = S ∨ S.rank < T.rank := by
  have hb {a b : Bool} (hab : a = true → b = true) : a.toNat ≤ b.toNat := by
    cases a with
    | false => exact Nat.zero_le _
    | true => rw [hab rfl]
  have ha := hb h.accepted
  have ho := hb h.opened
  have hc := hb h.closing
  have hs := hb h.finSeen
  have hf := hb h.finished
  have h1 := h.sent
  have h2 := h.delivered
  have h3 := h.acked
  by_cases hlt : S.rank < T.rank
  · exact Or.inr hlt
  · left
    simp only [rank] at hlt
    have hinj {a b : Bool} (hab : a.toNat = b.toNat) : a = b := by
      cases a <;> cases b <;> simp_all
    obtain ⟨Sa, So, Ss, Sd, Sk, Sc, Sf, Sd', _, _, _, _, _, _, _, _, _⟩ := S
    obtain ⟨Ta, To, Ts, Td, Tk, Tc, Tf, Td', _, _, _, _, _, _, _, _, _⟩ := T
    simp only [mk.injEq]
    dsimp only at *
    exact ⟨hinj (by omega), hinj (by omega), by omega, by omega, by omega, hinj (by omega),
      hinj (by omega), hinj (by omega)⟩

def Stage.rank : Stage p → ℕ
  | none => 0
  | some ⟨_, S⟩ => S.rank + 1

theorem Stage.rank_le (a : Stage p) : a.rank ≤ 3 * (p.link ()).size + 6 := by
  cases a with
  | none => exact Nat.zero_le _
  | some b =>
    have h := b.2.rank_le
    rw [rank]
    exact Nat.succ_le_succ h

theorem Stage.Steps.eq_or_lt {a b : Stage p} (h : Relation.ReflTransGen Stage.Step a b) :
    b = a ∨ a.rank < b.rank := by
  cases a with
  | none =>
    cases b with
    | none => exact Or.inl rfl
    | some b => exact Or.inr (Nat.succ_pos _)
  | some a =>
    obtain ⟨T, rfl, hle⟩ := Stage.Steps.le h rfl
    rcases hle.eq_or_lt with rfl | hlt
    · exact Or.inl rfl
    · exact Or.inr (Nat.succ_lt_succ hlt)

end ReliableUdp
