import ReliableUdp.Session.Continuation
import ReliableUdp.Session.TransferRound

namespace ReliableUdp

open Transition

section Stages

variable {p : Params Unit} {s t : Sys Unit}

/-- The state of a client that has taken the SYN+ACK belongs to a session. -/
theorem Reached.clientSession (hr : Reached p s)
    (hs : (s.clients ()).state = .established ∨ (s.clients ()).state = .finWait ∨
      (s.clients ()).state = .timeWait) : ∃ S, InSession p S s := by
  rcases hr.cases with ⟨hopening, _⟩ | hin
  · rcases hs with hs | hs | hs
    · exact absurd (hopening.state_ne hs) (by decide)
    · exact absurd (hopening.state_ne hs) (by decide)
    · exact absurd (hopening.state_ne hs) (by decide)
  · exact hin

theorem Server.Ended.step_output {Addr : Type} {s : Server Addr} {code : Int} {config : AppConfig}
    (h : s.Ended code) (e : Env Addr) : (s.step config e).1.output = s.output := by
  rcases h.pc with hpc | hpc
  · rw [Server.step_fsm hpc, Server.runServer_done h.state]
    rfl
  · rw [Server.step_returned hpc]

/-- Both parties clean up. -/
theorem Reached.returns (hr : Reached p s) (hc : (s.clients ()).Ended exOk)
    (hs : s.server.Ended exOk) (hout : s.server.output = joinChunks (content (p.input ()))) :
    Sys.Recoverable p s := by
  obtain ⟨e₁, t, hm, _, _⟩ := hr.serverTurn
  obtain ⟨hended, hpc⟩ := hs.goesOn p.serverConfig hm.smooth.toFlawless
  rw [← hm.server] at hended hpc
  have hout' : t.server.output = joinChunks (content (p.input ())) := by
    rw [hm.server, hs.step_output, hout]
  obtain ⟨e₂, u, hm', _, _, _, _, _, _⟩ := hm.reached.clientTurn 1
  rw [← hm.clients] at hc
  obtain ⟨hended', hpc'⟩ := hc.goesOn (p.clientConfig ()) hm'.smooth.toFlawless
  rw [← hm'.client] at hended' hpc'
  refine .next hm.step (.next hm'.step (.now ⟨⟨hended'.state, hpc'⟩, ?_, ?_⟩))
  · rw [hm'.server]
    exact ⟨hended.state, hpc⟩
  · rw [hm'.server]
    exact hout'

/-- The client leaves TIME_WAIT behind a server that is at its end. -/
theorem Reached.leaves (hr : Reached p s) (hc : (s.clients ()).state = .timeWait)
    (hs : s.server.Ended exOk) (hout : s.server.output = joinChunks (content (p.input ()))) :
    Sys.Recoverable p s := by
  obtain ⟨S, hin⟩ := hr.clientSession (Or.inr (Or.inr hc))
  have hwait := hin.client.timeWait_of hc
  apply (hr.clientWaits (Or.inr (Or.inr hc))).trans
  intro t hw
  obtain ⟨ms, hclient⟩ := hw.client
  obtain ⟨e, u, hm, hsel, _⟩ := hw.reached.clientTurn 1
  have hstep : (t.clients ()).step (p.clientConfig ()) e = ((t.clients ()).goto .done, []) := by
    apply Client.step_leaves _ (congrArg Client.pc hclient) hsel
    rw [hclient]
    exact hc
  refine .next hm.step (hm.reached.returns ?_ ?_ ?_)
  · rw [hm.client, hstep, hclient]
    exact ⟨rfl, hwait.exit, Or.inl rfl⟩
  · rw [hm.server, hw.server]
    exact hs
  · rw [hm.server, hw.server]
    exact hout

/-- In LAST_ACK the server repeats its FIN+ACK. -/
theorem Reached.repeatsFinAck (hr : Reached p s) (hs : s.server.state = .lastAck) :
    CanReach (Sys.SmoothStep p) (fun t => Reached p t ∧ t.clients = s.clients ∧
      t.server.state = .lastAck ∧
      ⟨.server, .client (), (p.link ()).finAck.bytes⟩ ∈ t.net) s := by
  have hd : s.server.state ≠ .done := by rw [hs]; decide
  obtain ⟨S, hin⟩ := hr.session (by rw [hs]; decide) hd
  have hclosing := hin.server.closing_of hs
  apply (hr.serverWaits hd).trans
  intro t hw
  obtain ⟨ms, hserver⟩ := hw.server
  obtain ⟨e, u, hm, hsel, _⟩ := hw.reached.serverTurn
  have hst : t.server.state = .lastAck := by rw [hserver]; exact hs
  have hstep := Server.step_repeat hm.smooth hst (congrArg Server.pc hserver) hsel
  refine .next hm.step (.now ⟨hm.reached, hm.clients.trans hw.clients, ?_, ?_⟩)
  · rw [hm.server, hstep]
    rfl
  · have hsent := hm.sends hstep (hm.smooth.sendto _)
    have hdst : (t.server.control e (flagFin ||| flagAck)).dst = .client () := by
      rw [hserver]
      exact hin.peer
    have hdata : (t.server.control e (flagFin ||| flagAck)).data = (p.link ()).finAck.bytes := by
      rw [hserver]
      simp only [Server.control, Server.selecting, sendPacket, hclosing.connection]
      rfl
    rw [hdst, hdata] at hsent
    exact hsent

/-- With the final ACK under way the server comes to its end. -/
theorem Reached.hearsFinalAck (hr : Reached p s) (hc : (s.clients ()).state = .timeWait)
    (hs : s.server.state = .lastAck)
    (hnet : ⟨.client (), .server, (p.link ()).lastAck.bytes⟩ ∈ s.net) :
    Sys.Recoverable p s := by
  have hd : s.server.state ≠ .done := by rw [hs]; decide
  obtain ⟨S, hin⟩ := hr.session (by rw [hs]; decide) hd
  have hclosing := hin.server.closing_of hs
  apply (hr.serverHears hd hnet (Nat.zero_le _)).trans
  intro t hstage
  obtain ⟨ms, e, h, ht⟩ := hstage
  have htake : (s.server.selecting ms).TakesFinalAck h := by
    simp only [Server.TakesFinalAck, Server.selecting, hclosing.connection]
    exact ⟨ht.read.flags, ht.read.connId, ht.read.ackNum, ht.read.seqNum⟩
  have hstep := Server.step_takesFinalAck ht.smooth (s := s.server.selecting ms) hs
    rfl ht.selected ht.recv htake
  refine ht.reached.leaves (by rw [ht.clients]; exact hc) ?_ ?_
  · rw [ht.server, hstep]
    exact ⟨rfl, hclosing.exit, Or.inl rfl⟩
  · rw [ht.server, hstep]
    exact hclosing.output

/-- A client in TIME_WAIT sends the final ACK once more. -/
theorem Reached.closes (hr : Reached p s) (hc : (s.clients ()).state = .timeWait)
    (hs : s.server.state = .lastAck) : Sys.Recoverable p s := by
  apply (hr.repeatsFinAck hs).trans
  intro t hstage
  obtain ⟨hr, hclients, hs, hnet⟩ := hstage
  rw [← hclients] at hc
  obtain ⟨S, hin⟩ := hr.clientSession (Or.inr (Or.inr hc))
  have hwait := hin.client.timeWait_of hc
  apply (hr.clientHears (Or.inr (Or.inr hc)) hnet (Nat.zero_le _)).trans
  intro u hstage
  obtain ⟨ms, e, h, hu⟩ := hstage
  have hstep := Client.step_acksAgain hu.smooth (c := (t.clients ()).selecting ms) hc rfl
    hu.selected hu.recv (by
      simp only [Client.selecting, hwait.connection]
      exact ⟨hu.read.flags, hu.read.connId, hu.read.ackNum⟩)
  refine hu.reached.hearsFinalAck ?_ (by rw [hu.server]; exact hs) ?_
  · rw [hu.client, hstep]
    rfl
  · have hsent := hu.sends (congrArg Prod.snd hstep) (hu.smooth.sendto _)
    simp only [Client.control, Client.selecting, sendPacket, hwait.connection] at hsent
    exact hsent

/-- A client in FIN_WAIT takes the FIN+ACK. -/
theorem Reached.finishes (hr : Reached p s) (hc : (s.clients ()).state = .finWait)
    (hs : s.server.state = .lastAck) : Sys.Recoverable p s := by
  apply (hr.repeatsFinAck hs).trans
  intro t hstage
  obtain ⟨hr, hclients, hs, hnet⟩ := hstage
  rw [← hclients] at hc
  obtain ⟨S, hin⟩ := hr.clientSession (Or.inr (Or.inl hc))
  have hwait := hin.client.finWait_of hc
  apply (hr.clientHears (Or.inr (Or.inl hc)) hnet (Nat.zero_le _)).trans
  intro u hstage
  obtain ⟨ms, e, h, hu⟩ := hstage
  have hstep := Client.step_finishes hu.smooth (c := (t.clients ()).selecting ms) hc rfl
    hu.selected hu.recv (by
      simp only [Client.selecting, hwait.connection, Link.connection, Link.num_fin]
      exact ⟨hu.read.flags, hu.read.connId, hu.read.ackNum⟩)
  refine hu.reached.closes ?_ (by rw [hu.server]; exact hs)
  rw [hu.client, hstep]
  rfl

/-- In FIN_WAIT the client repeats its FIN. -/
theorem Reached.repeatsFin (hr : Reached p s) (hc : (s.clients ()).state = .finWait) :
    CanReach (Sys.SmoothStep p) (fun t => Reached p t ∧ t.server = s.server ∧
      (t.clients ()).state = .finWait ∧
      ⟨.client (), .server, (p.link ()).fin.bytes⟩ ∈ t.net) s := by
  obtain ⟨S, hin⟩ := hr.clientSession (Or.inr (Or.inl hc))
  have hwait := hin.client.finWait_of hc
  apply (hr.clientWaits (Or.inr (Or.inl hc))).trans
  intro t hw
  obtain ⟨ms, hclient⟩ := hw.client
  obtain ⟨e, u, hm, hsel, _⟩ := hw.reached.clientTurn 1
  have hst : (t.clients ()).state = .finWait := by rw [hclient]; exact hc
  have hstep := Client.step_finAgain hm.smooth hst (congrArg Client.pc hclient) hsel
  obtain ⟨e', v, hm', _⟩ := hm.reached.clientTurn 1
  have hnext : u.clients () = (t.clients ()).goto .finWait := by rw [hm.client, hstep]
  have hstep' := Client.step_sendsFin hm'.smooth (by rw [hnext]; rfl) (by rw [hnext]; rfl)
  refine .next hm.step (.next hm'.step (.now ⟨hm'.reached, ?_, ?_, ?_⟩))
  · rw [hm'.server, hm.server, hw.server]
  · rw [hm'.client, hstep', hnext]
    rfl
  · have hsent := hm'.sends hstep' (hm'.smooth.sendto _)
    simp only [hnext, hclient, Client.goto, Client.control, Client.selecting, sendPacket,
      hwait.connection, hin.client.peer] at hsent
    exact hsent

/-- A server that receives takes the FIN. -/
theorem Reached.takesFin (hr : Reached p s) (hc : (s.clients ()).state = .finWait)
    (hs : s.server.state = .established) : Sys.Recoverable p s := by
  apply (hr.repeatsFin hc).trans
  intro t hstage
  obtain ⟨hr, hserver, hc, hnet⟩ := hstage
  rw [← hserver] at hs
  have hd : t.server.state ≠ .done := by rw [hs]; decide
  obtain ⟨S, hin⟩ := hr.clientSession (Or.inr (Or.inl hc))
  have hrecv := hin.server.receiving hs
  have hall := (S.delivered_of_closing (hin.client.finWait_of hc).closing).2.1
  apply (hr.serverHears hd hnet (Nat.zero_le _)).trans
  intro u hstage
  obtain ⟨ms, e, h, hu⟩ := hstage
  have hstep := Server.step_takesFin hu.smooth (s := t.server.selecting ms) hs rfl
    hu.selected hu.recv (by
      simp only [Server.selecting, hrecv.connection, hall]
      exact ⟨hu.read.flags, hu.read.connId, hu.read.seqNum⟩)
  refine hu.reached.finishes (by rw [hu.clients]; exact hc) ?_
  rw [hu.server, hstep]
  rfl

/-- With the ACK of the handshake under way the server opens. -/
theorem Reached.hearsHandshakeAck (hr : Reached p s) (hs : s.server.state = .handshake)
    (hnet : ⟨.client (), .server, (p.link ()).handshakeAck.bytes⟩ ∈ s.net) :
    CanReach (Sys.SmoothStep p) (fun t => Reached p t ∧ t.clients = s.clients ∧
      t.server.state = .established) s := by
  have hd : s.server.state ≠ .done := by rw [hs]; decide
  obtain ⟨S, hin⟩ := hr.session (by rw [hs]; decide) hd
  have hshake := hin.server.handshake_of hs
  apply (hr.serverHears hd hnet (Nat.zero_le _)).trans
  intro t hstage
  obtain ⟨ms, e, h, ht⟩ := hstage
  refine .now ⟨ht.reached, ht.clients, ?_⟩
  rw [ht.server]
  apply Server.step_opened ht.smooth (s := s.server.selecting ms) hs rfl ht.selected
    ht.recv
  simp only [Server.selecting, hshake.connection]
  exact ⟨Or.inl ht.read.flags, ht.read.connId, ht.read.ackNum, ht.read.seqNum⟩

end Stages

section Transfer

variable {p : Params Unit} {s t u : Sys Unit} {x : Transfer} {pc : ClientPc}

/-- From `s` to `t` the client has stayed in its transfer loop, where it is now at `pc` with the
same `base`; nothing else has changed, and no datagram got lost. -/
structure Loops (p : Params Unit) (s t : Sys Unit) (pc : ClientPc) (x : Transfer) : Prop where
  reached : Reached p t
  server : t.server = s.server
  net : ∀ d ∈ s.net, d ∈ t.net
  state : (t.clients ()).state = .established
  pc : (t.clients ()).pc = pc
  xfer : (t.clients ()).xfer = some x
  base : x.gbn.base = (s.clients ()).window.base

/-- From `s` to `t` the client has left its transfer loop. -/
structure LoopDone (p : Params Unit) (s t : Sys Unit) : Prop where
  reached : Reached p t
  server : t.server = s.server
  net : ∀ d ∈ s.net, d ∈ t.net
  state : (t.clients ()).state = .finWait

def Transfer.Busy (x : Transfer) : Prop := x.gbn.base ≠ x.gbn.nextseqnum

theorem Loops.window (h : Loops p s t pc x) : (t.clients ()).window = x.gbn := by
  rw [Client.window, h.xfer]

theorem Loops.trans (h : Loops p s t pc x) {pc' : ClientPc} {y : Transfer}
    (h' : Loops p t u pc' y) : Loops p s u pc' y :=
  ⟨h'.reached, h'.server.trans h.server, fun d hd => h'.net d (h.net d hd), h'.state, h'.pc,
    h'.xfer, by rw [h'.base, h.window, h.base]⟩

theorem Loops.done (h : Loops p s t pc x) (h' : LoopDone p t u) : LoopDone p s u :=
  ⟨h'.reached, h'.server.trans h.server, fun d hd => h'.net d (h.net d hd), h'.state⟩

theorem ClientAt.sending {L : Link} {S : Session L.size} {Addr : Type} {addr : Addr}
    {c : Client Addr} (h : ClientAt L S addr c) (hs : c.state = .established)
    (hx : c.xfer = some x) : InTransfer L S c ∧ Sending L S x c.file := by
  obtain ⟨ht, ⟨_, _, _, hnone⟩ | ⟨_, y, hy, hsending⟩⟩ := h.inState hs
  · rw [hx] at hnone
    exact absurd hnone (by simp)
  · rw [hx] at hy
    obtain rfl := Option.some.inj hy
    exact ⟨ht, hsending⟩

/-- The wait of the transfer loop times out. -/
theorem Reached.timesOut (hr : Reached p s) (hc : (s.clients ()).state = .established) {ms : Nat}
    (hpc : (s.clients ()).pc = .select ms) (hx : (s.clients ()).xfer = some x) :
    CanReach (Sys.SmoothStep p) (fun t => Loops p s t .transfer x) s := by
  obtain ⟨e, t, hm, hsel, _, _, _, _, hnet⟩ := hr.clientTurn 1
  have hstep : (s.clients ()).step (p.clientConfig ()) e = _ := Client.step_times hc hx hpc hsel
  have hnext : t.clients () = { s.clients () with pc := .transfer } := by rw [hm.client, hstep]
  refine .next hm.step (.now ⟨hm.reached, hm.server, hnet, ?_, ?_, ?_, ?_⟩)
  · rw [hnext]
    exact hc
  · rw [hnext]
  · rw [hnext]
    exact hx
  · rw [Client.window, hx]

theorem Reached.loops (hr : Reached p s) (hc : (s.clients ()).state = .established) :
    CanReach (Sys.SmoothStep p) (fun t => ∃ x, Loops p s t .transfer x) s := by
  obtain ⟨S, hin⟩ := hr.clientSession (Or.inl hc)
  obtain ⟨_, ⟨hpc, _, _, hnone⟩ | ⟨hpc | ⟨ms, hpc⟩, x, hx, _⟩⟩ := hin.client.inState hc
  · obtain ⟨e, t, hm, _, _, _, _, _, hnet⟩ := hr.clientTurn 1
    have hstep := Client.step_enters hm.smooth hc hpc
    refine .next hm.step (.now ⟨⟨.start (s.clients ()).connection.seqNum, false, 0, 0⟩,
      hm.reached, hm.server, hnet, ?_, ?_, ?_, ?_⟩)
    · rw [hm.client, hstep]
      exact hc
    · rw [hm.client, hstep]
    · rw [hm.client, hstep]
    · rw [Client.window, hnone]
  · exact .now ⟨x, hr, rfl, fun _ hd => hd, hc, hpc, hx, by rw [Client.window, hx]⟩
  · apply (hr.timesOut hc hpc hx).trans
    intro t ht
    exact .now ⟨x, ht⟩

section Roomy

variable (hread : ∃ file, ReadToEnd (p.input ()) file) (hroom : (p.link ()).Roomy)
include hread hroom

/-- A round that finds the timer not started, or started just now, ends the loop or waits. -/
theorem Loops.waits (h : Loops p s t .transfer x) (ms : UInt64)
    (htimer : x.gbn.windowTimerMs = 0 ∨ x.gbn.windowTimerMs = ms) :
    CanReach (Sys.SmoothStep p) (fun u => LoopDone p t u ∨
      ∃ n y, Loops p t u (.select n) y ∧ y.Busy ∧ y.gbn.windowTimerMs = ms) t := by
  obtain ⟨S, hin⟩ := h.reached.clientSession (Or.inl h.state)
  obtain ⟨htrans, hsending⟩ := hin.client.sending h.state h.xfer
  obtain ⟨e, u, hm, _, hnow, hfill, _, _, hnet⟩ := h.reached.clientTurn ms
  obtain ⟨y, file, sends, hround, hstep⟩ :=
    hsending.round htrans hread hroom hm.smooth h.pc h.xfer
  by_cases hempty : y.gbn.base = y.gbn.nextseqnum
  · have heof : y.eofReached = true := hround.ready.resolve_right (fun hne => hne hempty)
    refine .next hm.step (.now (Or.inl ⟨hm.reached, hm.server, hnet, ?_⟩))
    rw [hm.client, hstep, Client.transferWait, if_pos ⟨heof, hempty⟩]
    rfl
  · have hstart : y.gbn.windowTimerMs = 0 ∨ y.gbn.windowTimerMs = e.nowMs := by
      rw [hnow]
      rcases hround.timer with hkeep | ⟨_, hnew⟩
      · rw [hkeep]
        exact htimer
      · rw [hnew]
        exact Or.inr hfill
    obtain ⟨n, hwait⟩ := Client.transferWait_waits
      (c := { t.clients () with file := file }) hempty hstart
    rw [hwait] at hstep
    refine .next hm.step (.now (Or.inr ⟨n, y.timed e.nowMs,
      ⟨hm.reached, hm.server, hnet, ?_, ?_, ?_, ?_⟩, hempty, hnow⟩))
    · rw [hm.client, hstep]
      exact h.state
    · rw [hm.client, hstep]
    · rw [hm.client, hstep]
    · rw [h.window]
      exact hround.base

/-- A round that finds the retransmission interval over sends the window again. -/
theorem Loops.resends (h : Loops p s t .transfer x) (hbusy : x.Busy)
    (h0 : x.gbn.windowTimerMs ≠ 0) :
    CanReach (Sys.SmoothStep p) (fun u => ∃ y, Loops p t u .transfer y ∧ y.Busy ∧
      ∃ j chunk, (p.link ()).isn.toNat + 1 + j = y.gbn.base.toNat ∧
        (p.link ()).chunks[j]? = some chunk ∧
        ⟨.client (), .server, ((p.link ()).data j chunk).bytes⟩ ∈ u.net) t := by
  obtain ⟨S, hin⟩ := h.reached.clientSession (Or.inl h.state)
  obtain ⟨htrans, hsending⟩ := hin.client.sending h.state h.xfer
  obtain ⟨e, u, hm, _, hnow, _, _, _, hnet⟩ := h.reached.clientTurn
    (x.gbn.windowTimerMs + UInt64.ofNat retransmitIntervalMs)
  obtain ⟨y, file, sends, hround, hstep⟩ :=
    hsending.round htrans hread hroom hm.smooth h.pc h.xfer
  have hkeep : y.gbn.windowTimerMs = x.gbn.windowTimerMs :=
    hround.timer.resolve_right (fun hnew => hbusy hnew.1)
  have hbusy' : y.Busy := by
    intro heq
    have hnext := hround.next
    have hupper := hsending.represents.upper
    rw [← heq, hround.base] at hnext
    exact hbusy (UInt32.toNat_inj.mp (by omega))
  obtain ⟨T, hT⟩ := hround.sending
  rw [Client.transferWait_resends hbusy' (by rw [hkeep]; exact h0) (by rw [hkeep]; exact hnow)]
    at hstep
  refine .next hm.step (.now ⟨y.timed e.restartMs, ⟨hm.reached, hm.server, hnet, ?_, ?_, ?_, ?_⟩,
    hbusy', ?_⟩)
  · rw [hm.client, hstep]
    exact h.state
  · rw [hm.client, hstep]
  · rw [hm.client, hstep]
  · rw [h.window]
    exact hround.base
  · obtain ⟨chunk, hchunk, o, ho, hdst, hdata, hsent⟩ :=
      hT.resends hbusy' e (t.clients ()).serverAddr
    refine ⟨T.acked, chunk, hT.acked.symm, hchunk, ?_⟩
    have hout := hm.sent o (by rw [hstep]; exact List.mem_append_right _ ho)
      (hsent.trans (hm.smooth.sendto _))
    rw [hdst, hdata, hin.client.peer] at hout
    exact hout

/-- The loop ends, or it waits with the first packet of its window under way. -/
theorem Reached.sendsBase (hr : Reached p s) (hc : (s.clients ()).state = .established) :
    CanReach (Sys.SmoothStep p) (fun u => LoopDone p s u ∨
      ∃ n y j chunk, Loops p s u (.select n) y ∧ y.Busy ∧
        (p.link ()).isn.toNat + 1 + j = y.gbn.base.toNat ∧
        (p.link ()).chunks[j]? = some chunk ∧
        ⟨.client (), .server, ((p.link ()).data j chunk).bytes⟩ ∈ u.net) s := by
  apply (hr.loops hc).trans
  intro t₁ hstage
  obtain ⟨x, h₁⟩ := hstage
  -- a timer that runs is read as it stands, so that this round only waits
  obtain ⟨ms, hms, hstart⟩ : ∃ ms, ms ≠ 0 ∧
      (x.gbn.windowTimerMs = 0 ∨ x.gbn.windowTimerMs = ms) := by
    by_cases h0 : x.gbn.windowTimerMs = 0
    · exact ⟨1, by decide, Or.inl h0⟩
    · exact ⟨_, h0, Or.inr rfl⟩
  apply (h₁.waits hread hroom ms hstart).trans
  intro t₂ hstage
  rcases hstage with hdone | ⟨n, y, h₂, hbusy, htimer⟩
  · exact .now (Or.inl (h₁.done hdone))
  apply (h₂.reached.timesOut h₂.state h₂.pc h₂.xfer).trans
  intro t₃ h₃
  apply (h₃.resends hread hroom hbusy (by rw [htimer]; exact hms)).trans
  intro t₄ hstage
  obtain ⟨z, h₄, hbusy', j, chunk, hj, hchunk, hnet⟩ := hstage
  have hfar := ((h₁.trans h₂).trans h₃).trans h₄
  apply (h₄.waits hread hroom z.gbn.windowTimerMs (Or.inr rfl)).trans
  intro t₅ hstage
  rcases hstage with hdone | ⟨m, v, h₅, hbusy₅, _⟩
  · exact .now (Or.inl (hfar.done hdone))
  · refine .now (Or.inr ⟨m, v, j, chunk, hfar.trans h₅, hbusy₅, ?_, hchunk, h₅.net _ hnet⟩)
    rw [h₅.base, h₄.window]
    exact hj

end Roomy

theorem Client.transferAck_takes {Addr : Type} {c : Client Addr} {e : Env Addr} {s0 : Nat}
    {connection : ConnectionState} {sent : List Chunk}
    (h : x.gbn.Represents s0 connection sent) {ack : UInt32} (hlo : x.gbn.base < ack)
    (hhi : ack ≤ x.gbn.nextseqnum) : (c.transferAck x e ack).1.state = c.state ∧
      (c.transferAck x e ack).1.window.base = ack := by
  obtain ⟨htaken, hbase, _⟩ := gbnProcessAck_inside h ack hlo hhi
  rw [Client.transferAck]
  simp only [if_pos htaken]
  exact ⟨trivial, hbase⟩

/-- The server answers a packet from the front of the window with a number behind it. -/
theorem Loops.acked (h : Loops p s t pc x) (hbusy : x.Busy)
    (hs : t.server.state = .established) {j : Nat} {chunk : Chunk}
    (hj : (p.link ()).isn.toNat + 1 + j = x.gbn.base.toNat)
    (hnet : ⟨.client (), .server, ((p.link ()).data j chunk).bytes⟩ ∈ t.net) :
    CanReach (Sys.SmoothStep p) (fun u => Reached p u ∧ u.clients = t.clients ∧
      u.server.state = .established ∧ ∃ k, x.gbn.base < (p.link ()).num (1 + k) ∧
        (p.link ()).num (1 + k) ≤ x.gbn.nextseqnum ∧
        ⟨.server, .client (), ((p.link ()).dataAck k).bytes⟩ ∈ u.net) t := by
  obtain ⟨S, hin⟩ := h.reached.clientSession (Or.inl h.state)
  obtain ⟨_, hsending⟩ := hin.client.sending h.state h.xfer
  have hrecv := hin.server.receiving hs
  have hacked := hsending.acked
  have hnext := hsending.next
  have hroom := hsending.room
  have hle := S.acked_le
  have hle' := S.delivered_le
  have hlt : S.acked < S.sent := by
    by_contra hge
    exact hbusy (UInt32.toNat_inj.mp (by omega))
  have hinside (k : Nat) (h1 : j < k) (h2 : k ≤ S.sent) :
      x.gbn.base < (p.link ()).num (1 + k) ∧ (p.link ()).num (1 + k) ≤ x.gbn.nextseqnum := by
    have hnum := (p.link ()).num_toNat (by omega : (p.link ()).isn.toNat + (1 + k) < 2 ^ 32)
    rw [UInt32.lt_iff_toNat_lt, UInt32.le_iff_toNat_le]
    omega
  apply (h.reached.serverHears (by rw [hs]; decide) hnet chunk.property.2).trans
  intro u hstage
  obtain ⟨ms, e, hd, hu⟩ := hstage
  obtain ⟨hstate, hsends⟩ := Server.step_acksData hu.smooth
    (s := t.server.selecting ms) hs rfl hu.selected hu.recv
    (by simp only [Server.selecting, hrecv.connection]; exact ⟨hu.read.flags, hu.read.connId⟩)
  have hseq : hd.seqNum = (p.link ()).num (1 + j) := hu.read.seqNum
  have hexpect : t.server.connection.ackNum = (p.link ()).num (1 + S.delivered) := by
    rw [hrecv.connection]
    rfl
  obtain ⟨k, h1, h2, hconn⟩ : ∃ k, j < k ∧ k ≤ S.sent ∧
      ((t.server.selecting ms).afterData (.client ()) hd).connection =
        (p.link ()).serverConnection (1 + k) := by
    by_cases hfirst : hd.seqNum = t.server.connection.ackNum
    · refine ⟨j + 1, by omega, by omega, ?_⟩
      refine (Server.afterData_expected (s := t.server.selecting ms) hfirst).trans ?_
      dsimp only [Server.selecting]
      rw [← hfirst, hseq, (p.link ()).num_succ, hrecv.connection]
      rfl
    · have hne : j ≠ S.delivered := by
        intro hj
        rw [hj] at hseq
        exact hfirst (hseq.trans hexpect.symm)
      refine ⟨S.delivered, by omega, hle', ?_⟩
      exact (Server.afterData_other (s := t.server.selecting ms) hfirst).trans
        hrecv.connection
  obtain ⟨hlo, hhi⟩ := hinside k h1 h2
  refine .now ⟨hu.reached, hu.clients, by rw [hu.server]; exact hstate, k, hlo, hhi, ?_⟩
  have hout := hu.sends hsends (hu.smooth.sendto _)
  simp only [Server.control, sendPacket, hconn] at hout
  exact hout

/-- Both parties are transferring. -/
structure Transferring (p : Params Unit) (s : Sys Unit) : Prop where
  reached : Reached p s
  client : (s.clients ()).state = .established
  server : s.server.state = .established

/-- What is left between `base` and the top of the number range. -/
def Sys.remaining (s : Sys Unit) : Nat := 2 ^ 32 - (s.clients ()).window.base.toNat

/-- An acknowledgement from behind `base` moves the window. -/
theorem Loops.advances {ms : Nat} (h : Loops p s t (.select ms) x) (hr : Reached p u)
    (hc : u.clients = t.clients) (hs : u.server.state = .established) {k : Nat}
    (hlo : x.gbn.base < (p.link ()).num (1 + k))
    (hhi : (p.link ()).num (1 + k) ≤ x.gbn.nextseqnum)
    (hnet : ⟨.server, .client (), ((p.link ()).dataAck k).bytes⟩ ∈ u.net) :
    CanReach (Sys.SmoothStep p) (fun v => Transferring p v ∧ v.remaining < s.remaining) u := by
  obtain ⟨S, hin⟩ := h.reached.clientSession (Or.inl h.state)
  obtain ⟨htrans, hsending⟩ := hin.client.sending h.state h.xfer
  have hstate := h.state
  have hpc := h.pc
  have hxfer := h.xfer
  rw [← hc] at htrans hstate hpc hxfer
  apply (hr.clientHearsNow hpc hnet (Nat.zero_le _)).trans
  intro v hstage
  obtain ⟨e, hd, hv⟩ := hstage
  have hstep := Client.step_hearsAck hv.smooth (c := (u.clients ()).selecting ms) hstate
    hxfer rfl hv.selected hv.recv
    (by simp only [Client.selecting, htrans.connection]; exact ⟨hv.read.flags, hv.read.connId⟩)
  have hack : hd.ackNum = (p.link ()).num (1 + k) := hv.read.ackNum
  rw [hack] at hstep
  have htakes := Client.transferAck_takes (e := e)
    (c := { u.clients () with pc := .transfer, serverAddr := .server }) hsending.represents hlo hhi
  refine .now ⟨⟨hv.reached, ?_, by rw [hv.server]; exact hs⟩, ?_⟩
  · rw [hv.client, hstep]
    exact htakes.1.trans hstate
  · have hbase : (v.clients ()).window.base = (p.link ()).num (1 + k) := by
      rw [hv.client, hstep]
      exact htakes.2
    have hlt := UInt32.lt_iff_toNat_lt.mp hlo
    have hmax := ((p.link ()).num (1 + k)).toNat_lt
    rw [Sys.remaining, Sys.remaining, hbase, ← h.base]
    omega

/-- The transfer gets to its end. -/
theorem Transferring.ends (h : Transferring p s)
    (hread : ∃ file, ReadToEnd (p.input ()) file) (hroom : (p.link ()).Roomy) :
    Sys.Recoverable p s := by
  have hdone : CanReach (Sys.SmoothStep p) (fun t => Reached p t ∧
      (t.clients ()).state = .finWait ∧ t.server.state = .established) s := by
    apply CanReach.descend (P := Transferring p) Sys.remaining _ h
    intro s h
    apply (h.reached.sendsBase hread hroom h.client).trans
    intro t hstage
    rcases hstage with ht | ⟨n, x, j, chunk, ht, hbusy, hj, hchunk, hnet⟩
    · exact .now (Or.inl ⟨ht.reached, ht.state, by rw [ht.server]; exact h.server⟩)
    apply (ht.acked hbusy (by rw [ht.server]; exact h.server) hj hnet).trans
    intro u hstage
    obtain ⟨hr, hclients, hs, k, hlo, hhi, hnet⟩ := hstage
    apply (ht.advances hr hclients hs hlo hhi hnet).trans
    intro v hv
    exact .now (Or.inr hv)
  apply hdone.trans
  intro t hstage
  obtain ⟨hr, hc, hs⟩ := hstage
  exact hr.takesFin hc hs

end Transfer

section Opening

variable {p : Params Unit} {s t : Sys Unit}

theorem Reached.opening (hr : Reached p s)
    (hs : (s.clients ()).state = .closed ∨ (s.clients ()).state = .synSent) :
    Opening (p.isn ()) (p.input ()) .server (s.clients ()) := by
  rcases hr.cases with ⟨hopening, _⟩ | ⟨S, hin⟩
  · exact hopening
  · rcases hs with hs | hs
    · exact (hin.client.inState hs).2
    · exact (hin.client.inState hs).2

theorem Opening.numbers {isn : UInt32} {input : InputFile} {Addr : Type} {addr : Addr}
    {c : Client Addr} (h : Opening isn input addr c) (hs : c.state = .synSent) :
    c.exitCode = exOk ∧ c.connection = ⟨isn, 0, 0⟩ := by
  cases h.phase with
  | closed hst _ _ => exact absurd (hst.symm.trans hs) (by decide)
  | synSent _ _ exit hc => exact ⟨exit, hc⟩
  | done hst _ => exact absurd (hst.symm.trans hs) (by decide)

/-- The client gets its SYN under way. -/
theorem Reached.sendsSyn (hr : Reached p s)
    (hs : (s.clients ()).state = .closed ∨ (s.clients ()).state = .synSent) :
    CanReach (Sys.SmoothStep p) (fun t => Reached p t ∧ t.server = s.server ∧
      (t.clients ()).state = .synSent ∧
      ⟨.client (), .server, (synMessage (p.isn ())).bytes⟩ ∈ t.net) s := by
  have hopening := hr.opening hs
  rcases hs with hs | hs
  · have hpc : (s.clients ()).pc = .fsm := by
      cases hopening.phase with
      | closed _ hpc _ => exact hpc
      | synSent hst _ _ _ => exact absurd (hst.symm.trans hs) (by decide)
      | done hst _ => exact absurd (hst.symm.trans hs) (by decide)
    obtain ⟨e, t, hm, _, _, _, _, hrand, _⟩ := hr.clientTurn 1
    have hstep := Client.step_opens hm.smooth hs hpc
    refine .next hm.step (.now ⟨hm.reached, hm.server, ?_, ?_⟩)
    · rw [hm.client, hstep]
      rfl
    · have hsent := hm.sends hstep (hm.smooth.sendto _)
      simp only [Client.control, sendPacket, hopening.peer, ← isn_of_rand hrand] at hsent
      exact hsent
  · have hconn := (hopening.numbers hs).2
    apply (hr.clientWaits (Or.inl hs)).trans
    intro t hw
    obtain ⟨ms, hclient⟩ := hw.client
    obtain ⟨e, u, hm, hsel, _⟩ := hw.reached.clientTurn 1
    have hst : (t.clients ()).state = .synSent := by rw [hclient]; exact hs
    have hstep := Client.step_synRepeat hm.smooth hst (congrArg Client.pc hclient) hsel
    refine .next hm.step (.now ⟨hm.reached, hm.server.trans hw.server, ?_, ?_⟩)
    · rw [hm.client, hstep]
      rfl
    · have hsent := hm.sends hstep (hm.smooth.sendto _)
      simp only [hclient, Client.control, Client.selecting, sendPacket, hconn, hopening.peer]
        at hsent
      exact hsent

/-- A server that is not past the handshake answers a SYN. -/
theorem Reached.answersSyn (hr : Reached p s) (hc : (s.clients ()).state = .synSent)
    (hs : s.server.state = .listen ∨ s.server.state = .handshake)
    (hnet : ⟨.client (), .server, (synMessage (p.isn ())).bytes⟩ ∈ s.net) :
    CanReach (Sys.SmoothStep p) (fun t => Reached p t ∧ (t.clients ()).state = .synSent ∧
      t.server.state = .handshake ∧
      ⟨.server, .client (), (p.link ()).synAck.bytes⟩ ∈ t.net) s := by
  have hd : s.server.state ≠ .done := by
    rcases hs with hs | hs
    · rw [hs]
      decide
    · rw [hs]
      decide
  apply (hr.serverHears hd hnet (Nat.zero_le _)).trans
  intro t hstage
  obtain ⟨ms, e, h, ht⟩ := hstage
  have hclient : (t.clients ()).state = .synSent := by rw [ht.clients]; exact hc
  have hnum : p.isn () + 1 = (p.link ()).num 1 := (p.link ()).isn_succ
  have hseq : h.seqNum = p.isn () := ht.read.seqNum
  rcases hs with hs | hs
  · have hstep := Server.step_admits ht.smooth (s := s.server.selecting ms) hs rfl
      ht.selected ht.recv ht.read.flags
    refine .now ⟨ht.reached, hclient, by rw [ht.server, hstep]; rfl, ?_⟩
    have hsent := ht.sends (congrArg Prod.snd hstep) (ht.smooth.sendto _)
    simp only [Server.control, sendPacket, Server.afterSyn, hseq, ht.rand.1, ht.rand.2, hnum]
      at hsent
    exact hsent
  · obtain ⟨S, hin⟩ := hr.session (by rw [hs]; decide) hd
    have hshake := hin.server.handshake_of hs
    have hstep := Server.step_answers ht.smooth (s := s.server.selecting ms) hs rfl
      ht.selected ht.recv (by
        simp only [Server.selecting, hshake.connection, hseq, hnum]
        exact ⟨ht.read.flags, rfl⟩)
    refine .now ⟨ht.reached, hclient, by rw [ht.server, hstep]; rfl, ?_⟩
    have hsent := ht.sends (congrArg Prod.snd hstep) (ht.smooth.sendto _)
    simp only [Server.control, Server.selecting, sendPacket, hshake.connection] at hsent
    exact hsent

/-- The client takes the SYN+ACK and acknowledges it. -/
theorem Reached.accepts (hr : Reached p s) (hc : (s.clients ()).state = .synSent)
    (hnet : ⟨.server, .client (), (p.link ()).synAck.bytes⟩ ∈ s.net) :
    CanReach (Sys.SmoothStep p) (fun t => Reached p t ∧ t.server = s.server ∧
      (t.clients ()).state = .established ∧
      ⟨.client (), .server, (p.link ()).handshakeAck.bytes⟩ ∈ t.net) s := by
  have hconn := ((hr.opening (Or.inr hc)).numbers hc).2
  apply (hr.clientHears (Or.inl hc) hnet (Nat.zero_le _)).trans
  intro t hstage
  obtain ⟨ms, e, h, ht⟩ := hstage
  have hnum : p.isn () + 1 = (p.link ()).num 1 := (p.link ()).isn_succ
  have hseq : h.seqNum = (p.link ()).serverSeq := ht.read.seqNum
  have hid : h.connId = (p.link ()).connId := ht.read.connId
  have hstep := Client.step_accepts ht.smooth (c := (s.clients ()).selecting ms) hc rfl
    ht.selected ht.recv (by
      simp only [Client.TakesSynAck, Client.selecting, hconn, hnum, hid]
      exact ⟨ht.read.flags, (p.link ()).connId_ne, ht.read.ackNum⟩)
  refine .now ⟨ht.reached, ht.server, by rw [ht.client, hstep]; rfl, ?_⟩
  have hsent := ht.sends (congrArg Prod.snd hstep) (ht.smooth.sendto _)
  simp only [Client.control, Client.afterSynAck, Client.selecting, sendPacket, hconn, hseq, hid,
    hnum] at hsent
  exact hsent

/-- With the ACK of the handshake under way both parties come to transfer. -/
theorem Reached.transfers (hr : Reached p s) (hc : (s.clients ()).state = .established)
    (hs : s.server.state = .handshake)
    (hnet : ⟨.client (), .server, (p.link ()).handshakeAck.bytes⟩ ∈ s.net) :
    CanReach (Sys.SmoothStep p) (Transferring p) s := by
  apply (hr.hearsHandshakeAck hs hnet).trans
  intro t hstage
  obtain ⟨hr, hclients, hs⟩ := hstage
  exact .now ⟨hr, by rw [hclients]; exact hc, hs⟩

/-- The handshake gets to its end. -/
theorem Reached.handshakes (hr : Reached p s)
    (hc : (s.clients ()).state = .closed ∨ (s.clients ()).state = .synSent)
    (hs : s.server.state = .listen ∨ s.server.state = .handshake) :
    CanReach (Sys.SmoothStep p) (Transferring p) s := by
  apply (hr.sendsSyn hc).trans
  intro t₁ hstage
  obtain ⟨hr₁, hserver, hc₁, hnet₁⟩ := hstage
  apply (hr₁.answersSyn hc₁ (by rw [hserver]; exact hs) hnet₁).trans
  intro t₂ hstage
  obtain ⟨hr₂, hc₂, hs₂, hnet₂⟩ := hstage
  apply (hr₂.accepts hc₂ hnet₂).trans
  intro t₃ hstage
  obtain ⟨hr₃, hserver, hc₃, hnet₃⟩ := hstage
  exact hr₃.transfers hc₃ (by rw [hserver]; exact hs₂) hnet₃

/-- The first data packet stands in for the ACK of the handshake. -/
theorem Reached.opensByData (hr : Reached p s) (hc : (s.clients ()).state = .established)
    (hs : s.server.state = .handshake) (hread : ∃ file, ReadToEnd (p.input ()) file)
    (hroom : (p.link ()).Roomy) (hne : content (p.input ()) ≠ []) :
    CanReach (Sys.SmoothStep p) (Transferring p) s := by
  have hd : s.server.state ≠ .done := by rw [hs]; decide
  have hsize : 0 < (p.link ()).size := List.length_pos_iff.mpr hne
  apply (hr.sendsBase hread hroom hc).trans
  intro t hstage
  rcases hstage with ht | ⟨n, x, j, chunk, ht, hbusy, hj, hchunk, hnet⟩
  · obtain ⟨S, hin⟩ := ht.reached.clientSession (Or.inr (Or.inl ht.state))
    have hall := S.delivered_of_closing (hin.client.finWait_of ht.state).closing
    have hshake := hin.server.handshake_of (by rw [ht.server]; exact hs)
    have hnone := hshake.delivered
    omega
  · obtain ⟨S, hin⟩ := ht.reached.clientSession (Or.inl ht.state)
    obtain ⟨_, hsending⟩ := hin.client.sending ht.state ht.xfer
    have hshake := hin.server.handshake_of (by rw [ht.server]; exact hs)
    have hfirst : j = 0 := by
      have hacked := hsending.acked
      have hle := S.acked_le
      have hnone := hshake.delivered
      omega
    subst hfirst
    apply (ht.reached.serverHears (by rw [ht.server]; exact hd) hnet chunk.property.2).trans
    intro u hstage
    obtain ⟨ms, e, h, hu⟩ := hstage
    refine .now ⟨hu.reached, by rw [hu.clients]; exact ht.state, ?_⟩
    rw [hu.server]
    apply Server.step_opened hu.smooth (s := t.server.selecting ms)
      (by rw [ht.server]; exact hs) rfl hu.selected hu.recv
    simp only [Server.selecting, hshake.connection]
    exact ⟨Or.inr hu.read.flags, hu.read.connId, hu.read.ackNum, hu.read.seqNum⟩

end Opening

end ReliableUdp
