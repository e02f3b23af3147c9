import ReliableUdp.Endpoint.Diagnosis
import ReliableUdp.Session.Liveness

namespace ReliableUdp

open Transition Filter

variable {p : Params Unit} {r : EndlessRun p} {a : Stage p} {s t : Sys Unit} {i : ℕ}
  {e : Env (Node Unit)}

theorem Opening.going {isn : UInt32} {input : InputFile} {Addr : Type} {addr : Addr}
    {c : Client Addr} (h : Opening isn input addr c) (hd : c.state ≠ .done) : c.pc.Waiting := by
  cases h.phase with
  | closed _ hpc _ => exact Or.inl hpc
  | synSent _ hpc _ _ => exact hpc
  | done hst _ => exact absurd hst hd

/-- Where nothing fails a client with an input that can be read only ends in TIME_WAIT. -/
theorem ClientActs.goesOn (h : ClientActs p s t e) (hr : Reached p s)
    (hread : ∃ file, ReadToEnd (p.input ()) file) (hroom : (p.link ()).Roomy)
    (hd : (s.clients ()).state ≠ .done) (hw : (s.clients ()).state ≠ .timeWait) :
    (t.clients ()).state ≠ .done := by
  have hwaiting (hpc : (s.clients ()).pc.Waiting) : (t.clients ()).state ≠ .done := by
    rw [h.client]
    exact Client.smooth_goesOn h.smooth hd hw hpc
  rcases hr.cases with ⟨ho, _⟩ | ⟨S, hin⟩
  · exact hwaiting (ho.going hd)
  · cases hin.client.phase with
    | opening _ ho => exact hwaiting (ho.going hd)
    | entering _ hpc _ _ _ => exact hwaiting (Or.inl hpc)
    | transferring ht hpc x hx hsending =>
      rcases hpc with hpc | hpc
      · obtain ⟨y, file, sends, _, hstep⟩ := hsending.round ht hread hroom h.smooth hpc hx
        rw [h.client, hstep]
        exact Client.transferWait_state hd
      · exact hwaiting (Or.inr hpc)
    | finWait _ hpc => exact hwaiting hpc
    | timeWait hp _ => exact absurd hp.state hw
    | done hst _ _ _ _ _ _ => exact absurd hst hd

/-- The server only ends when the session does. -/
theorem ServerActs.goesOn (h : ServerActs p s t e) (hr : Reached p s) (hj : Joint p a s)
    (hnot : ¬ a.Finished ()) (hd : s.server.state ≠ .done) : t.server.state ≠ .done := by
  rw [h.server]
  apply Server.smooth_goesOn h.smooth hd (hr.server_waiting hd)
  intro hs src hd payload hrecv htake
  obtain ⟨net, hreceives⟩ := h.receives
  rcases hj.server with hidle | ⟨_, S, rfl, hserver⟩
  · exact absurd (hidle.state_ne hs) (by decide)
  · obtain ⟨hclient, _, hnet⟩ := hj.parties
    exact hnot ⟨rfl, (hserver.closing_of hs).finished hclient.room
      (hears_clients hnet hreceives) hrecv htake⟩

namespace Stalled

/-- There is no such run, unless the last ACK of the handshake gets lost and there are no data to
stand in for it. -/
theorem impossible (h : Stalled r a) (hread : ∃ file, ReadToEnd (p.input ()) file)
    (hroom : (p.link ()).Roomy)
    (hopens : content (p.input ()) ≠ [] ∨ ∃ i, (r.state i).server.state.PastHandshake) :
    False := by
  obtain rfl | ⟨S, rfl⟩ : a = none ∨ ∃ S, a = some ⟨(), S⟩ := by
    cases a with
    | none => exact Or.inl rfl
    | some b => exact Or.inr ⟨b.2, rfl⟩
  · exact h.begins
  by_cases hacc : S.accepted = true
  · by_cases hclosing : S.closing = true
    · by_cases hfin : S.finSeen = true
      · exact h.takesFinAck hclosing hfin
      · refine h.takesFin hclosing ?_ ((Bool.not_eq_true _).mp hfin)
        rcases hopens with hne | ⟨i, hpast⟩
        · have hsize : 0 < (p.link ()).size := List.length_pos_iff.mpr hne
          have hall := (S.delivered_of_closing hclosing).2.1
          apply h.sessions.mono
          intro i hi
          cases hi.1.server with
          | handshake hp _ =>
            have hnone := hp.delivered
            omega
          | established hp _ =>
            rw [hp.state]
            exact ServerState.past_established
          | lastAck hp _ =>
            rw [hp.state]
            exact ServerState.past_lastAck
          | done hst _ _ _ _ _ _ => exact absurd hst (h.server i)
        · exact EndlessRun.past_from hpast
    · exact h.advances hacc ((Bool.not_eq_true _).mp hclosing) hread hroom
  · exact h.accepts ((Bool.not_eq_true _).mp hacc)

end Stalled

namespace EndlessRun

/-- A run that does not come to TIME_WAIT comes to rest in some stage of its session. -/
theorem stalls (hfair : r.Fair) (hread : ∃ file, ReadToEnd (p.input ()) file)
    (hroom : (p.link ()).Roomy) (hnever : ∀ i, ((r.state i).clients ()).state ≠ .timeWait) :
    ∃ a, Stalled r a := by
  obtain ⟨a, hstart, hfollows⟩ := r.follows
  have hunfinished (i : ℕ) : ¬ (a i).Finished () := by
    induction i with
    | zero =>
      rw [hstart]
      exact id
    | succ i ih =>
      intro hfinished
      rcases (hfollows i).2.finished () hfinished with hearlier | hnow
      · exact ih hearlier
      · exact hnever (i + 1) hnow
  have hrunning (i : ℕ) : ((r.state i).clients ()).state ≠ .done ∧
      (r.state i).server.state ≠ .done := by
    induction i with
    | zero =>
      rw [r.start]
      exact ⟨by simp [Params.init, Client.init], by simp [Params.init, Server.init]⟩
    | succ i ih =>
      constructor
      · by_cases hturn : ∃ e, r.action i = .client e
        · obtain ⟨e, ha⟩ := hturn
          exact (clientActs ha).goesOn (r.reached i) hread hroom ih.1 (hnever i)
        · rw [Stalled.client_still hturn]
          exact ih.1
      · by_cases hturn : ∃ e, r.action i = .server e
        · obtain ⟨e, ha⟩ := hturn
          exact (serverActs ha).goesOn (r.reached i) (hfollows i).1 (hunfinished i) ih.2
        · rw [Stalled.server_still hturn]
          exact ih.2
  obtain ⟨c, hrest⟩ := exists_rest Stage.rank (fun i => (a i).rank_le)
    (fun i => Stage.Steps.eq_or_lt (hfollows i).2.steps)
  refine ⟨c, hfair, ?_, fun i => (hrunning i).1, fun i => (hrunning i).2, hnever⟩
  apply hrest.mono
  intro i hi
  rw [← hi]
  exact (hfollows i).1

/-- Behind a client in TIME_WAIT the session is complete, and stays so. -/
theorem complete_from (hw : ((r.state i).clients ()).state = .timeWait) :
    ∀ j, i ≤ j → ReadToEnd (p.input ()) ((r.state j).clients ()).file ∧
      (r.state j).server.output = joinChunks (content (p.input ())) ∧
      ((r.state j).server.state = .lastAck ∨ (r.state j).server.state = .done) := by
  obtain ⟨a, _, hfollows⟩ := r.follows
  intro j hj
  have hseen : ∃ S, a j = some ⟨(), S⟩ ∧ S.finSeen = true := by
    induction j, hj using Nat.le_induction with
    | base => exact (hfollows i).1.finSeen_of_timeWait hw
    | succ j _ ih =>
      obtain ⟨S, hS, hfin⟩ := ih
      obtain ⟨T, hT, hle⟩ := Stage.Steps.le (hfollows j).2.steps hS
      exact ⟨T, hT, hle.finSeen hfin⟩
  obtain ⟨S, hS, hfin⟩ := hseen
  have hj := (hfollows j).1
  rw [hS] at hj
  exact hj.complete hfin

end EndlessRun

section Resting

/-- Both parties have returned. -/
structure Sys.Resting (s : Sys Unit) : Prop where
  client : ∃ code, (s.clients ()).pc = .returned code
  server : ∃ code, s.server.pc = .returned code

theorem Sys.Resting.happens_client (h : s.Resting) : ∃ e, Sys.Happens p s (.client e) s := by
  obtain ⟨code, hpc⟩ := h.client
  have hstep := Sys.Happens.client s _ s.net (.nothing rfl) rfl
    (p.clientEnv_smooth () 1 (s.clients ()).lastProgressMs)
  simp only [Sys.stepClient, Client.step_returned hpc, emitted, Function.update_eq_self] at hstep
  exact ⟨_, hstep⟩

theorem Sys.Resting.happens_server (h : s.Resting) : ∃ e, Sys.Happens p s (.server e) s := by
  obtain ⟨code, hpc⟩ := h.server
  have hstep := Sys.Happens.server s _ s.net (.nothing rfl) ⟨rfl, rfl⟩
    (p.serverEnv_smooth 1 s.server.lastProgressMs)
  simp only [Sys.stepServer, Server.step_returned hpc, emitted] at hstep
  exact ⟨_, hstep⟩

/-- The parties are activated in turn, and nothing comes of it. -/
theorem Sys.Resting.exists_endless (h : s.Resting) : ∃ r : Endless (Sys.Happens p) s,
    (∀ i, r.state i = s) ∧ (∀ i, ∃ e, r.action (2 * i) = .client e) ∧
      ∀ i, ∃ e, r.action (2 * i + 1) = .server e := by
  obtain ⟨e, hclient⟩ := h.happens_client (p := p)
  obtain ⟨e', hserver⟩ := h.happens_server (p := p)
  let r : Endless (Sys.Happens p) s :=
    { state := fun _ => s
      action := fun i => if i % 2 = 0 then .client e else .server e'
      start := rfl
      next := by
        intro i
        split_ifs
        · exact hclient
        · exact hserver }
  refine ⟨r, fun i => rfl, fun i => ⟨e, ?_⟩, fun i => ⟨e', ?_⟩⟩
  · exact if_pos (by omega)
  · exact if_neg (by omega)

theorem Sys.SmoothStep.happens (h : Sys.SmoothStep p s t) : ∃ a, Sys.Happens p s a t := by
  cases h with
  | client _ e net hr hrand he => exact ⟨_, .client s e net hr hrand he⟩
  | server e net hr hrand he => exact ⟨_, .server s e net hr hrand he⟩

/-- A system that can complete its transfer has fair runs. -/
theorem Sys.Recoverable.exists_fair (h : Sys.Recoverable p p.init) :
    ∃ r : EndlessRun p, r.Fair := by
  obtain ⟨s, hsteps, hdone⟩ := h
  obtain ⟨rest, hstate, hclient, hserver⟩ :=
    Sys.Resting.exists_endless (p := p) ⟨⟨_, hdone.client.2⟩, ⟨_, hdone.server.2⟩⟩
  have hhappens : Relation.ReflTransGen (fun s t => ∃ a, Sys.Happens p s a t) p.init s :=
    Relation.ReflTransGen.mono (fun _ _ => Sys.SmoothStep.happens) _ _ hsteps
  obtain ⟨r, n, hr⟩ : ∃ (r : EndlessRun p) (n : ℕ),
      ∀ i, r.state (i + n) = rest.state i ∧ r.action (i + n) = rest.action i :=
    Endless.exists_behind hhappens rest
  have hafter (i : ℕ) : r.state (i + n) = s := (hr i).1.trans (hstate i)
  have hquiet : ∀ᶠ i in atTop, r.puts i = [] := by
    rw [eventually_atTop]
    refine ⟨n, ?_⟩
    intro i hi
    obtain ⟨j, rfl⟩ := Nat.exists_eq_add_of_le' hi
    simp only [EndlessRun.puts, hafter, Client.step_returned hdone.client.2,
      Server.step_returned hdone.server.2, emitted]
    cases r.action (j + n) <;> rfl
  have hleft : ¬ r.Transfers := by
    intro htransfers
    obtain ⟨i, hi, hstate⟩ := ((eventually_atTop.mpr ⟨n, fun i => id⟩).and htransfers).exists
    obtain ⟨j, rfl⟩ := Nat.exists_eq_add_of_le' hi
    rw [hafter, hdone.client.1] at hstate
    exact absurd hstate (by decide)
  refine ⟨r, ?_, ?_, ?_, fun h => absurd h hleft, fun h => absurd h hleft⟩
  · rw [frequently_atTop]
    intro k
    obtain ⟨e, he⟩ := hclient k
    exact ⟨2 * k + n, by omega, e, (hr _).2.trans he⟩
  · rw [frequently_atTop]
    intro k
    obtain ⟨e, he⟩ := hserver k
    exact ⟨2 * k + 1 + n, by omega, e, (hr _).2.trans he⟩
  · intro d hputs
    obtain ⟨i, hd, hnone⟩ := (hputs.and_eventually hquiet).exists
    rw [hnone] at hd
    exact absurd hd List.not_mem_nil

end Resting

/-- With room in the number range a fair run comes to its end, with everything written, if and only
if the input can be read to its end and the server opens. Only an empty input leaves that to the
last ACK of the handshake, which is sent once. -/
theorem fair_run_completes_iff (r : EndlessRun p) (hfair : r.Fair)
    (hroom : (p.isn ()).toNat + 1 + (content (p.input ())).length + windowSize < 2 ^ 32) :
    (∃ i, ((r.state i).clients ()).state = .timeWait ∧
      ∀ j, i ≤ j → (r.state j).server.output = joinChunks (content (p.input ()))) ↔
    (∃ file, ReadToEnd (p.input ()) file) ∧
      (content (p.input ()) ≠ [] ∨ ∃ i, (r.state i).server.state.PastHandshake) := by
  constructor
  · intro hcompletes
    obtain ⟨i, hw, _⟩ := hcompletes
    obtain ⟨hread, _, hs⟩ := EndlessRun.complete_from hw i (Nat.le_refl i)
    refine ⟨⟨_, hread⟩, Or.inr ⟨i, ?_⟩⟩
    rcases hs with hs | hs
    · rw [hs]
      exact ServerState.past_lastAck
    · rw [hs]
      exact ServerState.past_done
  · intro h
    obtain ⟨hread, hopens⟩ := h
    by_contra hno
    have hnever (i : ℕ) : ((r.state i).clients ()).state ≠ .timeWait := by
      intro hw
      exact hno ⟨i, hw, fun j hj => (EndlessRun.complete_from hw j hj).2.1⟩
    obtain ⟨a, hstalled⟩ := r.stalls hfair hread hroom hnever
    exact hstalled.impossible hread hroom hopens

theorem fair_run_completes_hello : ∃ r : EndlessRun hello, r.Fair ∧
    ∃ i, ((r.state i).clients ()).state = .timeWait ∧
      ∀ j, i ≤ j → (r.state j).server.output = [104, 105] := by
  have hread : ∃ file, ReadToEnd (hello.input ()) file := ⟨[], [], rfl, rfl⟩
  have hroom : (hello.isn ()).toNat + 1 + (content (hello.input ())).length + windowSize < 2 ^ 32 :=
    by decide
  obtain ⟨r, hfair⟩ := Sys.Recoverable.exists_fair (Reached.recovers ⟨_, .start⟩ (by decide)
    (by decide) hread hroom (fun hlost => absurd hlost.empty (List.cons_ne_nil _ _)))
  exact ⟨r, hfair,
    (fair_run_completes_iff r hfair hroom).mpr ⟨hread, Or.inl (List.cons_ne_nil _ _)⟩⟩

end ReliableUdp
