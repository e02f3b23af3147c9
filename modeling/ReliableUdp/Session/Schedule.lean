import ReliableUdp.Session.System

namespace ReliableUdp

variable {ι : Type} [DecidableEq ι]

/-- A step of the system in which no operation fails, at the clock reading `ms`. A party runs with
nothing arriving, or with the `k`-th datagram under way, if that one is meant for it. -/
inductive Event (ι : Type) where
  | client (i : ι) (ms : UInt64)
  | clientRecv (i : ι) (k : Nat) (ms : UInt64)
  | server (ms : UInt64)
  | serverRecv (k : Nat) (ms : UInt64)
  | lose (k : Nat)

def Params.clientEnv (p : Params ι) (i : ι) (ms : UInt64) : Env (Node ι) :=
  { Env.calm (Node ι) ms with rand := fun _ => p.clientRand i }

def Params.serverEnv (p : Params ι) (ms : UInt64) : Env (Node ι) :=
  { Env.calm (Node ι) ms with rand := fun k => if k = 0 then p.connRand else p.seqRand }

def Env.receiving {Addr : Type} (e : Env Addr) (src : Addr) (data : List UInt8) : Env Addr :=
  { e with selectResult := 1, recvfrom := some (src, data) }

def ClientPc.isSelect : ClientPc → Bool
  | .select _ => true
  | _ => false

def ServerPc.isSelect : ServerPc → Bool
  | .select _ => true
  | _ => false

/-- The state after an event, `none` when the event is not possible. -/
def Sys.play (p : Params ι) (s : Sys ι) : Event ι → Option (Sys ι)
  | .client i ms => some (s.stepClient p i (p.clientEnv i ms) s.net)
  | .clientRecv i k ms =>
    match s.net[k]? with
    | none => none
    | some d =>
      if d.dst = .client i ∧ (s.clients i).pc.isSelect = true then
        some (s.stepClient p i ((p.clientEnv i ms).receiving d.src d.data) (s.net.erase d))
      else none
  | .server ms => some (s.stepServer p (p.serverEnv ms) s.net)
  | .serverRecv k ms =>
    match s.net[k]? with
    | none => none
    | some d =>
      if d.dst = .server ∧ s.server.pc.isSelect = true then
        some (s.stepServer p ((p.serverEnv ms).receiving d.src d.data) (s.net.erase d))
      else none
  | .lose k =>
    match s.net[k]? with
    | none => none
    | some d => some { s with net := s.net.erase d }

theorem ClientPc.exists_of_isSelect {pc : ClientPc} (h : pc.isSelect = true) :
    ∃ ms, pc = .select ms := by
  cases pc with
  | select ms => exact ⟨ms, rfl⟩
  | fsm => exact Bool.noConfusion h
  | transfer => exact Bool.noConfusion h
  | returned code => exact Bool.noConfusion h

theorem ServerPc.exists_of_isSelect {pc : ServerPc} (h : pc.isSelect = true) :
    ∃ ms, pc = .select ms := by
  cases pc with
  | select ms => exact ⟨ms, rfl⟩
  | fsm => exact Bool.noConfusion h
  | returned code => exact Bool.noConfusion h

theorem Sys.play_step {p : Params ι} {s s' : Sys ι} {ev : Event ι} (h : s.play p ev = some s') :
    Sys.Step p s s' := by
  cases ev with
  | client i ms =>
    obtain rfl := Option.some.inj h
    exact .client s i _ s.net (.nothing rfl) rfl
  | server ms =>
    obtain rfl := Option.some.inj h
    exact .server s _ s.net (.nothing rfl) ⟨rfl, rfl⟩ (fun _ => rfl)
  | clientRecv i k ms =>
    cases hd : s.net[k]? with
    | none => simp [play, hd] at h
    | some d =>
      simp only [play, hd] at h
      split_ifs at h with hc
      obtain rfl := Option.some.inj h
      exact .client s i _ _ (.datagram ⟨ClientPc.exists_of_isSelect hc.2, Int.one_pos⟩ d
        (List.mem_of_getElem? hd) hc.1 rfl) rfl
  | serverRecv k ms =>
    cases hd : s.net[k]? with
    | none => simp [play, hd] at h
    | some d =>
      simp only [play, hd] at h
      split_ifs at h with hc
      obtain rfl := Option.some.inj h
      exact .server s _ _ (.datagram ⟨ServerPc.exists_of_isSelect hc.2, Int.one_pos⟩ d
        (List.mem_of_getElem? hd) hc.1 rfl) ⟨rfl, rfl⟩ (fun _ => rfl)
  | lose k =>
    cases hd : s.net[k]? with
    | none => simp [play, hd] at h
    | some d =>
      simp only [play, hd] at h
      obtain rfl := Option.some.inj h
      exact .lose s d (List.mem_of_getElem? hd)

/-- The run that a schedule makes from a given one; impossible events are passed over. -/
def Sys.replay (p : Params ι) : List (Sys ι) × Sys ι → List (Event ι) → List (Sys ι) × Sys ι
  | r, [] => r
  | r, ev :: evs =>
    match r.2.play p ev with
    | none => replay p r evs
    | some s => replay p (s :: r.1, s) evs

theorem Sys.replay_run (p : Params ι) (evs : List (Event ι)) {r : List (Sys ι) × Sys ι}
    (h : Sys.Run p r.1 r.2) : Sys.Run p (Sys.replay p r evs).1 (Sys.replay p r evs).2 := by
  induction evs generalizing r with
  | nil => exact h
  | cons ev evs ih =>
    rw [replay]
    cases hp : r.2.play p ev with
    | none => exact ih h
    | some s => exact ih (h.step (Sys.play_step hp))

/-- The run of a schedule from the beginning. -/
def Params.schedule (p : Params ι) (evs : List (Event ι)) : List (Sys ι) × Sys ι :=
  Sys.replay p ([p.init], p.init) evs

theorem Params.schedule_run (p : Params ι) (evs : List (Event ι)) :
    Sys.Run p (p.schedule evs).1 (p.schedule evs).2 :=
  Sys.replay_run p evs .start

/-- One client that sends a single chunk of two bytes. -/
def hello : Params Unit where
  clientConfig _ := ⟨10, none, none⟩
  serverConfig := ⟨10, none, none⟩
  input _ := [.bytes ⟨[104, 105], by decide⟩]
  clientStartMs _ := 1000
  serverStartMs := 1000
  clientRand _ := 17
  connRand := 41
  seqRand := 500
  clientAddr := .server
  wholeWrites := true

/-- The handshake, and the chunk sent but not delivered. -/
def helloSent : List (Event Unit) :=
  [.client () 1000, .client () 1000, .server 1000, .serverRecv 0 1000, .server 1000,
    .clientRecv () 0 1000, .serverRecv 0 1000, .server 1000, .client () 1000, .client () 1000]

/-- The rest of the transfer, up to the FIN+ACK of the server. -/
def helloClosing : List (Event Unit) :=
  helloSent ++ [.serverRecv 0 1000, .server 1000, .clientRecv () 0 1000, .client () 1000,
    .client () 1000, .serverRecv 0 1000]

end ReliableUdp
