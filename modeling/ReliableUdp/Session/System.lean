import ReliableUdp.Session.Link

namespace ReliableUdp

/-- The parties: one server and a client for each element of `ι`. -/
inductive Node (ι : Type) where
  | server
  | client (i : ι)
  deriving DecidableEq

structure Datagram (ι : Type) where
  src : Node ι
  dst : Node ι
  data : List UInt8
  deriving DecidableEq

/-- What is settled before a run: the command lines, the inputs, the first clock readings, what
`rand` will return, the uninitialised `client_addr`, and whether writes always succeed. -/
structure Params (ι : Type) where
  clientConfig : ι → AppConfig
  serverConfig : AppConfig
  input : ι → InputFile
  clientStartMs : ι → UInt64
  serverStartMs : UInt64
  clientRand : ι → Nat
  connRand : Nat
  seqRand : Nat
  clientAddr : Node ι
  wholeWrites : Bool

/-- A joint state; `net` are the datagrams under way, in no particular order. -/
structure Sys (ι : Type) where
  clients : ι → Client (Node ι)
  server : Server (Node ι)
  net : List (Datagram ι)

variable {ι : Type}

namespace Params

variable (p : Params ι)

/-- The initial sequence number `handle_closed` draws. -/
def isn (i : ι) : UInt32 := UInt32.ofNat (p.clientRand i % moduler)

theorem isn_lt (i : ι) : (p.isn i).toNat < moduler := by
  have h : p.clientRand i % moduler < moduler := Nat.mod_lt _ (by decide)
  rw [isn, UInt32.toNat_ofNat_of_lt' (h.trans (by decide))]
  exact h

def serverSeq : UInt32 := UInt32.ofNat (p.seqRand % moduler)

def connId : UInt16 := UInt16.ofNat (p.connRand % 60000 + 1)

theorem connId_ne : p.connId ≠ 0 := by
  intro h
  have ht := congrArg UInt16.toNat h
  simp only [connId, UInt16.toNat_ofNat', UInt16.toNat_zero] at ht
  omega

/-- The session the server holds with client `i`, if it holds one. -/
def link (i : ι) : Link where
  isn := p.isn i
  serverSeq := p.serverSeq
  connId := p.connId
  input := p.input i
  isn_lt := p.isn_lt i
  connId_ne := p.connId_ne

def init : Sys ι where
  clients i := .init .server (p.clientStartMs i) (p.input i)
  server := .init p.clientAddr p.serverStartMs
  net := []

end Params

/-- What has left the host of `src`. -/
def emitted (src : Node ι) (sends : List (Send (Node ι))) : List (Datagram ι) :=
  (sends.filter Send.sent).map (fun o => ⟨src, o.dst, o.data⟩)

theorem mem_emitted {src : Node ι} {sends : List (Send (Node ι))} {d : Datagram ι} :
    d ∈ emitted src sends ↔
      ∃ o ∈ sends, o.sent = true ∧ d = ⟨src, o.dst, o.data⟩ := by
  simp only [emitted, List.mem_map, List.mem_filter, and_assoc, eq_comm]

/-- Whether this activation takes a datagram from the socket. -/
def Client.reads (c : Client (Node ι)) (e : Env (Node ι)) : Prop :=
  (∃ ms, c.pc = .select ms) ∧ e.selectResult > 0

def Server.reads (s : Server (Node ι)) (e : Env (Node ι)) : Prop :=
  (∃ ms, s.pc = .select ms) ∧ e.selectResult > 0

variable [DecidableEq ι]

/-- The socket of `me` hands out nothing, or a datagram sent to it, which then is gone. -/
inductive Receives (me : Node ι) (reads : Prop) (e : Env (Node ι)) (net : List (Datagram ι)) :
    List (Datagram ι) → Prop where
  | nothing (he : e.recvfrom = none) : Receives me reads e net net
  | datagram (hr : reads) (d : Datagram ι) (hd : d ∈ net) (hdst : d.dst = me)
      (he : e.recvfrom = some (d.src, d.data)) : Receives me reads e net (net.erase d)

def Sys.stepClient (p : Params ι) (s : Sys ι) (i : ι) (e : Env (Node ι))
    (net : List (Datagram ι)) : Sys ι :=
  let next := (s.clients i).step (p.clientConfig i) e
  { s with
    clients := Function.update s.clients i next.1
    net := emitted (.client i) next.2 ++ net }

def Sys.stepServer (p : Params ι) (s : Sys ι) (e : Env (Node ι)) (net : List (Datagram ι)) :
    Sys ι :=
  let next := s.server.step p.serverConfig e
  { s with
    server := next.1
    net := emitted .server next.2 ++ net }

/-- A step of the system: one activation of a party, or the network losing or duplicating a
datagram. The answers of the operating system and all clock readings are arbitrary. -/
inductive Sys.Step (p : Params ι) : Sys ι → Sys ι → Prop where
  | client (s : Sys ι) (i : ι) (e : Env (Node ι)) (net : List (Datagram ι))
      (hr : Receives (.client i) ((s.clients i).reads e) e s.net net)
      (hrand : e.rand 0 = p.clientRand i) : Step p s (s.stepClient p i e net)
  | server (s : Sys ι) (e : Env (Node ι)) (net : List (Datagram ι))
      (hr : Receives .server (s.server.reads e) e s.net net)
      (hrand : e.rand 0 = p.connRand ∧ e.rand 1 = p.seqRand)
      (hw : p.wholeWrites = true → e.fwrite = none) : Step p s (s.stepServer p e net)
  | lose (s : Sys ι) (d : Datagram ι) (hd : d ∈ s.net) : Step p s { s with net := s.net.erase d }
  | duplicate (s : Sys ι) (d : Datagram ι) (hd : d ∈ s.net) :
      Step p s { s with net := d :: s.net }

abbrev Sys.Run (p : Params ι) : List (Sys ι) → Sys ι → Prop :=
  Transition.Run (Sys.Step p) p.init

theorem Receives.mem_of {me : Node ι} {reads : Prop} {e : Env (Node ι)}
    {net net' : List (Datagram ι)} (h : Receives me reads e net net') {d : Datagram ι}
    (hd : d ∈ net') : d ∈ net := by
  cases h with
  | nothing _ => exact hd
  | datagram _ _ _ _ _ => exact List.mem_of_mem_erase hd

/-- What a process reads from its socket was under way to it. -/
theorem Receives.source {me : Node ι} {reads : Prop} {e : Env (Node ι)}
    {net net' : List (Datagram ι)} (h : Receives me reads e net net') {src : Node ι}
    {data : List UInt8} (he : e.recvfrom = some (src, data)) : ⟨src, me, data⟩ ∈ net := by
  cases h with
  | nothing h => rw [h] at he; exact absurd he (by simp)
  | datagram _ d hd hdst h =>
    rw [h] at he
    obtain ⟨rfl, rfl⟩ := Prod.mk.inj (Option.some.inj he)
    rw [← hdst]
    exact hd

end ReliableUdp
