import ReliableUdp.Endpoint.Calls
import ReliableUdp.Endpoint.CommandLine
import ReliableUdp.Framework.Resources

namespace ReliableUdp

open Machine

def exNoInput : Int := 66
def exNoHost : Int := 68
def exCantCreat : Int := 73
def maxPortLengthInSigns : Nat := 6

/-- `%d` of `snprintf` -/
def formatInt (n : Int) : CString :=
  if n < 0 then '-' :: Nat.toDigits 10 n.natAbs else Nat.toDigits 10 n.natAbs

/-- What `snprintf` leaves in `port_str`, which has room for the terminating zero as well. -/
def portStr (config : CommandLine) : CString :=
  (formatInt config.port.toInt).take (maxPortLengthInSigns - 1)

/-- An address of the list that `getaddrinfo` makes, with the answers of `socket` and `bind` for it:
a file descriptor or a failure, and success or failure. -/
structure Candidate (Addr : Type) where
  addr : Addr
  socket : Option Nat
  bind : Bool

/-- The answers of the operating system before the loop of `run_client` or `run_server` begins. -/
structure Startup (Addr : Type) where
  sigemptyset : Bool
  /-- `sigaction` for SIGINT and SIGTERM -/
  sigaction : Bool × Bool
  /-- the addresses for a host and a service, `none` for an error -/
  getaddrinfo : Option String → CString → Option (List (Candidate Addr))
  /-- whether the file can be opened in this mode -/
  fopen : String → String → Bool
  startMs : UInt64
  /-- what `read_chunk` will report about the stream of this name, or about the standard input -/
  file : Option String → InputFile
  /-- the uninitialised `client_addr` -/
  clientAddr : Addr

/-- What the program acquires and has to give back. -/
inductive Resource where
  | addrinfo
  | socket (fd : Nat)
  | stream
  deriving DecidableEq

abbrev Op := ResourceOp Resource

variable {Addr : Type}

/-- `install_signal_handlers` -/
def installSignalHandlers (a : Startup Addr) : Int :=
  if !a.sigemptyset then -1
  else if !a.sigaction.1 then -1
  else if !a.sigaction.2 then -1
  else 0

/-- The loop of `setup_client_socket`: the first address that a socket can be made for. It reads the
entry of the list for `socket` and again for the address or the next entry. -/
def firstSocket : List (Candidate Addr) → Option (Nat × Addr) × List Op
  | [] => (none, [])
  | rider :: rest =>
    match rider.socket with
    | some fd =>
      (some (fd, rider.addr), [.use .addrinfo, .acquire (.socket fd), .use .addrinfo])
    | none =>
      let later := firstSocket rest
      (later.1, .use .addrinfo :: .use .addrinfo :: later.2)

/-- `setup_client_socket`, which hands out a descriptor with the address of the server, or a
negative code. -/
def setupClientSocket (config : CommandLine) (a : Startup Addr) :
    Except Int (Nat × Addr) × List Op :=
  match a.getaddrinfo config.address (portStr config) with
  | none => (.error (-exNoHost), [])
  | some result =>
    let first := firstSocket result
    match first.1 with
    | none => (.error (-exOsErr), .acquire .addrinfo :: (first.2 ++ [.release .addrinfo]))
    | some (fd, addr) =>
      (.ok (fd, addr), .acquire .addrinfo :: (first.2 ++ [.release .addrinfo]))

/-- The loop of `setup_server_socket`: the first address that a socket can be bound to. It reads the
entry of the list for `socket`, for `bind` and for the next entry. -/
def firstBound : List (Candidate Addr) → Option Nat × List Op
  | [] => (none, [])
  | rider :: rest =>
    match rider.socket with
    | none =>
      let later := firstBound rest
      (later.1, .use .addrinfo :: .use .addrinfo :: later.2)
    | some fd =>
      if rider.bind then
        (some fd, [.use .addrinfo, .acquire (.socket fd), .use .addrinfo, .use (.socket fd)])
      else
        let later := firstBound rest
        (later.1, .use .addrinfo :: .acquire (.socket fd) :: .use .addrinfo ::
          .use (.socket fd) :: .release (.socket fd) :: .use .addrinfo :: later.2)

/-- No address and an empty one stand for all local addresses. -/
def bindAddress (config : CommandLine) : Option String :=
  if config.address = some "" then none else config.address

def setupServerSocket (config : CommandLine) (a : Startup Addr) : Except Int Nat × List Op :=
  match a.getaddrinfo (bindAddress config) (portStr config) with
  | none => (.error (-exNoHost), [])
  | some result =>
    let bound := firstBound result
    match bound.1 with
    | none => (.error (-exOsErr), .acquire .addrinfo :: (bound.2 ++ [.release .addrinfo]))
    | some fd => (.ok fd, .acquire .addrinfo :: (bound.2 ++ [.release .addrinfo]))

/-- `get_file_stream`, which tells whether a file has been opened, or fails. -/
def getFileStream (a : Startup Addr) (filename : Option String) (mode : String) : Option Bool :=
  if usesDefaultStream filename then some false
  else if a.fopen (filename.getD "") mode then some true
  else none

/-- An operation on the stream, if it has been opened. -/
def onStream (op : Resource → Op) (opened : Bool) : List Op := if opened then [op .stream] else []

/-- The process from `main` on: in the loop of `run_client` or `run_server` with a socket and maybe
a file, or ended. -/
inductive Process (Addr : Type) where
  | client (config : CommandLine) (fd : Nat) (opened : Bool) (c : Client Addr)
  | server (config : CommandLine) (fd : Nat) (opened : Bool) (s : Server Addr)
  | exited (code : Int)

/-- `run_client` up to its loop. -/
def enterClient (config : CommandLine) (a : Startup Addr) : Process Addr × List Op :=
  match setupClientSocket config a with
  | (.error code, ops) => (.exited (-code), ops)
  | (.ok (fd, addr), ops) =>
    match getFileStream a config.inputFile "rb" with
    | none => (.exited exNoInput, ops ++ [.release (.socket fd)])
    | some opened =>
      (.client config fd opened (.init addr a.startMs (a.file config.inputFile)),
        ops ++ onStream .acquire opened)

/-- `run_server` up to its loop. -/
def enterServer (config : CommandLine) (a : Startup Addr) : Process Addr × List Op :=
  match setupServerSocket config a with
  | (.error code, ops) => (.exited (-code), ops)
  | (.ok fd, ops) =>
    match getFileStream a config.outputFile "wb" with
    | none => (.exited exCantCreat, ops ++ [.release (.socket fd)])
    | some opened =>
      (.server config fd opened (.init a.clientAddr a.startMs), ops ++ onStream .acquire opened)

/-- `main` up to one of the loops. -/
def enterMain (argv : List CString) (a : Startup Addr) : Process Addr × List Op :=
  if installSignalHandlers a ≠ 0 then (.exited exOsErr, [])
  else
    match parseArguments argv with
    | .error code => (.exited code, [])
    | .ok config =>
      if config.isServer then enterServer config a
      else if config.isClient then enterClient config a
      else (.exited exSoftware, [])

namespace Process

/-- What the cleanup returns is returned by `main`. -/
def exitWith (returned : Option Int) (running : Process Addr) : Process Addr :=
  match returned with
  | none => running
  | some code => .exited code

end Process

/-- What a call does with the socket, or with the file if one has been opened. -/
def Call.ops (fd : Nat) (opened : Bool) : Call → List Op
  | .select => [.use (.socket fd)]
  | .recvfrom => [.use (.socket fd)]
  | .sendto => [.use (.socket fd)]
  | .fread => onStream .use opened
  | .fwrite => onStream .use opened
  | .fclose => [.release .stream]
  | .close => [.release (.socket fd)]

/-- One activation of the process. -/
def Process.step : Process Addr → Env Addr → Process Addr × List Op
  | .client config fd opened c, e =>
    let next := (c.step config.toAppConfig e).1
    (exitWith next.pc.code (.client config fd opened next),
      (c.calls config.toAppConfig e).flatMap (Call.ops fd opened))
  | .server config fd opened s, e =>
    let next := (s.step config.toAppConfig e).1
    (exitWith next.pc.code (.server config fd opened next),
      (s.calls config.toAppConfig e).flatMap (Call.ops fd opened))
  | .exited code, _ => (.exited code, [])

/-- The process behind `main` and the activations `es`. -/
def process (argv : List CString) (a : Startup Addr) (es : List (Env Addr)) : Process Addr :=
  after Process.step (enterMain argv a).1 es

/-- All that it has done with its resources by then. -/
def operations (argv : List CString) (a : Startup Addr) (es : List (Env Addr)) : List Op :=
  (enterMain argv a).2 ++ outputs Process.step (enterMain argv a).1 es

section Resources

open ResourceOp

/-- What a running process holds: its socket and the file it has opened. -/
def holding (fd : Nat) (opened : Bool) : Finset Resource :=
  if opened then {.stream, .socket fd} else {.socket fd}

def Process.holds : Process Addr → Finset Resource
  | .client _ fd opened c => if c.pc.code = none then holding fd opened else ∅
  | .server _ fd opened s => if s.pc.code = none then holding fd opened else ∅
  | .exited _ => ∅

/-- A file has been opened exactly if the name is not that of the default stream. -/
def Process.Opened : Process Addr → Prop
  | .client config _ opened _ => opened = !usesDefaultStream config.inputFile
  | .server config _ opened _ => opened = !usesDefaultStream config.outputFile
  | .exited _ => True

/-- The calls of an activation of the process. -/
def Process.Called : Process Addr → Env Addr → Prop
  | .client config _ _ c, e => c.Called config.toAppConfig e
  | .server config _ _ s, e => s.Called config.toAppConfig e
  | .exited _, _ => True

theorem socket_mem_holding (fd : Nat) (opened : Bool) :
    Resource.socket fd ∈ holding fd opened := by
  cases opened <;> simp [holding]

theorem onStream_acquire (fd : Nat) (opened : Bool) :
    Leads {.socket fd} (onStream .acquire opened) (holding fd opened) := by
  cases opened with
  | false => exact .nil _
  | true => exact .acquire (by simp) (.nil _)

theorem release_socket (fd : Nat) : Leads {Resource.socket fd} [.release (.socket fd)] ∅ :=
  .drop (Finset.notMem_empty _)

/-- The handlers use what is held. -/
theorem KeepsOpen.leads {calls : List Call} (h : KeepsOpen calls) (fd : Nat) (opened : Bool) :
    Leads (holding fd opened) (calls.flatMap (Call.ops fd opened)) (holding fd opened) := by
  apply Leads.uses
  intro op hop
  obtain ⟨call, hcall, hmem⟩ := List.mem_flatMap.mp hop
  have hstream (hs : op ∈ onStream .use opened) : ∃ r ∈ holding fd opened, op = .use r := by
    cases opened with
    | false => exact absurd hs List.not_mem_nil
    | true => exact ⟨.stream, by simp [holding], List.mem_singleton.mp hs⟩
  have hsocket (hs : op ∈ [ResourceOp.use (Resource.socket fd)]) :
      ∃ r ∈ holding fd opened, op = .use r :=
    ⟨.socket fd, socket_mem_holding fd opened, List.mem_singleton.mp hs⟩
  cases call with
  | select => exact hsocket hmem
  | recvfrom => exact hsocket hmem
  | sendto => exact hsocket hmem
  | fread => exact hstream hmem
  | fwrite => exact hstream hmem
  | fclose => exact absurd hcall h.1
  | close => exact absurd hcall h.2

/-- The cleanup gives everything back, the file first. -/
theorem cleanupCalls_leads (fd : Nat) (filename : Option String) :
    Leads (holding fd (!usesDefaultStream filename))
      ((cleanupCalls filename).flatMap (Call.ops fd (!usesDefaultStream filename))) ∅ := by
  rw [cleanupCalls]
  cases usesDefaultStream filename with
  | true => exact release_socket fd
  | false =>
    have hstream : Leads (holding fd true) [.release .stream] {.socket fd} := .drop (by simp)
    exact hstream.append (release_socket fd)

theorem Process.Opened.step {p : Process Addr} (h : p.Opened) (e : Env Addr) :
    (p.step e).1.Opened := by
  cases p with
  | exited code => trivial
  | client config fd opened c =>
    rw [Process.step]
    cases (c.step config.toAppConfig e).1.pc.code with
    | none => exact h
    | some code => trivial
  | server config fd opened s =>
    rw [Process.step]
    cases (s.step config.toAppConfig e).1.pc.code with
    | none => exact h
    | some code => trivial

theorem Process.called (p : Process Addr) (e : Env Addr) : p.Called e := by
  cases p with
  | exited code => trivial
  | client config fd opened c => exact c.called config.toAppConfig e
  | server config fd opened s => exact s.called config.toAppConfig e

theorem Process.step_leads {p : Process Addr} (h : p.Opened) (e : Env Addr) :
    Leads p.holds (p.step e).2 (p.step e).1.holds := by
  cases p with
  | exited code => exact .nil _
  | client config fd opened c =>
    obtain rfl : opened = !usesDefaultStream config.inputFile := h
    rw [Process.step, Process.holds]
    cases c.called config.toAppConfig e with
    | returned code hpc hcalls hstays =>
      rw [hstays, hcalls, hpc]
      exact .nil _
    | cleanup hpc hcalls code hreturns =>
      rw [hpc, hcalls, hreturns]
      exact cleanupCalls_leads fd config.inputFile
    | runs hpc hruns =>
      simp only [hpc, hruns.goesOn, if_true, Process.exitWith, Process.holds]
      exact hruns.keepsOpen.leads fd _
  | server config fd opened s =>
    obtain rfl : opened = !usesDefaultStream config.outputFile := h
    rw [Process.step, Process.holds]
    cases s.called config.toAppConfig e with
    | returned code hpc hcalls hstays =>
      rw [hstays, hcalls, hpc]
      exact .nil _
    | cleanup hpc hcalls code hreturns =>
      rw [hpc, hcalls, hreturns]
      exact cleanupCalls_leads fd config.outputFile
    | runs hpc hruns =>
      simp only [hpc, hruns.goesOn, if_true, Process.exitWith, Process.holds]
      exact hruns.keepsOpen.leads fd _

theorem firstSocket_leads (held : Finset Resource) (hlist : .addrinfo ∈ held)
    (hno : ∀ fd, .socket fd ∉ held) (result : List (Candidate Addr)) :
    Leads held (firstSocket result).2
      ((firstSocket result).1.elim held (fun r => insert (.socket r.1) held)) := by
  induction result with
  | nil => exact .nil _
  | cons rider rest ih =>
    rw [firstSocket]
    cases rider.socket with
    | none => exact .use hlist (.use hlist ih)
    | some fd =>
      exact .use hlist (.acquire (hno fd) (.use (Finset.mem_insert_of_mem hlist) (.nil _)))

theorem firstBound_leads (held : Finset Resource) (hlist : .addrinfo ∈ held)
    (hno : ∀ fd, .socket fd ∉ held) (result : List (Candidate Addr)) :
    Leads held (firstBound result).2
      ((firstBound result).1.elim held (fun fd => insert (.socket fd) held)) := by
  induction result with
  | nil => exact .nil _
  | cons rider rest ih =>
    rw [firstBound]
    cases rider.socket with
    | none => exact .use hlist (.use hlist ih)
    | some fd =>
      have hstill : Resource.addrinfo ∈ insert (.socket fd) held := Finset.mem_insert_of_mem hlist
      dsimp only
      split_ifs
      · exact .use hlist (.acquire (hno fd)
          (.use hstill (.use (Finset.mem_insert_self _ _) (.nil _))))
      · refine .use hlist (.acquire (hno fd) (.use hstill (.use (Finset.mem_insert_self _ _)
          (.release (Finset.mem_insert_self _ _) ?_))))
        rw [Finset.erase_insert (hno fd)]
        exact .use hlist ih

/-- The list of addresses is freed behind the loop that has used it. -/
theorem addrinfo_leads {ops : List Op} {held : Finset Resource}
    (h : Leads {.addrinfo} ops (insert .addrinfo held)) (hno : .addrinfo ∉ held) :
    Leads ∅ (.acquire .addrinfo :: (ops ++ [.release .addrinfo])) held :=
  .acquire (Finset.notMem_empty _) (h.append (.drop hno))

/-- Behind a successful setup there is a socket, behind a failed one nothing. -/
theorem setupClientSocket_leads (config : CommandLine) (a : Startup Addr) :
    Leads ∅ (setupClientSocket config a).2
      ((setupClientSocket config a).1.toOption.elim ∅ (fun r => {.socket r.1})) := by
  rw [setupClientSocket]
  cases a.getaddrinfo config.address (portStr config) with
  | none => exact .nil _
  | some result =>
    have hfirst := firstSocket_leads {.addrinfo} (by simp) (by simp) result
    dsimp only
    cases hr : (firstSocket result).1 with
    | none =>
      rw [hr] at hfirst
      exact addrinfo_leads hfirst (Finset.notMem_empty _)
    | some r =>
      rw [hr, Option.elim_some, Finset.pair_comm] at hfirst
      exact addrinfo_leads hfirst (by simp [Except.toOption])

theorem setupServerSocket_leads (config : CommandLine) (a : Startup Addr) :
    Leads ∅ (setupServerSocket config a).2
      ((setupServerSocket config a).1.toOption.elim ∅ (fun fd => {.socket fd})) := by
  rw [setupServerSocket]
  cases a.getaddrinfo (bindAddress config) (portStr config) with
  | none => exact .nil _
  | some result =>
    have hbound := firstBound_leads {.addrinfo} (by simp) (by simp) result
    dsimp only
    cases hr : (firstBound result).1 with
    | none =>
      rw [hr] at hbound
      exact addrinfo_leads hbound (Finset.notMem_empty _)
    | some fd =>
      rw [hr, Option.elim_some, Finset.pair_comm] at hbound
      exact addrinfo_leads hbound (by simp [Except.toOption])

theorem enterClient_leads (config : CommandLine) (a : Startup Addr) :
    Leads ∅ (enterClient config a).2 (enterClient config a).1.holds := by
  have hsetup := setupClientSocket_leads config a
  rw [enterClient]
  cases hs : setupClientSocket config a with
  | mk result ops =>
    rw [hs] at hsetup
    cases result with
    | error code => exact hsetup
    | ok r =>
      dsimp only
      cases getFileStream a config.inputFile "rb" with
      | none => exact hsetup.append (release_socket r.1)
      | some opened => exact hsetup.append (onStream_acquire r.1 opened)

theorem enterServer_leads (config : CommandLine) (a : Startup Addr) :
    Leads ∅ (enterServer config a).2 (enterServer config a).1.holds := by
  have hsetup := setupServerSocket_leads config a
  rw [enterServer]
  cases hs : setupServerSocket config a with
  | mk result ops =>
    rw [hs] at hsetup
    cases result with
    | error code => exact hsetup
    | ok fd =>
      dsimp only
      cases getFileStream a config.outputFile "wb" with
      | none => exact hsetup.append (release_socket fd)
      | some opened => exact hsetup.append (onStream_acquire fd opened)

theorem enterMain_leads (argv : List CString) (a : Startup Addr) :
    Leads ∅ (enterMain argv a).2 (enterMain argv a).1.holds := by
  rw [enterMain]
  split_ifs
  · exact .nil _
  · cases parseArguments argv with
    | error code => exact .nil _
    | ok config =>
      dsimp only
      split_ifs
      · exact enterServer_leads config a
      · exact enterClient_leads config a
      · exact .nil _

theorem getFileStream_opened {a : Startup Addr} {filename : Option String} {mode : String}
    {opened : Bool} (h : getFileStream a filename mode = some opened) :
    opened = !usesDefaultStream filename := by
  rw [getFileStream] at h
  split_ifs at h with hdefault
  · rw [hdefault, ← Option.some.inj h]
    rfl
  · rw [Bool.eq_false_iff.mpr hdefault, ← Option.some.inj h]
    rfl

theorem enterMain_opened (argv : List CString) (a : Startup Addr) :
    (enterMain argv a).1.Opened := by
  rw [enterMain]
  split_ifs
  · trivial
  · cases parseArguments argv with
    | error code => trivial
    | ok config =>
      dsimp only
      split_ifs
      · rw [enterServer]
        cases setupServerSocket config a with
        | mk result ops =>
          cases result with
          | error code => trivial
          | ok fd =>
            dsimp only
            cases hfile : getFileStream a config.outputFile "wb" with
            | none => trivial
            | some opened => exact getFileStream_opened hfile
      · rw [enterClient]
        cases setupClientSocket config a with
        | mk result ops =>
          cases result with
          | error code => trivial
          | ok r =>
            dsimp only
            cases hfile : getFileStream a config.inputFile "rb" with
            | none => trivial
            | some opened => exact getFileStream_opened hfile
      · trivial

/-- Whatever the command line is and whatever fails, the program never touches an address list, a
socket or a file that it does not have and gives everything back: when it has ended, every address
list, socket and file has been freed or closed exactly as often as it was made or opened. In its
loops the operations are the calls of the handlers and of the cleanup. -/
theorem nothing_leaks (argv : List CString) (a : Startup Addr) (es : List (Env Addr)) :
    Leads ∅ (operations argv a es) (process argv a es).holds ∧
    (∀ code, process argv a es = .exited code → ∀ r,
      (operations argv a es).count (.acquire r) = (operations argv a es).count (.release r)) ∧
    ∀ e, (process argv a es).Called e := by
  have hleads : Leads ∅ (operations argv a es) (process argv a es).holds :=
    (enterMain_leads argv a).append (outputs_lead Process.holds (fun _ e h => h.step e)
      (fun _ e h => Process.step_leads h e) (enterMain_opened argv a) es)
  refine ⟨hleads, ?_, (process argv a es).called⟩
  intro code hexit r
  have hbalance := hleads.balance r
  rw [hexit] at hbalance
  simpa [Process.holds] using hbalance

end Resources

end ReliableUdp
