import ReliableUdp.Endpoint.Diagnosis
import ReliableUdp.Endpoint.Program

namespace ReliableUdp

open Machine

variable {Addr : Type}

/-- Why `run_client` returns an exit code. In its loop it is the activation with `e` that has set
the code, which stays behind it. -/
inductive Client.Ends (config : CommandLine) (a : Startup Addr) (es : List (Env Addr)) :
    Int → Prop where
  | unresolved (h : a.getaddrinfo config.address (portStr config) = none) :
      Ends config a es exNoHost
  | noSocket (result : List (Candidate Addr))
      (h : a.getaddrinfo config.address (portStr config) = some result)
      (socket : ∀ rider ∈ result, rider.socket = none) : Ends config a es exOsErr
  | noInput (named : usesDefaultStream config.inputFile = false)
      (h : a.fopen (config.inputFile.getD "") "rb" = false) : Ends config a es exNoInput
  | loop (fd : Nat) (addr : Addr) (socket : (setupClientSocket config a).1 = .ok (fd, addr))
      (pre post : List (Env Addr)) (e : Env Addr) (hes : es = pre ++ e :: post) (code : Int)
      (why : (after (step config.toAppConfig)
          (init addr a.startMs (a.file config.inputFile)) pre).Explains config.toAppConfig e
        (step config.toAppConfig (after (step config.toAppConfig)
          (init addr a.startMs (a.file config.inputFile)) pre) e).2 code)
      (set : ∀ mid rest, post = mid ++ rest → (after (step config.toAppConfig)
        (init addr a.startMs (a.file config.inputFile)) (pre ++ e :: mid)).Gone code) :
      Ends config a es code

/-- Why `run_server` returns an exit code. In its loop it is the activation with `e` that has set
the code, which stays behind it. -/
inductive Server.Ends (config : CommandLine) (a : Startup Addr) (es : List (Env Addr)) :
    Int → Prop where
  | unresolved (h : a.getaddrinfo (bindAddress config) (portStr config) = none) :
      Ends config a es exNoHost
  | noSocket (result : List (Candidate Addr))
      (h : a.getaddrinfo (bindAddress config) (portStr config) = some result)
      (bind : ∀ rider ∈ result, rider.socket = none ∨ rider.bind = false) :
      Ends config a es exOsErr
  | noOutput (named : usesDefaultStream config.outputFile = false)
      (h : a.fopen (config.outputFile.getD "") "wb" = false) : Ends config a es exCantCreat
  | loop (fd : Nat) (socket : (setupServerSocket config a).1 = .ok fd)
      (pre post : List (Env Addr)) (e : Env Addr) (hes : es = pre ++ e :: post) (code : Int)
      (why : (after (step config.toAppConfig) (init a.clientAddr a.startMs) pre).Explains
        config.toAppConfig e
        (step config.toAppConfig
          (after (step config.toAppConfig) (init a.clientAddr a.startMs) pre) e).2 code)
      (set : ∀ mid rest, post = mid ++ rest → (after (step config.toAppConfig)
        (init a.clientAddr a.startMs) (pre ++ e :: mid)).Gone code) : Ends config a es code

/-- Why `main` returns an exit code, or `exit` is called with it. -/
inductive Process.Ends (argv : List CString) (a : Startup Addr) (es : List (Env Addr)) :
    Int → Prop where
  | noHandlers (h : installSignalHandlers a ≠ 0) : Ends argv a es exOsErr
  | refused (code : Int) (h : parseArguments argv = .error code) : Ends argv a es code
  | client (config : CommandLine) (h : parseArguments argv = .ok config)
      (role : config.isClient = true) (code : Int) (why : Client.Ends config a es code) :
      Ends argv a es code
  | server (config : CommandLine) (h : parseArguments argv = .ok config)
      (role : config.isServer = true) (code : Int) (why : Server.Ends config a es code) :
      Ends argv a es code

theorem exitWith_eq (returned : Option Int) (running : Process Addr) :
    Process.exitWith returned running = returned.elim running .exited := by
  cases returned with
  | none => rfl
  | some code => rfl

theorem Client.process_returned {config : CommandLine} {fd : Nat} {opened : Bool}
    {c : Client Addr} {es : List (Env Addr)} {code : Int}
    (h : after Process.step (.client config fd opened c) es = .exited code) :
    (after (Client.step config.toAppConfig) c es).pc = .returned code := by
  obtain ⟨pre, post, hes, hcode⟩ := delivered (Client.step config.toAppConfig)
    (Process.client config fd opened) Process.exited (fun c => c.pc.code)
    (fun c e => exitWith_eq _ _) (fun code e => rfl) (fun c code => by simp)
    (fun v w hvw => Process.exited.inj hvw) h
  have hpre : (after (Client.step config.toAppConfig) c pre).pc = .returned code := by
    revert hcode
    cases (after (Client.step config.toAppConfig) c pre).pc with
    | returned v => exact fun hcode => congrArg ClientPc.returned (Option.some.inj hcode)
    | fsm => exact nofun
    | transfer => exact nofun
    | select ms => exact nofun
  rw [hes, after_append]
  exact after_invariant (P := fun c : Client Addr => c.pc = .returned code)
    (fun c e hc => by rw [step_returned hc]; exact hc) hpre post

theorem Server.process_returned {config : CommandLine} {fd : Nat} {opened : Bool}
    {s : Server Addr} {es : List (Env Addr)} {code : Int}
    (h : after Process.step (.server config fd opened s) es = .exited code) :
    (after (Server.step config.toAppConfig) s es).pc = .returned code := by
  obtain ⟨pre, post, hes, hcode⟩ := delivered (Server.step config.toAppConfig)
    (Process.server config fd opened) Process.exited (fun s => s.pc.code)
    (fun s e => exitWith_eq _ _) (fun code e => rfl) (fun s code => by simp)
    (fun v w hvw => Process.exited.inj hvw) h
  have hpre : (after (Server.step config.toAppConfig) s pre).pc = .returned code := by
    revert hcode
    cases (after (Server.step config.toAppConfig) s pre).pc with
    | returned v => exact fun hcode => congrArg ServerPc.returned (Option.some.inj hcode)
    | fsm => exact nofun
    | select ms => exact nofun
  rw [hes, after_append]
  exact after_invariant (P := fun s : Server Addr => s.pc = .returned code)
    (fun s e hs => by rw [step_returned hs]; exact hs) hpre post

theorem exited_stays {code code' : Int} {es : List (Env Addr)}
    (h : after Process.step (.exited code') es = .exited code) : code' = code := by
  have hstay : after Process.step (Process.exited code') es = .exited code' :=
    after_invariant (P := (· = Process.exited code')) (fun p e hp => by rw [hp]; rfl) rfl es
  exact Process.exited.inj (hstay.symm.trans h)

theorem getFileStream_none {a : Startup Addr} {filename : Option String} {mode : String}
    (h : getFileStream a filename mode = none) :
    usesDefaultStream filename = false ∧ a.fopen (filename.getD "") mode = false := by
  rw [getFileStream] at h
  split_ifs at h with hdefault hopen
  exact ⟨Bool.eq_false_iff.mpr hdefault, Bool.eq_false_iff.mpr hopen⟩

theorem firstSocket_none {result : List (Candidate Addr)} (h : (firstSocket result).1 = none) :
    ∀ rider ∈ result, rider.socket = none := by
  induction result with
  | nil => exact nofun
  | cons rider rest ih =>
    rw [firstSocket] at h
    cases hs : rider.socket with
    | some fd =>
      rw [hs] at h
      exact absurd h (by simp)
    | none =>
      rw [hs] at h
      exact List.forall_mem_cons.mpr ⟨hs, ih h⟩

theorem firstBound_none {result : List (Candidate Addr)} (h : (firstBound result).1 = none) :
    ∀ rider ∈ result, rider.socket = none ∨ rider.bind = false := by
  induction result with
  | nil => exact nofun
  | cons rider rest ih =>
    rw [firstBound] at h
    cases hs : rider.socket with
    | none =>
      rw [hs] at h
      exact List.forall_mem_cons.mpr ⟨Or.inl hs, ih h⟩
    | some fd =>
      rw [hs] at h
      dsimp only at h
      split_ifs at h with hbind
      exact List.forall_mem_cons.mpr ⟨Or.inr (Bool.eq_false_iff.mpr hbind), ih h⟩

theorem Client.ends_of_exited {config : CommandLine} {a : Startup Addr} {es : List (Env Addr)}
    {code : Int} (h : after Process.step (enterClient config a).1 es = .exited code) :
    Client.Ends config a es code := by
  rw [enterClient] at h
  cases hinfo : a.getaddrinfo config.address (portStr config) with
  | none =>
    rw [setupClientSocket, hinfo] at h
    rw [← exited_stays h]
    exact .unresolved hinfo
  | some result =>
    cases hfirst : (firstSocket result).1 with
    | none =>
      rw [setupClientSocket, hinfo] at h
      simp only [hfirst] at h
      rw [← exited_stays h]
      exact .noSocket result hinfo (firstSocket_none hfirst)
    | some r =>
      have hsocket : (setupClientSocket config a).1 = .ok (r.1, r.2) := by
        rw [setupClientSocket, hinfo]
        simp only [hfirst]
      rw [setupClientSocket, hinfo] at h
      simp only [hfirst] at h
      cases hfile : getFileStream a config.inputFile "rb" with
      | none =>
        rw [hfile] at h
        obtain ⟨hnamed, hopen⟩ := getFileStream_none hfile
        rw [← exited_stays h]
        exact .noInput hnamed hopen
      | some opened =>
        rw [hfile] at h
        obtain ⟨pre, e, post, hes, hwhy, hset⟩ := returned_explained (process_returned h)
        exact .loop r.1 r.2 hsocket pre post e hes code hwhy hset

theorem Server.ends_of_exited {config : CommandLine} {a : Startup Addr} {es : List (Env Addr)}
    {code : Int} (h : after Process.step (enterServer config a).1 es = .exited code) :
    Server.Ends config a es code := by
  rw [enterServer] at h
  cases hinfo : a.getaddrinfo (bindAddress config) (portStr config) with
  | none =>
    rw [setupServerSocket, hinfo] at h
    rw [← exited_stays h]
    exact .unresolved hinfo
  | some result =>
    cases hfirst : (firstBound result).1 with
    | none =>
      rw [setupServerSocket, hinfo] at h
      simp only [hfirst] at h
      rw [← exited_stays h]
      exact .noSocket result hinfo (firstBound_none hfirst)
    | some fd =>
      have hsocket : (setupServerSocket config a).1 = .ok fd := by
        rw [setupServerSocket, hinfo]
        simp only [hfirst]
      rw [setupServerSocket, hinfo] at h
      simp only [hfirst] at h
      cases hfile : getFileStream a config.outputFile "wb" with
      | none =>
        rw [hfile] at h
        obtain ⟨hnamed, hopen⟩ := getFileStream_none hfile
        rw [← exited_stays h]
        exact .noOutput hnamed hopen
      | some opened =>
        rw [hfile] at h
        obtain ⟨pre, e, post, hes, hwhy, hset⟩ := returned_explained (process_returned h)
        exact .loop fd hsocket pre post e hes code hwhy hset

theorem Process.ends_of_exited {argv : List CString} {a : Startup Addr} {es : List (Env Addr)}
    {code : Int} (h : process argv a es = .exited code) : Process.Ends argv a es code := by
  rw [process, enterMain] at h
  split_ifs at h with hhandlers
  · rw [← exited_stays h]
    exact .noHandlers hhandlers
  · cases hparse : parseArguments argv with
    | error code' =>
      rw [hparse] at h
      rw [← exited_stays h]
      exact .refused code' hparse
    | ok config =>
      have hmode := (parseArguments_checked hparse).mode
      rw [hparse] at h
      dsimp only at h
      split_ifs at h with hserver hclient
      · exact .server config hparse hserver code (Server.ends_of_exited h)
      · exact .client config hparse hclient code (Client.ends_of_exited h)
      · exact absurd ((Bool.eq_false_iff.mpr hserver).trans (Bool.eq_false_iff.mpr hclient).symm)
          hmode

/-- The client has come to TIME_WAIT. -/
def Client.ComesToClose (config : CommandLine) (a : Startup Addr) (es : List (Env Addr)) : Prop :=
  ∃ fd addr, (setupClientSocket config a).1 = .ok (fd, addr) ∧
    ∃ pre, pre <+: es ∧ (after (Client.step config.toAppConfig)
      (Client.init addr a.startMs (a.file config.inputFile)) pre).state = .timeWait

/-- The server has come to LAST_ACK. -/
def Server.ComesToClose (config : CommandLine) (a : Startup Addr) (es : List (Env Addr)) : Prop :=
  ∃ fd, (setupServerSocket config a).1 = .ok fd ∧
    ∃ pre, pre <+: es ∧ (after (Server.step config.toAppConfig)
      (Server.init a.clientAddr a.startMs) pre).state = .lastAck

theorem Client.Ends.closes {config : CommandLine} {a : Startup Addr} {es : List (Env Addr)}
    {code : Int} (h : Client.Ends config a es code) (hcode : code = 0) :
    Client.ComesToClose config a es := by
  cases h with
  | loop fd addr socket pre post e hes code why _ =>
    exact ⟨fd, addr, socket, pre, ⟨e :: post, hes.symm⟩, why.closing hcode⟩
  | _ => exact absurd hcode (by decide)

theorem Server.Ends.closes {config : CommandLine} {a : Startup Addr} {es : List (Env Addr)}
    {code : Int} (h : Server.Ends config a es code) (hcode : code = 0) :
    Server.ComesToClose config a es := by
  cases h with
  | loop fd socket pre post e hes code why _ =>
    exact ⟨fd, socket, pre, ⟨e :: post, hes.symm⟩, why.closing hcode⟩
  | _ => exact absurd hcode (by decide)

/-- Whatever the process is started with and whatever it meets, the code it exits with names the
reason why it has ended; with 0 it ends only when help is asked for, or when the connection has been
closed on its side. -/
theorem exit_explained (argv : List CString) (a : Startup Addr) (es : List (Env Addr)) (code : Int)
    (h : process argv a es = .exited code) : Process.Ends argv a es code ∧
    (code = 0 → .flag 'h' ∈ options argv ∨ ∃ config, parseArguments argv = .ok config ∧
      (config.isClient = true ∧ Client.ComesToClose config a es ∨
        config.isServer = true ∧ Server.ComesToClose config a es)) := by
  have hends := Process.ends_of_exited h
  refine ⟨hends, ?_⟩
  intro hcode
  cases hends with
  | noHandlers _ => exact absurd hcode (by decide)
  | refused code hparse => exact Or.inl (parseArguments_exit_zero (hcode ▸ hparse))
  | client config hparse hrole code why =>
    exact Or.inr ⟨config, hparse, Or.inl ⟨hrole, why.closes hcode⟩⟩
  | server config hparse hrole code why =>
    exact Or.inr ⟨config, hparse, Or.inr ⟨hrole, why.closes hcode⟩⟩

/-- A machine with one address, on which everything works. -/
def Startup.online : Startup Nat where
  sigemptyset := true
  sigaction := (true, true)
  getaddrinfo _ _ := some [⟨1, some 3, true⟩]
  fopen _ _ := true
  startMs := 1000
  file _ := []
  clientAddr := 0

/-- A server that has waited for its client is stopped. -/
theorem exit_explained_stopped :
    Process.Ends ["rdt".toList, "-s".toList, "-p".toList, "7".toList] .online
      [.calm Nat 1000, .calm Nat 1000, { Env.calm Nat 1000 with stopRequested := true },
        .calm Nat 1000] exSoftware :=
  (exit_explained _ _ _ exSoftware rfl).1

end ReliableUdp
