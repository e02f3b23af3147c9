import ReliableUdp.Framework.Getopt
import ReliableUdp.Framework.Numeral
import ReliableUdp.Protocol.Runtime

namespace ReliableUdp

open Getopt Numeral

/-- A string of the argument vector. -/
abbrev CString := List Char

def exUsage : Int := 64

/-- `LONG_MIN` and `LONG_MAX` -/
def longMin : Int := -2 ^ 63
def longMax : Int := 2 ^ 63 - 1

/-- The whole `AppConfig` of the source. -/
structure CommandLine extends AppConfig where
  isServer : Bool
  isClient : Bool
  address : Option String
  port : Int32

/-- The `config` that `parse_arguments` starts from. -/
def CommandLine.initial : CommandLine where
  isServer := false
  isClient := false
  address := none
  inputFile := none
  outputFile := none
  timeout := 1
  port := -1

/-- `.error code` stands for `exit(code)`. -/
def parseNumber (strValue : CString) : Except Int Int :=
  let conversion := strtol longMin longMax strValue
  if conversion.outOfRange ∨ conversion.rest = strValue ∨ conversion.rest ≠ [] then
    .error exDataErr
  else .ok conversion.value

/-- The value that a `long` has as an `int`. -/
def intOfLong (n : Int) : Int32 := Int32.ofInt n

/-- The `switch` of `parse_arguments`. -/
def takeOption (config : CommandLine) : Opt → Except Int CommandLine
  | .flag 's' => .ok { config with isServer := true }
  | .flag 'c' => .ok { config with isClient := true }
  | .value 'p' optarg => do
    let n ← parseNumber optarg
    .ok { config with port := intOfLong n }
  | .value 'a' optarg => .ok { config with address := some (String.ofList optarg) }
  | .value 'i' optarg => .ok { config with inputFile := some (String.ofList optarg) }
  | .value 'o' optarg => .ok { config with outputFile := some (String.ofList optarg) }
  | .value 'w' optarg => do
    let n ← parseNumber optarg
    .ok { config with timeout := intOfLong n }
  | .flag 'h' => .error 0
  | _ => .error exUsage

/-- The checks of `parse_arguments` behind its loop. -/
def checkConfig (config : CommandLine) : Except Int CommandLine :=
  if config.isServer = config.isClient then .error exUsage
  else if config.port = -1 then .error exUsage
  else if config.port < 0 ∨ config.port > 65535 then .error exDataErr
  else if config.timeout ≤ 0 then .error exDataErr
  else if config.isClient ∧ config.address = none then .error exUsage
  else if config.isClient ∧ config.outputFile ≠ none then .error exUsage
  else if config.isServer ∧ config.inputFile ≠ none then .error exUsage
  else .ok config

/-- The options in an argument vector. -/
def options (argv : List CString) : List Opt :=
  getoptLong "scp:a:i:o:w:h".toList [("help".toList, 'h')] argv

def parseArguments (argv : List CString) : Except Int CommandLine := do
  let config ← (options argv).foldlM takeOption CommandLine.initial
  checkConfig config

theorem bind_ok {α β : Type} {x : Except Int α} {f : α → Except Int β} {b : β}
    (h : (x >>= f) = .ok b) : ∃ a, x = .ok a ∧ f a = .ok b := by
  cases x with
  | error code => exact nomatch (h : Except.error code = .ok b)
  | ok a => exact ⟨a, rfl, h⟩

theorem bind_error {α β : Type} {x : Except Int α} {f : α → Except Int β} {code : Int}
    (h : (x >>= f) = .error code) : x = .error code ∨ ∃ a, x = .ok a ∧ f a = .error code := by
  cases x with
  | error c => exact Or.inl (congrArg Except.error (Except.error.inj h))
  | ok a => exact Or.inr ⟨a, rfl, h⟩

theorem parseNumber_ok {s : CString} {n : Int} :
    parseNumber s = .ok n ↔ Denotes s n ∧ longMin ≤ n ∧ n ≤ longMax := by
  rw [← strtol_whole_iff, parseNumber]
  split_ifs with hbad
  · constructor
    · intro h
      exact h.elim
    · intro h
      obtain ⟨hrange, hsome, hwhole, _⟩ := h
      rcases hbad with hb | hb | hb
      · rw [hrange] at hb
        exact Bool.noConfusion hb
      · exact absurd hb hsome
      · exact absurd hwhole hb
  · rw [not_or, not_or, Bool.not_eq_true, not_not] at hbad
    obtain ⟨hrange, hsome, hwhole⟩ := hbad
    constructor
    · intro h
      exact ⟨hrange, hsome, hwhole, Except.ok.inj h⟩
    · intro h
      rw [h.2.2.2]

theorem parseNumber_error {s : CString} {code : Int} (h : parseNumber s = .error code) :
    code = exDataErr := by
  rw [parseNumber] at h
  split_ifs at h
  exact (Except.error.inj h).symm

/-- `n` is the number given last to the option `c`. -/
def Typed (opts : List Opt) (c : Char) (n : Int) : Prop :=
  ∃ s, lastArgument c opts = some s ∧ Denotes s n

/-- A field with `default` as its first value holds the number given last to the option `c`. -/
inductive Holds (opts : List Opt) (c : Char) (default value : Int32) : Prop where
  | unset (none : lastArgument c opts = none) (value : value = default)
  | set (n : Int) (typed : Typed opts c n) (value : value = intOfLong n)

/-- The options that `parse_arguments` goes on after. -/
inductive ValidOption : Opt → Prop where
  | server : ValidOption (.flag 's')
  | client : ValidOption (.flag 'c')
  | address (s : CString) : ValidOption (.value 'a' s)
  | inputFile (s : CString) : ValidOption (.value 'i' s)
  | outputFile (s : CString) : ValidOption (.value 'o' s)
  | port (s : CString) (n : Int) (h : Denotes s n) (lower : longMin ≤ n) (upper : n ≤ longMax) :
      ValidOption (.value 'p' s)
  | timeout (s : CString) (n : Int) (h : Denotes s n) (lower : longMin ≤ n)
      (upper : n ≤ longMax) : ValidOption (.value 'w' s)

/-- Whatever the order of the options is, the last one of a kind wins. -/
structure Records (opts : List Opt) (config : CommandLine) : Prop where
  isServer : config.isServer = true ↔ .flag 's' ∈ opts
  isClient : config.isClient = true ↔ .flag 'c' ∈ opts
  address : config.address = (lastArgument 'a' opts).map String.ofList
  inputFile : config.inputFile = (lastArgument 'i' opts).map String.ofList
  outputFile : config.outputFile = (lastArgument 'o' opts).map String.ofList
  port : Holds opts 'p' (-1) config.port
  timeout : Holds opts 'w' 1 config.timeout

theorem Typed.unique {opts : List Opt} {c : Char} {m n : Int} (hm : Typed opts c m)
    (hn : Typed opts c n) : m = n := by
  obtain ⟨s, hs, hden⟩ := hm
  obtain ⟨s', hs', hden'⟩ := hn
  rw [hs] at hs'
  rw [← Option.some.inj hs'] at hden'
  exact hden.unique hden'

section Options

variable {opts : List Opt} {config next : CommandLine} {o : Opt} {c : Char} {s : CString}
  {default value : Int32}

theorem lastArgument_keep (ho : o.argument c = none) :
    lastArgument c (opts ++ [o]) = lastArgument c opts := by
  rw [lastArgument_snoc, ho]
  rfl

theorem lastArgument_change : lastArgument c (opts ++ [.value c s]) = some s := by
  rw [lastArgument_snoc, Opt.argument, if_pos rfl]
  rfl

theorem Holds.keep (h : Holds opts c default value) (ho : o.argument c = none) :
    Holds (opts ++ [o]) c default value := by
  cases h with
  | unset hnone hv => exact .unset ((lastArgument_keep ho).trans hnone) hv
  | set n ht hv =>
    obtain ⟨s, hs, hden⟩ := ht
    exact .set n ⟨s, (lastArgument_keep ho).trans hs, hden⟩ hv

theorem Holds.change {n : Int} (h : Denotes s n) :
    Holds (opts ++ [.value c s]) c default (intOfLong n) :=
  .set n ⟨s, lastArgument_change, h⟩ rfl

theorem ValidOption.of_takeOption (ho : takeOption config o = .ok next) : ValidOption o := by
  unfold takeOption at ho
  split at ho
  · exact .server
  · exact .client
  · obtain ⟨n, hn, _⟩ := bind_ok ho
    obtain ⟨hden, hlo, hhi⟩ := parseNumber_ok.mp hn
    exact .port _ n hden hlo hhi
  · exact .address _
  · exact .inputFile _
  · exact .outputFile _
  · obtain ⟨n, hn, _⟩ := bind_ok ho
    obtain ⟨hden, hlo, hhi⟩ := parseNumber_ok.mp hn
    exact .timeout _ n hden hlo hhi
  · exact nomatch ho
  · exact nomatch ho

/-- One option. -/
theorem Records.step (h : Records opts config) (ho : takeOption config o = .ok next) :
    Records (opts ++ [o]) next := by
  obtain ⟨hserver, hclient, haddress, hinput, houtput, hport, htimeout⟩ := h
  unfold takeOption at ho
  split at ho
  · obtain rfl := Except.ok.inj ho
    refine ⟨?_, ?_, ?_, ?_, ?_, hport.keep rfl, htimeout.keep rfl⟩ <;>
      simp [*, lastArgument_snoc, Opt.argument]
  · obtain rfl := Except.ok.inj ho
    refine ⟨?_, ?_, ?_, ?_, ?_, hport.keep rfl, htimeout.keep rfl⟩ <;>
      simp [*, lastArgument_snoc, Opt.argument]
  · obtain ⟨n, hn, ho⟩ := bind_ok ho
    obtain rfl := Except.ok.inj ho
    have hden := (parseNumber_ok.mp hn).1
    refine ⟨?_, ?_, ?_, ?_, ?_, .change hden, htimeout.keep rfl⟩ <;>
      simp [*, lastArgument_snoc, Opt.argument]
  · obtain rfl := Except.ok.inj ho
    refine ⟨?_, ?_, ?_, ?_, ?_, hport.keep rfl, htimeout.keep rfl⟩ <;>
      simp [*, lastArgument_snoc, Opt.argument]
  · obtain rfl := Except.ok.inj ho
    refine ⟨?_, ?_, ?_, ?_, ?_, hport.keep rfl, htimeout.keep rfl⟩ <;>
      simp [*, lastArgument_snoc, Opt.argument]
  · obtain rfl := Except.ok.inj ho
    refine ⟨?_, ?_, ?_, ?_, ?_, hport.keep rfl, htimeout.keep rfl⟩ <;>
      simp [*, lastArgument_snoc, Opt.argument]
  · obtain ⟨n, hn, ho⟩ := bind_ok ho
    obtain rfl := Except.ok.inj ho
    have hden := (parseNumber_ok.mp hn).1
    refine ⟨?_, ?_, ?_, ?_, ?_, hport.keep rfl, .change hden⟩ <;>
      simp [*, lastArgument_snoc, Opt.argument]
  · exact absurd ho (by simp)
  · exact absurd ho (by simp)

theorem ValidOption.takeOption (h : ValidOption o) (config : CommandLine) :
    ∃ next, takeOption config o = .ok next := by
  cases h with
  | server => exact ⟨_, rfl⟩
  | client => exact ⟨_, rfl⟩
  | address s => exact ⟨_, rfl⟩
  | inputFile s => exact ⟨_, rfl⟩
  | outputFile s => exact ⟨_, rfl⟩
  | port s n hden hlo hhi =>
    refine ⟨{ config with port := intOfLong n }, ?_⟩
    rw [ReliableUdp.takeOption, parseNumber_ok.mpr ⟨hden, hlo, hhi⟩]
    rfl
  | timeout s n hden hlo hhi =>
    refine ⟨{ config with timeout := intOfLong n }, ?_⟩
    rw [ReliableUdp.takeOption, parseNumber_ok.mpr ⟨hden, hlo, hhi⟩]
    rfl

/-- Only `-h` ends the program without an error. -/
theorem takeOption_exit_zero (h : takeOption config o = .error 0) : o = .flag 'h' := by
  have hnumber {s : CString} {f : Int → Except Int CommandLine} {g : Int → CommandLine}
      (hf : ∀ n, f n = .ok (g n)) : (parseNumber s >>= f) ≠ .error 0 := by
    intro hbind
    rcases bind_error hbind with hs | ⟨n, _, hn⟩
    · exact absurd (parseNumber_error hs) (by decide)
    · rw [hf] at hn
      exact nomatch hn
  unfold takeOption at h
  split at h
  · exact nomatch h
  · exact nomatch h
  · exact absurd h (hnumber (fun n => rfl))
  · exact nomatch h
  · exact nomatch h
  · exact nomatch h
  · exact absurd h (hnumber (fun n => rfl))
  · rfl
  · exact absurd (Except.error.inj h) (by decide)

theorem takeOptions_snoc (opts : List Opt) (o : Opt) (config : CommandLine) :
    (opts ++ [o]).foldlM takeOption config =
      opts.foldlM takeOption config >>= fun config => takeOption config o := by
  rw [List.foldlM_append]
  simp

/-- The whole loop. -/
theorem takeOptions_ok (h : opts.foldlM takeOption CommandLine.initial = .ok config) :
    (∀ o ∈ opts, ValidOption o) ∧ Records opts config := by
  induction opts using List.reverseRecOn generalizing config with
  | nil =>
    obtain rfl : CommandLine.initial = config := Except.ok.inj h
    refine ⟨by simp, ?_, ?_, rfl, rfl, rfl, .unset rfl rfl, .unset rfl rfl⟩
    · simp [CommandLine.initial]
    · simp [CommandLine.initial]
  | append_singleton opts o ih =>
    rw [takeOptions_snoc] at h
    obtain ⟨before, hbefore, ho⟩ := bind_ok h
    obtain ⟨hall, hrec⟩ := ih hbefore
    refine ⟨?_, hrec.step ho⟩
    intro d hd
    rcases List.mem_append.mp hd with hd | hd
    · exact hall d hd
    · rw [List.mem_singleton.mp hd]
      exact .of_takeOption ho

theorem takeOptions_of_valid (h : ∀ o ∈ opts, ValidOption o) (config : CommandLine) :
    ∃ next, opts.foldlM takeOption config = .ok next := by
  induction opts generalizing config with
  | nil => exact ⟨config, rfl⟩
  | cons o opts ih =>
    obtain ⟨next, hnext⟩ := (h o List.mem_cons_self).takeOption config
    rw [List.foldlM_cons, hnext]
    exact ih (fun d hd => h d (List.mem_cons_of_mem o hd)) next

/-- Help is asked for before anything else ends the program. -/
def AsksHelp (opts : List Opt) : Prop :=
  ∃ pre post, opts = pre ++ .flag 'h' :: post ∧ ∀ o ∈ pre, ValidOption o

theorem takeOptions_exit_zero : opts.foldlM takeOption config = .error 0 ↔ AsksHelp opts := by
  constructor
  · intro h
    induction opts generalizing config with
    | nil => exact nomatch (h : (Except.ok config : Except Int CommandLine) = .error 0)
    | cons o opts ih =>
      rw [List.foldlM_cons] at h
      rcases bind_error h with ho | ⟨next, ho, hrest⟩
      · exact ⟨[], opts, by rw [takeOption_exit_zero ho]; rfl, by simp⟩
      · obtain ⟨pre, post, rfl, hvalid⟩ := ih hrest
        exact ⟨o :: pre, post, rfl, List.forall_mem_cons.mpr ⟨.of_takeOption ho, hvalid⟩⟩
  · intro h
    obtain ⟨pre, post, rfl, hvalid⟩ := h
    obtain ⟨next, hnext⟩ := takeOptions_of_valid hvalid config
    rw [List.foldlM_append, hnext]
    rfl

/-- A configuration that passes the checks. -/
structure Checked (config : CommandLine) : Prop where
  mode : config.isServer ≠ config.isClient
  port : 0 ≤ config.port.toInt ∧ config.port.toInt ≤ 65535
  timeout : 0 < config.timeout.toInt
  client : config.isClient = true → config.address ≠ none ∧ config.outputFile = none
  server : config.isServer = true → config.inputFile = none

theorem port_refused_iff (port : Int32) :
    (port < 0 ∨ port > 65535) ↔ ¬ (0 ≤ port.toInt ∧ port.toInt ≤ 65535) := by
  rw [gt_iff_lt, Int32.lt_iff_toInt_lt, Int32.lt_iff_toInt_lt,
    show (0 : Int32).toInt = 0 from rfl, show (65535 : Int32).toInt = 65535 from rfl]
  omega

theorem timeout_refused_iff (timeout : Int32) : timeout ≤ 0 ↔ ¬ 0 < timeout.toInt := by
  rw [Int32.le_iff_toInt_le, show (0 : Int32).toInt = 0 from rfl]
  omega

theorem checkConfig_ok : checkConfig config = .ok next ↔ next = config ∧ Checked config := by
  simp only [checkConfig, port_refused_iff, timeout_refused_iff]
  constructor
  · intro h
    split_ifs at h with hmode _ hport htimeout haddress houtput hinput
    rw [not_and_not_right] at houtput hinput
    rw [not_and] at haddress
    refine ⟨(Except.ok.inj h).symm, hmode, hport, htimeout, ?_, hinput⟩
    intro hc
    exact ⟨haddress hc, houtput hc⟩
  · intro h
    obtain ⟨rfl, hmode, hport, htimeout, hclient, hserver⟩ := h
    have hunset : next.port ≠ -1 := by
      intro hp
      rw [hp] at hport
      exact absurd hport.1 (by decide)
    rw [if_neg hmode, if_neg hunset, if_neg (not_not.mpr hport), if_neg (not_not.mpr htimeout),
      if_neg (fun hc => (hclient hc.1).1 hc.2), if_neg (fun hc => hc.2 (hclient hc.1).2),
      if_neg (fun hc => hc.2 (hserver hc.1))]

theorem checkConfig_exit_zero : checkConfig config ≠ .error 0 := by
  rw [checkConfig]
  split_ifs <;> simp [exUsage, exDataErr]

theorem Typed.last (h : lastArgument c opts = none) {n : Int} : ¬ Typed opts c n := by
  intro ht
  obtain ⟨s, hs, _⟩ := ht
  rw [h] at hs
  exact nomatch hs

end Options

/-- What `parse_arguments` asks of the options, of both numbers in the form the `int` fields have
them. -/
structure Passes (opts : List Opt) : Prop where
  valid : ∀ o ∈ opts, ValidOption o
  mode : .flag 's' ∈ opts ↔ .flag 'c' ∉ opts
  port : ∃ n, Typed opts 'p' n ∧ 0 ≤ (intOfLong n).toInt ∧ (intOfLong n).toInt ≤ 65535
  timeout : ∀ n, Typed opts 'w' n → 0 < (intOfLong n).toInt
  client : .flag 'c' ∈ opts → lastArgument 'a' opts ≠ none ∧ lastArgument 'o' opts = none
  server : .flag 's' ∈ opts → lastArgument 'i' opts = none

/-- What `parse_arguments` asks of the options, their numbers apart. -/
structure Usage (opts : List Opt) : Prop where
  valid : ∀ o ∈ opts, ValidOption o
  mode : .flag 's' ∈ opts ↔ .flag 'c' ∉ opts
  client : .flag 'c' ∈ opts → lastArgument 'a' opts ≠ none ∧ lastArgument 'o' opts = none
  server : .flag 's' ∈ opts → lastArgument 'i' opts = none

/-- The last numbers differ from ones in range by a multiple of `2 ^ 32`. -/
structure WrapsIntoRange (opts : List Opt) : Prop where
  port : ∃ n k, Typed opts 'p' n ∧ 0 ≤ n + 2 ^ 32 * k ∧ n + 2 ^ 32 * k ≤ 65535
  timeout : ∀ n, Typed opts 'w' n → ∃ k, 0 < n + 2 ^ 32 * k ∧ n + 2 ^ 32 * k < 2 ^ 31

/-- One of the strings given to `-p` or `-w` denotes a number that the option does not allow. -/
def OutOfRange (opts : List Opt) : Prop :=
  (∃ s n, .value 'p' s ∈ opts ∧ Denotes s n ∧ ¬ (0 ≤ n ∧ n ≤ 65535)) ∨
  ∃ s n, .value 'w' s ∈ opts ∧ Denotes s n ∧ ¬ 0 < n

/-- The ways around the range checks: help asked for next to a bad number, and a vector in order
whose last numbers wrap around into their ranges or hide a bad number given before. -/
inductive Evades (opts : List Opt) : Prop where
  | help (asked : AsksHelp opts) (bad : OutOfRange opts)
  | accepted (usage : Usage opts) (wraps : WrapsIntoRange opts)
      (bad : OutOfRange opts ∨ ∃ n, Typed opts 'w' n ∧ 2 ^ 31 ≤ n)

section Checks

variable {opts : List Opt} {config : CommandLine}

theorem Records.mode_iff (h : Records opts config) :
    config.isServer ≠ config.isClient ↔ (.flag 's' ∈ opts ↔ .flag 'c' ∉ opts) := by
  rw [← h.isServer, ← h.isClient]
  cases config.isServer <;> cases config.isClient <;> decide

theorem Records.port_iff (h : Records opts config) :
    (0 ≤ config.port.toInt ∧ config.port.toInt ≤ 65535) ↔
      ∃ n, Typed opts 'p' n ∧ 0 ≤ (intOfLong n).toInt ∧ (intOfLong n).toInt ≤ 65535 := by
  cases h.port with
  | unset hnone hv =>
    rw [hv]
    constructor
    · intro hp
      exact absurd hp.1 (by decide)
    · intro hn
      obtain ⟨n, ht, _⟩ := hn
      exact absurd ht (Typed.last hnone)
  | set n ht hv =>
    rw [hv]
    constructor
    · intro hp
      exact ⟨n, ht, hp⟩
    · intro hn
      obtain ⟨m, hm, hp⟩ := hn
      rw [ht.unique hm]
      exact hp

theorem Records.timeout_iff (h : Records opts config) :
    0 < config.timeout.toInt ↔ ∀ n, Typed opts 'w' n → 0 < (intOfLong n).toInt := by
  cases h.timeout with
  | unset hnone hv =>
    rw [hv]
    constructor
    · intro _ n ht
      exact absurd ht (Typed.last hnone)
    · intro _
      decide
  | set n ht hv =>
    rw [hv]
    constructor
    · intro hp m hm
      rw [← ht.unique hm]
      exact hp
    · intro hall
      exact hall n ht

theorem toInt_intOfLong {n : Int} (h : -2 ^ 31 ≤ n ∧ n < 2 ^ 31) : (intOfLong n).toInt = n :=
  Int32.toInt_ofInt_of_le h.1 h.2

/-- The conversion to `int` reduces modulo `2 ^ 32`. -/
theorem intOfLong_between (lo hi : Int) (hlo : -2 ^ 31 ≤ lo) (hhi : hi < 2 ^ 31) (n : Int) :
    (lo ≤ (intOfLong n).toInt ∧ (intOfLong n).toInt ≤ hi) ↔
      ∃ k, lo ≤ n + 2 ^ 32 * k ∧ n + 2 ^ 32 * k ≤ hi := by
  have hvalue : (intOfLong n).toInt = n.bmod (2 ^ 32) := Int32.toInt_ofInt
  have hsplit := Int.bmod_add_bdiv n (2 ^ 32)
  have hlower : -(2 ^ 31 : Int) ≤ n.bmod (2 ^ 32) := Int.le_bmod (by decide)
  have hupper : n.bmod (2 ^ 32) < (2 ^ 31 : Int) := Int.bmod_lt (by decide)
  rw [hvalue]
  generalize n.bmod (2 ^ 32) = m at *
  generalize n.bdiv (2 ^ 32) = q at *
  constructor
  · intro h
    exact ⟨-q, by omega, by omega⟩
  · intro h
    obtain ⟨k, hk⟩ := h
    have hq : q = -k := by omega
    omega

/-- The checks of the numbers see what is left of them modulo `2 ^ 32`. -/
theorem passes_iff : Passes opts ↔ Usage opts ∧ WrapsIntoRange opts := by
  have hport (n : Int) : (0 ≤ (intOfLong n).toInt ∧ (intOfLong n).toInt ≤ 65535) ↔
      ∃ k, 0 ≤ n + 2 ^ 32 * k ∧ n + 2 ^ 32 * k ≤ 65535 :=
    intOfLong_between 0 65535 (by decide) (by decide) n
  have htimeout (n : Int) : 0 < (intOfLong n).toInt ↔
      ∃ k, 0 < n + 2 ^ 32 * k ∧ n + 2 ^ 32 * k < 2 ^ 31 := by
    have hbetween := intOfLong_between 1 (2 ^ 31 - 1) (by decide) (by decide) n
    have hlt : (intOfLong n).toInt < 2 ^ 31 := (intOfLong n).toInt_lt
    constructor
    · intro h
      obtain ⟨k, hk⟩ := hbetween.mp ⟨by omega, by omega⟩
      exact ⟨k, by omega, by omega⟩
    · intro h
      obtain ⟨k, hk⟩ := h
      have hrange := hbetween.mpr ⟨k, by omega, by omega⟩
      omega
  constructor
  · intro h
    obtain ⟨n, ht, hn⟩ := h.port
    obtain ⟨k, hk⟩ := (hport n).mp hn
    exact ⟨⟨h.valid, h.mode, h.client, h.server⟩, ⟨n, k, ht, hk⟩,
      fun m hm => (htimeout m).mp (h.timeout m hm)⟩
  · intro h
    obtain ⟨husage, hwraps⟩ := h
    obtain ⟨n, k, ht, hk⟩ := hwraps.port
    exact ⟨husage.valid, husage.mode, ⟨n, ht, (hport n).mpr ⟨k, hk⟩⟩,
      fun m hm => (htimeout m).mpr (hwraps.timeout m hm), husage.client, husage.server⟩

theorem Typed.allowed {n : Int} (h : ¬ OutOfRange opts) :
    (Typed opts 'p' n → 0 ≤ n ∧ n ≤ 65535) ∧ (Typed opts 'w' n → 0 < n) := by
  constructor
  · intro ht
    obtain ⟨s, hs, hden⟩ := ht
    by_contra hbad
    exact h (Or.inl ⟨s, n, mem_of_lastArgument hs, hden, hbad⟩)
  · intro ht
    obtain ⟨s, hs, hden⟩ := ht
    by_contra hbad
    exact h (Or.inr ⟨s, n, mem_of_lastArgument hs, hden, hbad⟩)

/-- A number that fits is stored as it is. -/
theorem Holds.exact {c : Char} {default value : Int32} (h : Holds opts c default value) {n : Int}
    (ht : Typed opts c n) (hfits : -2 ^ 31 ≤ n ∧ n < 2 ^ 31) : value.toInt = n := by
  cases h with
  | unset hnone _ => exact absurd ht (Typed.last hnone)
  | set m hm hv => rw [hv, hm.unique ht, toInt_intOfLong hfits]

theorem Records.checked_iff (h : Records opts config) (hall : ∀ o ∈ opts, ValidOption o) :
    Checked config ↔ Passes opts := by
  constructor
  · intro hc
    refine ⟨hall, h.mode_iff.mp hc.mode, h.port_iff.mp hc.port, h.timeout_iff.mp hc.timeout, ?_, ?_⟩
    · intro hm
      obtain ⟨haddress, houtput⟩ := hc.client (h.isClient.mpr hm)
      rw [h.address] at haddress
      rw [h.outputFile] at houtput
      exact ⟨fun hnone => haddress (by rw [hnone]; rfl), Option.map_eq_none_iff.mp houtput⟩
    · intro hm
      have hinput := hc.server (h.isServer.mpr hm)
      rw [h.inputFile] at hinput
      exact Option.map_eq_none_iff.mp hinput
  · intro hp
    refine ⟨h.mode_iff.mpr hp.mode, h.port_iff.mpr hp.port, h.timeout_iff.mpr hp.timeout, ?_, ?_⟩
    · intro hm
      obtain ⟨haddress, houtput⟩ := hp.client (h.isClient.mp hm)
      rw [h.address, h.outputFile]
      exact ⟨fun hnone => haddress (Option.map_eq_none_iff.mp hnone), by rw [houtput]; rfl⟩
    · intro hm
      rw [h.inputFile, hp.server (h.isServer.mp hm)]
      rfl

end Checks

section Arguments

variable {argv : List CString} {config : CommandLine}

theorem parseArguments_ok (h : parseArguments argv = .ok config) :
    Passes (options argv) ∧ Records (options argv) config := by
  obtain ⟨before, hloop, hcheck⟩ := bind_ok h
  obtain ⟨hall, hrec⟩ := takeOptions_ok hloop
  obtain ⟨rfl, hchecked⟩ := checkConfig_ok.mp hcheck
  exact ⟨(hrec.checked_iff hall).mp hchecked, hrec⟩

theorem parseArguments_checked (h : parseArguments argv = .ok config) : Checked config := by
  obtain ⟨before, _, hcheck⟩ := bind_ok h
  obtain ⟨rfl, hchecked⟩ := checkConfig_ok.mp hcheck
  exact hchecked

/-- The argument vectors that are accepted. -/
theorem parseArguments_ok_iff :
    (∃ config, parseArguments argv = .ok config) ↔ Passes (options argv) := by
  constructor
  · intro h
    obtain ⟨config, hok⟩ := h
    exact (parseArguments_ok hok).1
  · intro hp
    obtain ⟨config, hloop⟩ := takeOptions_of_valid hp.valid CommandLine.initial
    have hchecked := ((takeOptions_ok hloop).2.checked_iff hp.valid).mpr hp
    refine ⟨config, ?_⟩
    rw [parseArguments, hloop]
    exact checkConfig_ok.mpr ⟨rfl, hchecked⟩

theorem parseArguments_asksHelp_iff : parseArguments argv = .error 0 ↔ AsksHelp (options argv) := by
  constructor
  · intro h
    rcases bind_error h with hloop | ⟨config, _, hcheck⟩
    · exact takeOptions_exit_zero.mp hloop
    · exact absurd hcheck checkConfig_exit_zero
  · intro h
    rw [parseArguments, takeOptions_exit_zero.mpr h]
    rfl

theorem parseArguments_exit_zero (h : parseArguments argv = .error 0) :
    .flag 'h' ∈ options argv := by
  obtain ⟨pre, post, hopts, _⟩ := parseArguments_asksHelp_iff.mp h
  rw [hopts]
  exact List.mem_append_right pre List.mem_cons_self

/-- The numbers of a configuration are the ones typed, and the program ends with a non-zero code
when one of the strings given to `-p` and `-w` is out of range. -/
structure MeansTyped (argv : List CString) : Prop where
  port : ∀ config, parseArguments argv = .ok config →
    ∃ n, Typed (options argv) 'p' n ∧ 0 ≤ n ∧ n ≤ 65535 ∧ config.port.toInt = n
  timeout : ∀ config, parseArguments argv = .ok config →
    ∀ s, lastArgument 'w' (options argv) = some s →
      ∃ n, Denotes s n ∧ 0 < n ∧ config.timeout.toInt = n
  refused : OutOfRange (options argv) → ∃ code, parseArguments argv = .error code ∧ code ≠ 0

/-- A vector that is evasive does not mean what was typed. -/
theorem MeansTyped.not_evades (h : MeansTyped argv) : ¬ Evades (options argv) := by
  intro hev
  cases hev with
  | help asked bad =>
    obtain ⟨code, hcode, hne⟩ := h.refused bad
    exact hne (Except.error.inj (hcode.symm.trans (parseArguments_asksHelp_iff.mpr asked)))
  | accepted usage wraps bad =>
    obtain ⟨config, hok⟩ := parseArguments_ok_iff.mpr (passes_iff.mpr ⟨usage, wraps⟩)
    rcases bad with bad | ⟨n, ⟨s, hs, hden⟩, hn⟩
    · obtain ⟨code, hcode, _⟩ := h.refused bad
      exact nomatch (hcode.symm.trans hok)
    · obtain ⟨m, hm, _, hvalue⟩ := h.timeout config hok s hs
      have hlt := config.timeout.toInt_lt
      rw [hvalue, hm.unique hden] at hlt
      exact absurd hn (not_le.mpr hlt)

/-- The options mean what was typed, and bad numbers are refused, exactly if the vector does not
evade the range checks. -/
theorem typed_numbers_iff (argv : List CString) :
    MeansTyped argv ↔ ¬ Evades (options argv) := by
  refine ⟨fun h => h.not_evades, fun hno => ⟨?_, ?_, ?_⟩⟩
  · intro config hok
    obtain ⟨hp, hrec⟩ := parseArguments_ok hok
    obtain ⟨husage, hwraps⟩ := passes_iff.mp hp
    have hgood : ¬ OutOfRange (options argv) :=
      fun hbad => hno (.accepted husage hwraps (Or.inl hbad))
    obtain ⟨n, ht, _⟩ := hp.port
    obtain ⟨hlo, hhi⟩ := (Typed.allowed hgood).1 ht
    exact ⟨n, ht, hlo, hhi, hrec.port.exact ht ⟨by omega, by omega⟩⟩
  · intro config hok s hs
    obtain ⟨hp, hrec⟩ := parseArguments_ok hok
    obtain ⟨husage, hwraps⟩ := passes_iff.mp hp
    cases hrec.timeout with
    | unset hnone _ => exact absurd (hs.symm.trans hnone) (by simp)
    | set n ht hv =>
      have hpos : 0 < n := (Typed.allowed
        (fun hbad => hno (.accepted husage hwraps (Or.inl hbad)))).2 ht
      have hlt : n < 2 ^ 31 := by
        by_contra hbig
        exact hno (.accepted husage hwraps (Or.inr ⟨n, ht, not_lt.mp hbig⟩))
      have hvalue := hrec.timeout.exact ht ⟨by omega, hlt⟩
      obtain ⟨s', hs', hden⟩ := ht
      obtain rfl := Option.some.inj (hs.symm.trans hs')
      exact ⟨n, hden, hpos, hvalue⟩
  · intro hbad
    cases hparse : parseArguments argv with
    | error code =>
      refine ⟨code, rfl, ?_⟩
      intro hzero
      rw [hzero] at hparse
      exact hno (.help (parseArguments_asksHelp_iff.mp hparse) hbad)
    | ok config =>
      obtain ⟨husage, hwraps⟩ := passes_iff.mp (parseArguments_ok hparse).1
      exact absurd (Evades.accepted husage hwraps (Or.inl hbad)) hno

end Arguments

/-- The port 4294967297 is accepted as 1. -/
theorem port_wraps_around : ¬ ∀ argv, MeansTyped argv := by
  intro hall
  obtain ⟨n, ht, _, hhi, _⟩ :=
    (hall ["ipk-rdt".toList, "-s".toList, "-p".toList, "4294967297".toList]).port _ rfl
  have hden : Denotes "4294967297".toList 4294967297 := (parseNumber_ok.mp rfl).1
  rw [ht.unique ⟨_, rfl, hden⟩] at hhi
  exact absurd hhi (by decide)

end ReliableUdp
