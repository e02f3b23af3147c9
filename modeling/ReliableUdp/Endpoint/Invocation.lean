import ReliableUdp.Endpoint.Program

namespace ReliableUdp

open Getopt Numeral

/-- `%d` and `strtol` agree. -/
theorem denotes_formatInt (n : Int) : Denotes (formatInt n) n := by
  rw [formatInt]
  split_ifs with hneg
  · have hminus := denotes_toDigits .minus n.natAbs
    have hn : Sign.minus.apply n.natAbs = n := by
      rw [Sign.apply]
      omega
    rw [hn] at hminus
    exact hminus
  · have hnone := denotes_toDigits .none n.natAbs
    have hn : Sign.none.apply n.natAbs = n := by
      simp only [Sign.apply]
      omega
    rw [hn] at hnone
    exact hnone

/-- The options ask for the configuration: of each kind the last one counts, and `-w` may be left
out for the default. -/
structure Asks (opts : List Opt) (config : CommandLine) : Prop where
  valid : ∀ o ∈ opts, ValidOption o
  isServer : .flag 's' ∈ opts ↔ config.isServer = true
  isClient : .flag 'c' ∈ opts ↔ config.isClient = true
  address : (lastArgument 'a' opts).map String.ofList = config.address
  inputFile : (lastArgument 'i' opts).map String.ofList = config.inputFile
  outputFile : (lastArgument 'o' opts).map String.ofList = config.outputFile
  port : Typed opts 'p' config.port.toInt
  timeout : lastArgument 'w' opts = none ∧ config.timeout = 1 ∨
    Typed opts 'w' config.timeout.toInt

/-- One option for each setting. -/
def CommandLine.asked (config : CommandLine) : List Opt :=
  (if config.isServer then [Opt.flag 's'] else []) ++
    (if config.isClient then [Opt.flag 'c'] else []) ++
    [Opt.value 'p' (formatInt config.port.toInt), Opt.value 'w' (formatInt config.timeout.toInt)] ++
    (config.address.toList.map (fun s => Opt.value 'a' s.toList) ++
      (config.inputFile.toList.map (fun s => Opt.value 'i' s.toList) ++
        config.outputFile.toList.map (fun s => Opt.value 'o' s.toList)))

/-- Only one option of a kind is given, so that its place does not matter. -/
theorem lastArgument_perm {opts opts' : List Opt} {c : Char} (h : opts.Perm opts')
    {arg : Option (List Char)} (honly : opts'.filterMap (Opt.argument c) = arg.toList) :
    lastArgument c opts = arg := by
  have hperm := h.filterMap (Opt.argument c)
  rw [honly] at hperm
  cases arg with
  | none =>
    rw [lastArgument, List.perm_nil.mp hperm]
    rfl
  | some s =>
    rw [lastArgument, List.perm_singleton.mp hperm]
    rfl

section Asked

variable {config : CommandLine} {opts : List Opt}

theorem argument_flag (b : Bool) (d c : Char) :
    (if b = true then [Opt.flag d] else []).filterMap (Opt.argument c) = [] := by
  cases b <;> rfl

theorem argument_value (s : Option String) (d c : Char) :
    (s.toList.map (fun s => Opt.value d s.toList)).filterMap (Opt.argument c) =
      if d = c then (s.map String.toList).toList else [] := by
  cases s with
  | none => simp
  | some s =>
    simp only [Option.toList_some, List.map_cons, List.map_nil, List.filterMap_cons, Opt.argument,
      Option.map_some, List.filterMap_nil]
    split_ifs <;> rfl

/-- The argument that the configuration asks for the option `c`. -/
def CommandLine.argumentOf (config : CommandLine) (c : Char) : Option CString :=
  if c = 'p' then some (formatInt config.port.toInt)
  else if c = 'w' then some (formatInt config.timeout.toInt)
  else if c = 'a' then config.address.map String.toList
  else if c = 'i' then config.inputFile.map String.toList
  else if c = 'o' then config.outputFile.map String.toList
  else none

theorem asked_argument (c : Char) :
    config.asked.filterMap (Opt.argument c) = (config.argumentOf c).toList := by
  simp only [CommandLine.asked, List.filterMap_append, argument_flag, argument_value,
    List.nil_append, List.filterMap_cons, List.filterMap_nil, Opt.argument]
  rw [CommandLine.argumentOf]
  by_cases hp : c = 'p'
  · subst hp
    rfl
  by_cases hw : c = 'w'
  · subst hw
    rfl
  by_cases ha : c = 'a'
  · subst ha
    simp
  by_cases hi : c = 'i'
  · subst hi
    simp
  by_cases ho : c = 'o'
  · subst ho
    simp
  simp [hp, hw, ha, hi, ho, Ne.symm hp, Ne.symm hw, Ne.symm ha, Ne.symm hi, Ne.symm ho]

theorem asked_flag (c : Char) : .flag c ∈ config.asked ↔
    c = 's' ∧ config.isServer = true ∨ c = 'c' ∧ config.isClient = true := by
  cases hs : config.isServer <;> cases hc : config.isClient <;>
    simp [CommandLine.asked, hs, hc]

theorem formatInt_valid (n : Int32) : ∃ m, Denotes (formatInt n.toInt) m ∧ longMin ≤ m ∧
    m ≤ longMax := by
  have hlo := n.le_toInt
  have hhi := n.toInt_lt
  refine ⟨n.toInt, denotes_formatInt _, ?_, ?_⟩
  · rw [longMin]
    omega
  · rw [longMax]
    omega

theorem asked_valid (o : Opt) (h : o ∈ config.asked) : ValidOption o := by
  obtain ⟨port, hport, hplo, hphi⟩ := formatInt_valid config.port
  obtain ⟨timeout, htimeout, hwlo, hwhi⟩ := formatInt_valid config.timeout
  simp only [CommandLine.asked, List.mem_append, List.mem_cons, List.not_mem_nil, or_false,
    List.mem_map, List.mem_ite_nil_right] at h
  rcases h with ((⟨_, rfl⟩ | ⟨_, rfl⟩) | rfl | rfl) | ⟨s, _, rfl⟩ | ⟨s, _, rfl⟩ | ⟨s, _, rfl⟩
  · exact .server
  · exact .client
  · exact .port _ port hport hplo hphi
  · exact .timeout _ timeout htimeout hwlo hwhi
  · exact .address _
  · exact .inputFile _
  · exact .outputFile _

theorem Holds.typed {c : Char} {default value n : Int32} (h : Holds opts c default value)
    (hn : Typed opts c n.toInt) : value = n := by
  cases h with
  | unset hnone _ =>
    obtain ⟨s, hs, _⟩ := hn
    exact absurd (hnone.symm.trans hs) (by simp)
  | set m ht hv =>
    rw [hv, ht.unique hn]
    exact Int32.ofInt_toInt n

theorem Holds.left_out {c : Char} {default value : Int32} (h : Holds opts c default value)
    (hnone : lastArgument c opts = none) : value = default := by
  cases h with
  | unset _ hv => exact hv
  | set m ht _ =>
    obtain ⟨s, hs, _⟩ := ht
    exact absurd (hnone.symm.trans hs) (by simp)

theorem map_ofList_toList (s : Option String) : (s.map String.toList).map String.ofList = s := by
  cases s with
  | none => rfl
  | some s => exact congrArg some String.ofList_toList

/-- In any order the options ask for the configuration. -/
theorem asks_of_perm (hperm : opts.Perm config.asked) : Asks opts config := by
  have harg (c : Char) : lastArgument c opts = config.argumentOf c :=
    lastArgument_perm hperm (asked_argument c)
  refine ⟨fun o ho => asked_valid o (hperm.mem_iff.mp ho), ?_, ?_, ?_, ?_, ?_,
    ⟨_, harg 'p', denotes_formatInt _⟩, Or.inr ⟨_, harg 'w', denotes_formatInt _⟩⟩
  · rw [hperm.mem_iff, asked_flag]
    simp
  · rw [hperm.mem_iff, asked_flag]
    simp
  · rw [harg]
    exact map_ofList_toList config.address
  · rw [harg]
    exact map_ofList_toList config.inputFile
  · rw [harg]
    exact map_ofList_toList config.outputFile

/-- Whatever records the options is the configuration that they ask for. -/
theorem Records.of_asks {before : CommandLine} (h : Records opts before)
    (ha : Asks opts config) : before = config := by
  have hserver : before.isServer = config.isServer := by
    rw [Bool.eq_iff_iff, h.isServer, ha.isServer]
  have hclient : before.isClient = config.isClient := by
    rw [Bool.eq_iff_iff, h.isClient, ha.isClient]
  have haddress : before.address = config.address := h.address.trans ha.address
  have hinput : before.inputFile = config.inputFile := h.inputFile.trans ha.inputFile
  have houtput : before.outputFile = config.outputFile := h.outputFile.trans ha.outputFile
  have hport : before.port = config.port := h.port.typed ha.port
  have htimeout : before.timeout = config.timeout := by
    rcases ha.timeout with ⟨hnone, hdefault⟩ | htyped
    · exact (h.timeout.left_out hnone).trans hdefault.symm
    · exact h.timeout.typed htyped
  obtain ⟨⟨_, _, _⟩, _, _, _, _⟩ := before
  obtain ⟨⟨_, _, _⟩, _, _, _, _⟩ := config
  simp only at *
  subst hserver hclient haddress hinput houtput hport htimeout
  rfl

end Asked

/-- Every configuration that the program runs with can be asked for on the command line, with its
options in any order. Whatever asks for it, flags and arguments written in any of the ways that
`getopt_long` knows and other arguments between or behind them, `parse_arguments` makes that
configuration of it. -/
theorem parseArguments_spelled (config : CommandLine) (h : Checked config) :
    (∀ opts : List Opt, opts.Perm config.asked → Asks opts config) ∧
    ∀ (opts : List Opt) (name : CString) (args : List CString), Asks opts config →
      Spelled "scp:a:i:o:w:h".toList opts args → parseArguments (name :: args) = .ok config := by
  refine ⟨fun opts hperm => asks_of_perm hperm, ?_⟩
  intro opts name args ha hargs
  have hopts : options (name :: args) = opts := scan_spelled hargs
  obtain ⟨before, hloop⟩ := takeOptions_of_valid ha.valid CommandLine.initial
  have hrec := (takeOptions_ok hloop).2
  rw [parseArguments, hopts, hloop, hrec.of_asks ha]
  exact checkConfig_ok.mpr ⟨rfl, h⟩

/-- A server on port 7 with all defaults. -/
def echoServer : CommandLine := ⟨⟨1, none, none⟩, true, false, none, 7⟩

/-- `rdt log -sp 70 -p7 -- -c` -/
theorem parseArguments_spelled_repeated :
    parseArguments ["rdt".toList, "log".toList, "-sp".toList, "70".toList, "-p7".toList,
      "--".toList, "-c".toList] = .ok echoServer := by
  have hseventy : Denotes ['7', '0'] 70 := denotes_toDigits .none 70
  have hseven : Denotes ['7'] 7 := denotes_toDigits .none 7
  refine (parseArguments_spelled echoServer
    ⟨by decide, by decide, by decide, by decide, fun _ => rfl⟩).2
    [.flag 's', .value 'p' ['7', '0'], .value 'p' ['7']] _ _ ?_ ?_
  · refine ⟨?_, by decide, by decide, rfl, rfl, rfl, ⟨_, rfl, hseven⟩, Or.inl ⟨rfl, rfl⟩⟩
    intro o ho
    simp only [List.mem_cons, List.not_mem_nil, or_false] at ho
    rcases ho with rfl | rfl | rfl
    · exact .server
    · exact .port _ 70 hseventy (by decide) (by decide)
    · exact .port _ 7 hseven (by decide) (by decide)
  · exact .operand _ (Or.inl (by decide)) (.bundle 's' 'p' [] rfl (by decide) (by decide)
      (.separate 'p' ['7', '0'] rfl (by decide) (.joined 'p' ['7'] rfl (by decide) (by decide)
        (.ended _))))

/-- The service that `getaddrinfo` is asked for is the port typed, in full: the buffer of
`MAX_PORT_LENGTH_IN_SIGNS` never cuts it off. -/
theorem service_is_port (argv : List CString) (config : CommandLine) (n : Int)
    (h : parseArguments argv = .ok config) (ht : Typed (options argv) 'p' n)
    (hn : -2 ^ 31 ≤ n ∧ n < 2 ^ 31) :
    0 ≤ n ∧ n ≤ 65535 ∧ portStr config = Nat.toDigits 10 n.toNat := by
  have hvalue : config.port.toInt = n := (parseArguments_ok h).2.port.exact ht hn
  obtain ⟨hlo, hhi⟩ := (parseArguments_checked h).port
  rw [hvalue] at hlo hhi
  have hlength : (Nat.toDigits 10 n.natAbs).length ≤ maxPortLengthInSigns - 1 :=
    (Nat.length_toDigits_le_iff (by decide) (by decide)).mpr
      (lt_of_le_of_lt (show n.natAbs ≤ 65535 by omega) (by decide))
  refine ⟨hlo, hhi, ?_⟩
  rw [portStr, hvalue, formatInt, if_neg (by omega), List.take_of_length_le hlength]
  congr
  omega

end ReliableUdp
