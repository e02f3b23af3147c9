import Mathlib.Tactic

namespace Getopt

/-- What one call of `getopt_long` reports: an option, an option with its argument, or `'?'`. -/
inductive Opt where
  | flag (c : Char)
  | value (c : Char) (optarg : List Char)
  | invalid
  deriving DecidableEq

/-- Whether an option takes an argument, `none` for a character that is no option. In `optstring` a
colon stands behind each option with an argument. -/
def takesArgument : List Char → Char → Option Bool
  | [], _ => none
  | d :: rest, c =>
    if c = d ∧ c ≠ ':' then some (decide (rest.head? = some ':')) else takesArgument rest c

/-- The options in one element of the argument vector behind its dash, with the one that waits for
its argument in the next element. -/
def cluster (optstring : List Char) : List Char → List Opt × Option Char
  | [] => ([], none)
  | c :: rest =>
    match takesArgument optstring c with
    | some true => if rest = [] then ([], some c) else ([.value c rest], none)
    | some false => (.flag c :: (cluster optstring rest).1, (cluster optstring rest).2)
    | none => (.invalid :: (cluster optstring rest).1, (cluster optstring rest).2)

/-- A long option, written in full or as an abbreviation of a single one; `longs` lists those
without an argument, with the character they stand for. -/
def longOption (longs : List (List Char × Char)) (element : List Char) : Opt :=
  let name := element.takeWhile (fun c => c ≠ '=')
  let found := match longs.find? (fun (l : List Char × Char) => l.1 = name) with
    | some l => some l
    | none => match longs.filter (fun (l : List Char × Char) => name.isPrefixOf l.1) with
      | [l] => some l
      | _ => none
  match found with
  | some l => if name = element then .flag l.2 else .invalid
  | none => .invalid

def element (optstring : List Char) (longs : List (List Char × Char)) :
    List Char → List Opt × Option Char
  | '-' :: '-' :: name => ([longOption longs name], none)
  | '-' :: c :: rest => cluster optstring (c :: rest)
  | _ => ([], none)

/-- All that `getopt_long` reports of the elements, `pending` waiting for its argument. As GNU
systems do it, options may follow other arguments, and `--` ends them. -/
def scan (optstring : List Char) (longs : List (List Char × Char)) :
    Option Char → List (List Char) → List Opt
  | none, [] => []
  | some _, [] => [.invalid]
  | some c, arg :: rest => .value c arg :: scan optstring longs none rest
  | none, arg :: rest =>
    if arg = ['-', '-'] then []
    else (element optstring longs arg).1 ++
      scan optstring longs (element optstring longs arg).2 rest

/-- All that the calls of `getopt_long` report, up to the one that gives back -1. -/
def getoptLong (optstring : List Char) (longs : List (List Char × Char))
    (argv : List (List Char)) : List Opt :=
  scan optstring longs none argv.tail

/-- The argument of `o` if it is the option `c`. -/
def Opt.argument (c : Char) : Opt → Option (List Char)
  | .value d optarg => if d = c then some optarg else none
  | _ => none

/-- The argument given last to the option `c`. -/
def lastArgument (c : Char) (opts : List Opt) : Option (List Char) :=
  (opts.filterMap (Opt.argument c)).getLast?

theorem lastArgument_snoc (c : Char) (opts : List Opt) (o : Opt) :
    lastArgument c (opts ++ [o]) = (o.argument c).or (lastArgument c opts) := by
  rw [lastArgument, List.filterMap_append]
  cases h : o.argument c with
  | none => simp [h, lastArgument]
  | some optarg => simp [h]

theorem mem_of_lastArgument {c : Char} {opts : List Opt} {s : List Char}
    (h : lastArgument c opts = some s) : .value c s ∈ opts := by
  obtain ⟨o, ho, harg⟩ := List.mem_filterMap.mp (List.mem_of_getLast? h)
  cases o with
  | value d optarg =>
    rw [Opt.argument] at harg
    split_ifs at harg with hd
    rw [hd, Option.some.inj harg] at ho
    exact ho
  | _ => exact nomatch harg

/-- All ways to write options down: flags on their own or in front of others behind one dash,
arguments in the same element or in the next one, other arguments anywhere between them and, behind
`--`, whatever there is. -/
inductive Spelled (optstring : List Char) : List Opt → List (List Char) → Prop where
  | nil : Spelled optstring [] []
  | ended (args : List (List Char)) : Spelled optstring [] (['-', '-'] :: args)
  | operand {opts : List Opt} {args : List (List Char)} (arg : List Char)
      (h : arg.head? ≠ some '-' ∨ arg = ['-']) (hs : Spelled optstring opts args) :
      Spelled optstring opts (arg :: args)
  | flag {opts : List Opt} {args : List (List Char)} (c : Char)
      (h : takesArgument optstring c = some false) (hc : c ≠ '-')
      (hs : Spelled optstring opts args) :
      Spelled optstring (.flag c :: opts) (['-', c] :: args)
  | bundle {opts : List Opt} {args : List (List Char)} (c d : Char) (rest : List Char)
      (h : takesArgument optstring c = some false) (hc : c ≠ '-') (hd : d ≠ '-')
      (hs : Spelled optstring opts (('-' :: d :: rest) :: args)) :
      Spelled optstring (.flag c :: opts) (('-' :: c :: d :: rest) :: args)
  | joined {opts : List Opt} {args : List (List Char)} (c : Char) (arg : List Char)
      (h : takesArgument optstring c = some true) (hc : c ≠ '-') (harg : arg ≠ [])
      (hs : Spelled optstring opts args) :
      Spelled optstring (.value c arg :: opts) (('-' :: c :: arg) :: args)
  | separate {opts : List Opt} {args : List (List Char)} (c : Char) (arg : List Char)
      (h : takesArgument optstring c = some true) (hc : c ≠ '-')
      (hs : Spelled optstring opts args) :
      Spelled optstring (.value c arg :: opts) (['-', c] :: arg :: args)

variable {optstring : List Char} {longs : List (List Char × Char)}

theorem scan_operand {arg : List Char} (h : arg.head? ≠ some '-' ∨ arg = ['-'])
    (args : List (List Char)) :
    scan optstring longs none (arg :: args) = scan optstring longs none args := by
  have helement : element optstring longs arg = ([], none) := by
    rcases h with h | rfl
    · cases arg with
      | nil => rfl
      | cons c rest =>
        have hc : c ≠ '-' := fun hcon => h (congrArg some hcon)
        rw [element.eq_def]
        split
        next heq => exact absurd (List.cons.inj heq).1 hc
        next heq => exact absurd (List.cons.inj heq).1 hc
        next => rfl
    · rfl
  have hdashes : arg ≠ ['-', '-'] := by
    rcases h with h | rfl
    · intro hcon
      rw [hcon] at h
      exact h rfl
    · decide
  rw [scan, if_neg hdashes, helement]
  rfl

theorem scan_dashed {c : Char} (hc : c ≠ '-') (rest : List Char) (args : List (List Char)) :
    scan optstring longs none (('-' :: c :: rest) :: args) =
      (cluster optstring (c :: rest)).1 ++
        scan optstring longs (cluster optstring (c :: rest)).2 args := by
  have hdashes : '-' :: c :: rest ≠ ['-', '-'] :=
    fun hcon => hc (List.cons.inj (List.cons.inj hcon).2).1
  have helement : element optstring longs ('-' :: c :: rest) = cluster optstring (c :: rest) := by
    rw [element.eq_def]
    split
    next heq => exact absurd (List.cons.inj (List.cons.inj heq).2).1 hc
    next heq =>
      obtain ⟨rfl, rfl⟩ := List.cons.inj (List.cons.inj heq).2
      rfl
    next hno => exact (hno c rest rfl).elim
  rw [scan, if_neg hdashes, helement]

/-- The options are found again, however they are written. -/
theorem scan_spelled {opts : List Opt} {args : List (List Char)}
    (h : Spelled optstring opts args) : scan optstring longs none args = opts := by
  induction h with
  | nil => rfl
  | ended args => rw [scan, if_pos rfl]
  | operand arg harg _ ih => rw [scan_operand harg, ih]
  | flag c hflag hc _ ih =>
    rw [scan_dashed hc, cluster, hflag]
    exact congrArg _ ih
  | bundle c d rest hflag hc hd _ ih =>
    rw [scan_dashed hd] at ih
    rw [scan_dashed hc, cluster, hflag]
    exact congrArg _ ih
  | joined c arg hvalue hc harg _ ih =>
    rw [scan_dashed hc, cluster, hvalue]
    simp only [if_neg harg]
    exact congrArg _ ih
  | separate c arg hvalue hc _ ih =>
    rw [scan_dashed hc, cluster, hvalue]
    simp only [if_true, List.nil_append]
    rw [scan, ih]

end Getopt
