import Mathlib.Data.List.TakeWhile
import Mathlib.Data.Nat.Digits.Defs
import Mathlib.Tactic

namespace Numeral

/-- `isspace` in the C locale. -/
def isSpace (c : Char) : Bool := c.toNat = 32 || (9 ≤ c.toNat && c.toNat ≤ 13)

def digit (c : Char) : Nat := c.toNat - 48

/-- The number that a string of decimal digits stands for. -/
def decimal (digits : List Char) : Nat := Nat.ofDigits 10 (digits.reverse.map digit)

inductive Sign where
  | none | plus | minus

def Sign.chars : Sign → List Char
  | .none => []
  | .plus => ['+']
  | .minus => ['-']

def Sign.apply (n : Nat) : Sign → Int
  | .minus => -n
  | _ => n

/-- `s` is a decimal number as the C standard describes it: white space, an optional sign and at
least one digit. -/
def Denotes (s : List Char) (n : Int) : Prop :=
  ∃ (blanks : List Char) (sign : Sign) (digits : List Char),
    s = blanks ++ (sign.chars ++ digits) ∧ (∀ c ∈ blanks, isSpace c = true) ∧ digits ≠ [] ∧
      (∀ c ∈ digits, c.isDigit = true) ∧ n = sign.apply (decimal digits)

/-- An optional sign is taken off. -/
def takeSign : List Char → Sign × List Char
  | [] => (.none, [])
  | c :: rest =>
    if c = '-' then (.minus, rest) else if c = '+' then (.plus, rest) else (.none, c :: rest)

/-- The digits from left to right. -/
def horner (digits : List Char) : Nat := digits.foldl (fun n c => 10 * n + digit c) 0

/-- What `strtol` gives back: the value, the rest of the string behind the number, and whether it
has set `errno` to `ERANGE`. -/
structure Conversion where
  value : Int
  rest : List Char
  outOfRange : Bool

/-- `strtol` to the base ten for the integers from `lo` to `hi`. -/
def strtol (lo hi : Int) (s : List Char) : Conversion :=
  let (sign, body) := takeSign (s.dropWhile isSpace)
  let digits := body.takeWhile Char.isDigit
  if digits = [] then ⟨0, s, false⟩
  else
    let n := sign.apply (horner digits)
    ⟨max lo (min hi n), body.dropWhile Char.isDigit, decide (n < lo ∨ hi < n)⟩

theorem horner_snoc (digits : List Char) (c : Char) :
    horner (digits ++ [c]) = 10 * horner digits + digit c := by
  simp [horner]

theorem horner_eq_decimal (digits : List Char) : horner digits = decimal digits := by
  induction digits using List.reverseRecOn with
  | nil => rfl
  | append_singleton digits c ih =>
    rw [horner_snoc, ih]
    simp only [decimal, List.reverse_append, List.reverse_singleton, List.singleton_append,
      List.map_cons, Nat.ofDigits_cons]
    omega

theorem not_isSpace_of_isDigit {c : Char} (h : c.isDigit = true) : isSpace c = false := by
  rw [Char.isDigit_iff_toNat] at h
  have hlo : 48 ≤ c.toNat := h.1
  rw [isSpace, Bool.or_eq_false_iff, Bool.and_eq_false_iff]
  refine ⟨decide_eq_false (by omega), Or.inr (decide_eq_false (by omega))⟩

/-- The sign and the digits do not begin with white space. -/
theorem dropWhile_sign (sign : Sign) {digits : List Char} (hne : digits ≠ [])
    (hd : ∀ c ∈ digits, c.isDigit = true) :
    (sign.chars ++ digits).dropWhile isSpace = sign.chars ++ digits := by
  cases sign with
  | plus => rfl
  | minus => rfl
  | none =>
    obtain ⟨c, rest, rfl⟩ := List.exists_cons_of_ne_nil hne
    have hc := not_isSpace_of_isDigit (hd c List.mem_cons_self)
    exact List.dropWhile_cons_of_neg (by rw [hc]; exact Bool.false_ne_true)

theorem takeSign_chars (sign : Sign) {digits : List Char} (hne : digits ≠ [])
    (hd : ∀ c ∈ digits, c.isDigit = true) : takeSign (sign.chars ++ digits) = (sign, digits) := by
  cases sign with
  | plus => rfl
  | minus => rfl
  | none =>
    obtain ⟨c, rest, rfl⟩ := List.exists_cons_of_ne_nil hne
    have hc := hd c List.mem_cons_self
    have hminus : c ≠ '-' := by
      intro h
      rw [h] at hc
      exact absurd hc (by decide)
    have hplus : c ≠ '+' := by
      intro h
      rw [h] at hc
      exact absurd hc (by decide)
    simp only [Sign.chars, List.nil_append, takeSign, if_neg hminus, if_neg hplus]

theorem takeSign_append (s : List Char) : (takeSign s).1.chars ++ (takeSign s).2 = s := by
  cases s with
  | nil => rfl
  | cons c rest =>
    simp only [takeSign]
    split_ifs with hminus hplus
    · rw [hminus]
      rfl
    · rw [hplus]
      rfl
    · rfl

/-- The parts into which `strtol` takes a string apart. -/
theorem denotes_iff {s : List Char} {n : Int} : Denotes s n ↔
    (takeSign (s.dropWhile isSpace)).2 ≠ [] ∧
    (∀ c ∈ (takeSign (s.dropWhile isSpace)).2, c.isDigit = true) ∧
    n = (takeSign (s.dropWhile isSpace)).1.apply (decimal (takeSign (s.dropWhile isSpace)).2) := by
  constructor
  · intro h
    obtain ⟨blanks, sign, digits, rfl, hblanks, hne, hd, rfl⟩ := h
    rw [List.dropWhile_append_of_pos hblanks, dropWhile_sign sign hne hd,
      takeSign_chars sign hne hd]
    exact ⟨hne, hd, rfl⟩
  · intro h
    obtain ⟨hne, hd, hn⟩ := h
    refine ⟨s.takeWhile isSpace, _, _, ?_, ?_, hne, hd, hn⟩
    · rw [takeSign_append, List.takeWhile_append_dropWhile]
    · intro c hc
      exact List.mem_takeWhile_imp hc

theorem Denotes.unique {s : List Char} {m n : Int} (hm : Denotes s m) (hn : Denotes s n) :
    m = n := by
  rw [denotes_iff] at hm hn
  exact hm.2.2.trans hn.2.2.symm

/-- The usual test behind a call of `strtol`, that the whole string has been used and the value was
in range, accepts exactly the decimal numbers from `lo` to `hi`. -/
theorem strtol_whole_iff {lo hi : Int} {s : List Char} {n : Int} :
    ((strtol lo hi s).outOfRange = false ∧ (strtol lo hi s).rest ≠ s ∧
      (strtol lo hi s).rest = [] ∧ (strtol lo hi s).value = n) ↔
      Denotes s n ∧ lo ≤ n ∧ n ≤ hi := by
  have hlen : ((takeSign (s.dropWhile isSpace)).2).length ≤ s.length := by
    have happ := congrArg List.length (takeSign_append (s.dropWhile isSpace))
    have hdrop := (List.dropWhile_sublist isSpace (l := s)).length_le
    rw [List.length_append] at happ
    omega
  rw [denotes_iff, strtol]
  generalize takeSign (s.dropWhile isSpace) = parts at hlen ⊢
  obtain ⟨sign, body⟩ := parts
  dsimp only at hlen ⊢
  by_cases hnil : body.takeWhile Char.isDigit = []
  · rw [if_pos hnil]
    constructor
    · intro h
      exact absurd rfl h.2.1
    · intro h
      obtain ⟨⟨hne, hd, _⟩, _⟩ := h
      rw [List.takeWhile_eq_self_iff.mpr hd] at hnil
      exact absurd hnil hne
  · rw [if_neg hnil]
    dsimp only
    constructor
    · intro h
      obtain ⟨hrange, _, hrest, hvalue⟩ := h
      have hd := List.dropWhile_eq_nil_iff.mp hrest
      rw [List.takeWhile_eq_self_iff.mpr hd] at hnil hrange hvalue
      rw [decide_eq_false_iff_not] at hrange
      rw [horner_eq_decimal] at hrange hvalue
      have hn : sign.apply (decimal body) = n := by omega
      exact ⟨⟨hnil, hd, hn.symm⟩, by omega, by omega⟩
    · intro h
      obtain ⟨⟨hne, hd, hn⟩, hlo, hhi⟩ := h
      have hpos : 0 < body.length := List.length_pos_of_ne_nil hne
      rw [List.takeWhile_eq_self_iff.mpr hd, List.dropWhile_eq_nil_iff.mpr hd, horner_eq_decimal,
        ← hn]
      refine ⟨decide_eq_false (by omega), ?_, rfl, by omega⟩
      intro hs
      rw [← hs] at hlen
      exact absurd hlen (Nat.not_le.mpr hpos)

theorem decimal_toDigits (n : Nat) : decimal (Nat.toDigits 10 n) = n := by
  rw [← horner_eq_decimal]
  exact Nat.ofDigitChars_ten_toDigits

/-- The digits of a number denote it. -/
theorem denotes_toDigits (sign : Sign) (n : Nat) :
    Denotes (sign.chars ++ Nat.toDigits 10 n) (sign.apply n) := by
  refine ⟨[], sign, Nat.toDigits 10 n, rfl, nofun, Nat.toDigits_ne_nil, ?_, ?_⟩
  · intro c hc
    exact Nat.isDigit_of_mem_toDigits (by decide) (by decide) hc
  · rw [decimal_toDigits]

end Numeral
