import Mathlib.Algebra.Ring.Int.Defs
import Mathlib.Algebra.Ring.Nat
import Mathlib.Data.List.Basic

/-! Bytes and strings, and the conversions of Common.cpp. A `std::string` is a
list of bytes; `strtoull` follows the C standard in base 16. -/

namespace FastCgiCdn

abbrev Byte := UInt8
abbrev Bytes := List UInt8

def ascii (text : String) : Bytes := text.toList.map fun c => UInt8.ofNat c.toNat

abbrev CR : Byte := 13
abbrev LF : Byte := 10

namespace Common

/-- `none` where the source clears its `ok` flag. -/
def hexToDecUnit (c : Byte) : Option ℕ :=
  if c < 48 then none
  else if c ≤ 57 then some (c.toNat - 48)
  else if c < 65 then none
  else if c ≤ 70 then some (c.toNat - 65 + 10)
  else if c < 97 then none
  else if c ≤ 102 then some (c.toNat - 97 + 10)
  else none

def hexPairs : Bytes → Option Bytes
  | c1 :: c2 :: rest =>
    (hexToDecUnit c1).bind fun d1 =>
    (hexToDecUnit c2).bind fun d2 =>
    (hexPairs rest).map fun r => UInt8.ofNat (d1 * 16 + d2) :: r
  | _ => some []

/-- An odd length and a character that is no digit both give the empty string. -/
def hexaToBinary (hexa : Bytes) : Bytes :=
  if hexa.length % 2 ≠ 0 then [] else (hexPairs hexa).getD []

def lut (digit : ℕ) : Byte :=
  if digit < 10 then UInt8.ofNat (48 + digit) else UInt8.ofNat (65 + (digit - 10))

def binarytoHexa (data : Bytes) : Bytes :=
  data.flatMap fun c => [lut (c.toNat / 16), lut (c.toNat % 16)]

def isSpace (c : Byte) : Bool := c = 32 || (9 ≤ c && c ≤ 13)

def isMinus (c : Byte) : Bool := c = 45

def digitsValue (base : ℕ) : ℕ → Bytes → ℕ
  | value, [] => value
  | value, c :: rest =>
    match hexToDecUnit c with
    | some digit => if digit < base then digitsValue base (value * base + digit) rest else value
    | none => value

/-- A prefix "0x" with no digit behind it has the value 0, as "0" has. -/
def dropHexPrefix : Bytes → Bytes
  | 48 :: 120 :: rest => rest
  | 48 :: 88 :: rest => rest
  | s => s

def dropSign : Bytes → Bytes
  | 43 :: rest => rest
  | 45 :: rest => rest
  | s => s

def negative (s : Bytes) : Bool := (s.head?.map isMinus).getD false

/-- A value read behind a sign into a `uint64_t`: too large a value is the
greatest one. -/
def toUInt64 (minus : Bool) (value : ℕ) : ℕ :=
  if 2 ^ 64 ≤ value then 2 ^ 64 - 1
  else if minus then (2 ^ 64 - value) % 2 ^ 64
  else value

/-- `strtoull(s, &end, 16)`: white space, a sign, the prefix, then digits;
nothing to read gives 0. -/
def strtoull16 (s : Bytes) : ℕ :=
  let signed := s.dropWhile isSpace
  toUInt64 (negative signed) (digitsValue 16 0 (dropHexPrefix (dropSign signed)))

/-- `atoi` into a `uint16_t`; `strtol` keeps its result within 64 bits. -/
def atoi16 (s : Bytes) : ℕ :=
  let signed := s.dropWhile isSpace
  let value := digitsValue 10 0 (dropSign signed)
  if negative signed then (2 ^ 16 - min value (2 ^ 63) % 2 ^ 16) % 2 ^ 16
  else min value (2 ^ 63 - 1) % 2 ^ 16

/-- A string stream read into a `uint64_t`, which stays as it is when there is
nothing but white space. -/
def streamToUInt64 (s : Bytes) : Option ℕ :=
  let signed := s.dropWhile isSpace
  if signed = [] then none
  else some (toUInt64 (negative signed) (digitsValue 10 0 (dropSign signed)))

def tolower (c : Byte) : Byte := if 65 ≤ c && c ≤ 90 then c + 32 else c

def hexaTo64Bits (hexa : Bytes) : ℕ := strtoull16 hexa

theorem digit_facts {d : Byte} (digit : 48 ≤ d ∧ d ≤ 57) :
    isSpace d = false ∧ isMinus d = false ∧ d ≠ 43 ∧ d ≠ 45 := by
  have lower : 48 ≤ d.toNat := digit.1
  have upper : d.toNat ≤ 57 := digit.2
  have apart (c : Byte) (other : c.toNat < 48 ∨ 57 < c.toNat) : d ≠ c := by
    intro same
    rw [same] at lower upper
    omega
  refine ⟨?_, ?_, apart 43 (by decide), apart 45 (by decide)⟩
  · have outside : ¬(9 ≤ d ∧ d ≤ 13) := fun both => by
      have : d.toNat ≤ 13 := both.2
      omega
    simpa [isSpace, apart 32 (by decide)] using outside
  · simpa [isMinus] using apart 45 (by decide)

theorem digitsValue_stop (base value : ℕ) (s rest : Bytes)
    (stop : ∀ c ∈ rest.head?, hexToDecUnit c = none) :
    digitsValue base value (s ++ rest) = digitsValue base value s := by
  induction s generalizing value with
  | nil =>
    cases rest with
    | nil => rfl
    | cons c rest => simp only [List.nil_append, digitsValue, stop c rfl]
  | cons c s ih => simp only [List.cons_append, digitsValue, ih]

theorem dropSign_self (c : Byte) (s : Bytes) (plus : c ≠ 43) (dash : c ≠ 45) :
    dropSign (c :: s) = c :: s := by
  unfold dropSign
  split
  · rename_i same
    exact absurd (List.cons.inj same).1 plus
  · rename_i same
    exact absurd (List.cons.inj same).1 dash
  · rfl

theorem atoi16_stop (s rest : Bytes) (digits : ∀ c ∈ s, 48 ≤ c ∧ c ≤ 57) :
    atoi16 (s ++ 0 :: rest) = atoi16 s := by
  cases s with
  | nil => rfl
  | cons c s =>
    obtain ⟨space, minus, plus, dash⟩ := digit_facts (digits c (List.mem_cons_self ..))
    have sign (t : Bytes) : dropSign (c :: t) = c :: t := dropSign_self c t plus dash
    have value := digitsValue_stop 10 0 (c :: s) (0 :: rest) (by simp; rfl)
    rw [List.cons_append] at value ⊢
    simp only [atoi16, List.dropWhile_cons, space, Bool.false_eq_true, if_false, sign, value,
      negative, List.head?_cons]

theorem hexDigit_facts {d : Byte} (digit : (hexToDecUnit d).isSome) :
    isSpace d = false ∧ isMinus d = false ∧ d ≠ 43 ∧ d ≠ 45 ∧ d ≠ 120 ∧ d ≠ 88 ∧ d ≠ LF ∧ d ≠ CR := by
  have apart (c : Byte) (other : hexToDecUnit c = none) : d ≠ c := by
    rintro rfl
    rw [other] at digit
    cases digit
  have high : ¬d < 48 := by
    intro low
    rw [hexToDecUnit, if_pos low] at digit
    cases digit
  have outside : ¬(9 ≤ d ∧ d ≤ 13) := by
    intro both
    have upper : d.toNat ≤ 13 := both.2
    have lower : ¬d.toNat < 48 := high
    omega
  refine ⟨?_, ?_, apart 43 rfl, apart 45 rfl, apart 120 rfl, apart 88 rfl, apart LF rfl, apart CR rfl⟩
  · simpa [isSpace, apart 32 rfl] using outside
  · simpa [isMinus] using apart 45 rfl

theorem dropHexPrefix_self (c : Byte) (s : Bytes) (plain : ∀ d ∈ s.head?, d ≠ 120 ∧ d ≠ 88) :
    dropHexPrefix (c :: s) = c :: s := by
  unfold dropHexPrefix
  split
  · rename_i same
    obtain ⟨-, rfl⟩ := List.cons.inj same
    exact absurd rfl (plain 120 rfl).1
  · rename_i same
    obtain ⟨-, rfl⟩ := List.cons.inj same
    exact absurd rfl (plain 88 rfl).2
  · rfl

theorem strtoull16_digits (digits rest : Bytes) (nonempty : digits ≠ [])
    (hex : ∀ c ∈ digits, (hexToDecUnit c).isSome) (stop : ∀ c ∈ rest.head?, c = 59)
    (small : digitsValue 16 0 digits < 2 ^ 64) :
    strtoull16 (digits ++ rest) = digitsValue 16 0 digits := by
  obtain ⟨c, ds, rfl⟩ := List.exists_cons_of_ne_nil nonempty
  obtain ⟨space, minus, plus, dash, -⟩ := hexDigit_facts (hex c (List.mem_cons_self ..))
  have value := digitsValue_stop 16 0 (c :: ds) rest fun d member => by rw [stop d member]; rfl
  have plain : ∀ d ∈ (ds ++ rest).head?, d ≠ 120 ∧ d ≠ 88 := by
    intro d member
    cases ds with
    | nil =>
      rw [stop d member]
      decide
    | cons e ds =>
      obtain rfl := Option.some.inj member
      obtain ⟨-, -, -, -, x, X, -⟩ := hexDigit_facts (hex e (by simp))
      exact ⟨x, X⟩
  rw [List.cons_append] at value ⊢
  simp only [strtoull16, List.dropWhile_cons, space, Bool.false_eq_true, if_false,
    dropSign_self c _ plus dash, dropHexPrefix_self c _ plain, value, negative, List.head?_cons,
    Option.map_some, minus, Option.getD_some, toUInt64, if_neg (Nat.not_le.mpr small)]

def toDecimal (n : ℕ) : Bytes := (Nat.toDigits 10 n).map fun c => UInt8.ofNat c.toNat

def toInt64 (value : ℕ) : ℤ :=
  if value < 2 ^ 63 then value else (value : ℤ) - 2 ^ 64

example : hexaTo64Bits (ascii "1aF; last") = 0x1af := by decide

end Common

end FastCgiCdn
