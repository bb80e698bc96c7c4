import FastCgiCdn.Common
import Mathlib.Tactic.Ring

/-! The numbers that strings of digits stand for, and what the conversions of
the program make of them. -/

namespace FastCgiCdn.Numerals

open Common

def numeral (base : ℕ) (digits : Bytes) : ℕ :=
  digits.foldl (fun value c => value * base + (hexToDecUnit c).getD 0) 0

def IsDigit (base : ℕ) (c : Byte) : Prop := ∃ digit ∈ hexToDecUnit c, digit < base

theorem digitsValue_foldl (base : ℕ) (digits : Bytes) (clean : ∀ c ∈ digits, IsDigit base c)
    (value : ℕ) : digitsValue base value digits =
      digits.foldl (fun value c => value * base + (hexToDecUnit c).getD 0) value := by
  induction digits generalizing value with
  | nil => rfl
  | cons c digits ih =>
    obtain ⟨digit, read, small⟩ := clean c (List.mem_cons_self ..)
    rw [digitsValue, Option.mem_def.mp read]
    simp only [if_pos small, List.foldl_cons, Option.mem_def.mp read, Option.getD_some]
    exact ih (fun d member => clean d (List.mem_cons_of_mem _ member)) _

theorem digitsValue_numeral {base : ℕ} {digits : Bytes} (clean : ∀ c ∈ digits, IsDigit base c) :
    digitsValue base 0 digits = numeral base digits :=
  digitsValue_foldl base digits clean 0

theorem foldl_numeral (base : ℕ) (digits : Bytes) (value : ℕ) :
    digits.foldl (fun value c => value * base + (hexToDecUnit c).getD 0) value =
      value * base ^ digits.length + numeral base digits := by
  induction digits generalizing value with
  | nil => simp [numeral]
  | cons c digits ih =>
    simp only [numeral, List.foldl_cons, List.length_cons]
    rw [ih, ih (0 * base + _), pow_succ]
    ring

theorem numeral_cons (base : ℕ) (c : Byte) (digits : Bytes) : numeral base (c :: digits) =
    (hexToDecUnit c).getD 0 * base ^ digits.length + numeral base digits := by
  rw [numeral, List.foldl_cons, foldl_numeral, Nat.zero_mul, Nat.zero_add]

theorem isDigit_ten {c : Byte} (digit : 48 ≤ c ∧ c ≤ 57) :
    hexToDecUnit c = some (c.toNat - 48) ∧ IsDigit 10 c := by
  have upper : c.toNat ≤ 57 := digit.2
  have read : hexToDecUnit c = some (c.toNat - 48) := by
    rw [hexToDecUnit, if_neg (by simpa using digit.1), if_pos digit.2]
  exact ⟨read, c.toNat - 48, read, by omega⟩

section Stream

variable {blanks digits : Bytes}

theorem stream_digits (rest : Bytes) (space : ∀ c ∈ blanks, isSpace c = true) (some_digits : digits ≠ [])
    (clean : ∀ c ∈ digits, 48 ≤ c ∧ c ≤ 57) (stop : ∀ c ∈ rest.head?, hexToDecUnit c = none) :
    streamToUInt64 (blanks ++ digits ++ rest) = some (toUInt64 false (numeral 10 digits)) := by
  obtain ⟨c, ds, rfl⟩ := List.exists_cons_of_ne_nil some_digits
  obtain ⟨solid, minus, plus, dash⟩ := digit_facts (clean c (List.mem_cons_self ..))
  have skipped : (blanks ++ c :: ds ++ rest).dropWhile isSpace = c :: (ds ++ rest) := by
    rw [List.append_assoc, List.dropWhile_append_of_pos space, List.cons_append,
      List.dropWhile_cons_of_neg (by simp [solid])]
  have value := digitsValue_stop 10 0 (c :: ds) rest stop
  rw [digitsValue_numeral fun d member => (isDigit_ten (clean d member)).2, List.cons_append] at value
  simp only [streamToUInt64, skipped, reduceCtorEq, if_false, dropSign_self c _ plus dash, value,
    negative, List.head?_cons, Option.map_some, minus, Option.getD_some]

theorem stream_blank (space : ∀ c ∈ blanks, isSpace c = true) : streamToUInt64 blanks = none := by
  have skipped : (blanks ++ []).dropWhile isSpace = [] := List.dropWhile_append_of_pos space
  rw [List.append_nil] at skipped
  simp only [streamToUInt64, skipped, if_true]

end Stream

theorem toInt64_read (value n : ℕ) :
    toInt64 (toUInt64 false value) = (n : ℤ) ↔ value = n ∧ n < 2 ^ 63 := by
  simp only [toInt64, toUInt64, Bool.false_eq_true, if_false]
  split <;> split <;> omega

theorem toInt64_large {n : ℕ} (large : 2 ^ 63 ≤ n) : toInt64 (toUInt64 false n) < 0 := by
  unfold toUInt64
  by_cases full : 2 ^ 64 ≤ n
  · rw [if_pos full]
    decide
  · rw [if_neg full, if_neg Bool.false_ne_true, toInt64, if_neg (Nat.not_lt.mpr large)]
    omega

end FastCgiCdn.Numerals
