/-
**Decimal texts.**

`Bytes.decimal` writes a number in decimal and `Bytes.digitsValue` reads digits back. Reading what was
written gives the number (`digitsValue_decimal`), and no digit string with the same value is shorter
(`length_decimal_le`).
-/

import Mathlib.Data.List.Induction
import Mathlib.Data.Nat.Log
import Mathlib.Tactic.NormNum
import Sider.Lib.Bytes

namespace Bytes

theorem decimal_natCast (n : Nat) :
    decimal n = (Nat.toDigits 10 n).map fun c => Fin.ofNat 256 c.toNat := by
  show (n.repr.toList).map _ = _
  rw [Nat.toList_repr]

/-- A negative number is a minus sign and its magnitude. -/
theorem decimal_neg {n : Nat} (positive : 0 < n) : decimal (-n) = 45 :: decimal n := by
  obtain ⟨m, rfl⟩ := Nat.exists_eq_add_of_le' positive
  show (("-" ++ (m + 1).repr).toList).map _ = _ :: ((m + 1).repr.toList).map _
  rw [String.toList_append]
  rfl

theorem decimal_ne_nil (n : Nat) : decimal n ≠ [] := by
  rw [decimal_natCast]
  exact fun empty => Nat.toDigits_ne_nil (List.map_eq_nil_iff.mp empty)

theorem length_decimal (n : Nat) : (decimal n).length = Nat.log 10 n + 1 := by
  rw [decimal_natCast, List.length_map]
  have upper : (Nat.toDigits 10 n).length ≤ Nat.log 10 n + 1 :=
    (Nat.length_toDigits_le_iff (by norm_num) (Nat.succ_pos _)).mpr
      (Nat.lt_pow_succ_log_self (by norm_num) n)
  have positive := List.length_pos_iff.mpr (Nat.toDigits_ne_nil (b := 10) (n := n))
  have small : n < 10 ^ (Nat.toDigits 10 n).length :=
    (Nat.length_toDigits_le_iff (by norm_num) positive).mp le_rfl
  exact le_antisymm upper (Nat.log_lt_of_lt_pow' positive.ne' small)

/-- The byte of a decimal digit. -/
theorem isDigit_ofChar {c : Char} (digit : c.isDigit) :
    (Fin.ofNat 256 c.toNat).val = c.toNat ∧ isDigit (Fin.ofNat 256 c.toNat) = true := by
  have range : 48 ≤ c.toNat ∧ c.toNat ≤ 57 := by
    simpa [Char.isDigit, UInt32.le_iff_toNat_le] using digit
  have value : (Fin.ofNat 256 c.toNat).val = c.toNat := Nat.mod_eq_of_lt (by omega)
  refine ⟨value, ?_⟩
  unfold isDigit
  rw [value]
  simpa using range

theorem isDigit_of_mem_decimal {n : Nat} {byte : Byte} (member : byte ∈ decimal n) :
    isDigit byte = true := by
  rw [decimal_natCast] at member
  obtain ⟨c, inside, rfl⟩ := List.mem_map.mp member
  exact (isDigit_ofChar (Nat.isDigit_of_mem_toDigits (by norm_num) (by norm_num) inside)).2

/-- **Reading what was written.** -/
theorem digitsValue_decimal (n : Nat) : digitsValue (decimal n) = n := by
  have digits : ∀ c ∈ Nat.toDigits 10 n, c.isDigit := fun c member =>
    Nat.isDigit_of_mem_toDigits (by norm_num) (by norm_num) member
  have fold : ∀ (chars : List Char) (start : Nat), (∀ c ∈ chars, c.isDigit) →
      (chars.map fun c => Fin.ofNat 256 c.toNat).foldl
        (fun value (digit : Byte) => value * 10 + (digit.val - 48)) start =
      Nat.ofDigitChars 10 chars start := by
    intro chars
    induction chars with
    | nil => exact fun _ _ => rfl
    | cons c others ih =>
      intro start all
      have value := (isDigit_ofChar (all c List.mem_cons_self)).1
      rw [List.map_cons, List.foldl_cons, ih _ fun other member => all other (List.mem_cons_of_mem _ member),
        Nat.ofDigitChars_cons, value, Nat.mul_comm]
      rfl
  unfold digitsValue
  rw [decimal_natCast, fold _ 0 digits]
  exact Nat.ofDigitChars_ten_toDigits

theorem digitsValue_append (digits : Bytes) (digit : Byte) :
    digitsValue (digits ++ [digit]) = digitsValue digits * 10 + (digit.val - 48) := by
  unfold digitsValue
  rw [List.foldl_append]
  rfl

theorem digitsValue_lt {digits : Bytes} (all : ∀ digit ∈ digits, isDigit digit = true) :
    digitsValue digits < 10 ^ digits.length := by
  induction digits using List.reverseRecOn with
  | nil => norm_num [digitsValue]
  | append_singleton digits digit ih =>
    have last := all digit (by simp)
    have small := ih fun other member => all other (List.mem_append_left _ member)
    rw [digitsValue_append, List.length_append, List.length_singleton, Nat.pow_succ]
    unfold isDigit at last
    simp only [Bool.and_eq_true, decide_eq_true_eq] at last
    omega

/-- **No digit string with the same value is shorter.** -/
theorem length_decimal_le {digits : Bytes} (all : ∀ digit ∈ digits, isDigit digit = true)
    (some_ : digits ≠ []) : (decimal (digitsValue digits)).length ≤ digits.length := by
  rw [decimal_natCast, List.length_map]
  exact (Nat.length_toDigits_le_iff (by norm_num) (List.length_pos_iff.mpr some_)).mpr
    (digitsValue_lt all)

end Bytes
