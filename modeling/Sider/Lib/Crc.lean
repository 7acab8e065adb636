/-
**Cyclic redundancy checks, one byte at a time from a table.**

A check of width `w` keeps a shift register; a shift moves it down one bit and adds the polynomial
when the bit that falls out is set (the reflected form). The register is fed byte by byte through
the table of eight shifts of each byte, and eight shifts of the register after adding the byte do
the same (`feed_eq`).

Shifts are additive and, when the polynomial's top bit is set, injective. So a run of bytes that
fits the register is loaded injectively (`foldl_feed_window`), and whatever follows keeps two
different registers apart. `crc_burst`: two texts that differ only within `w / 8` consecutive bytes
have different checks.
-/

import Sider.Lib.Bytes
import Mathlib.Logic.Function.Iterate

namespace Crc

open Function

variable {w : Nat} (poly : BitVec w)

/-- One bit out of the register. -/
def shift (crc : BitVec w) : BitVec w :=
  if crc.getLsbD 0 then (crc >>> 1) ^^^ poly else crc >>> 1

/-- Eight shifts of each byte. -/
def table (index : BitVec w) : BitVec w :=
  (shift poly)^[8] index

/-- One byte into the register. -/
def feed (crc : BitVec w) (byte : Byte) : BitVec w :=
  table poly ((crc ^^^ BitVec.ofNat w byte.val) &&& 255#w) ^^^ (crc >>> 8)

/-- The check of a text: the register after its bytes, started with ones and complemented. -/
def crc (bytes : Bytes) : BitVec w :=
  ~~~(bytes.foldl (feed poly) (BitVec.allOnes w))

/-! ### Shifts -/

theorem shift_xor (a b : BitVec w) : shift poly (a ^^^ b) = shift poly a ^^^ shift poly b := by
  unfold shift
  rw [BitVec.getLsbD_xor, BitVec.ushiftRight_xor_distrib]
  cases a.getLsbD 0 <;> cases b.getLsbD 0
  · rfl
  · exact BitVec.xor_assoc _ _ _
  · show a >>> 1 ^^^ b >>> 1 ^^^ poly = a >>> 1 ^^^ poly ^^^ b >>> 1
    ac_rfl
  · show a >>> 1 ^^^ b >>> 1 = a >>> 1 ^^^ poly ^^^ (b >>> 1 ^^^ poly)
    rw [show a >>> 1 ^^^ poly ^^^ (b >>> 1 ^^^ poly) = a >>> 1 ^^^ b >>> 1 ^^^ (poly ^^^ poly) by
      ac_rfl, BitVec.xor_self, BitVec.xor_zero]

theorem iterate_shift_xor (count : Nat) (a b : BitVec w) :
    (shift poly)^[count] (a ^^^ b) = (shift poly)^[count] a ^^^ (shift poly)^[count] b := by
  induction count generalizing a b with
  | zero => rfl
  | succ count ih => rw [iterate_succ_apply, iterate_succ_apply, iterate_succ_apply, shift_xor, ih]

/-- A register whose low bits are clear only moves down. -/
theorem iterate_shift_low (count value : Nat) (fits : 2 ^ count * value < 2 ^ w) :
    (shift poly)^[count] (BitVec.ofNat w (2 ^ count * value)) = BitVec.ofNat w value := by
  induction count generalizing value with
  | zero => simp
  | succ count ih =>
    have moved : shift poly (BitVec.ofNat w (2 * (2 ^ count * value))) =
        BitVec.ofNat w (2 ^ count * value) := by
      have double : 2 * (2 ^ count * value) < 2 ^ w := by
        rwa [show 2 ^ (count + 1) * value = 2 * (2 ^ count * value) by ring] at fits
      have even : (BitVec.ofNat w (2 * (2 ^ count * value))).getLsbD 0 = false := by
        simp [BitVec.getLsbD_ofNat]
      unfold shift
      rw [even, if_neg Bool.false_ne_true]
      refine BitVec.eq_of_toNat_eq ?_
      rw [BitVec.toNat_ushiftRight, BitVec.toNat_ofNat, BitVec.toNat_ofNat,
        Nat.mod_eq_of_lt double, Nat.mod_eq_of_lt (by omega), Nat.shiftRight_eq_div_pow]
      omega
    rw [show 2 ^ (count + 1) * value = 2 * (2 ^ count * value) by ring, iterate_succ_apply, moved]
    refine ih value (lt_of_le_of_lt ?_ fits)
    exact Nat.mul_le_mul_right _ (Nat.pow_le_pow_right (by decide) (Nat.le_succ _))

/-- The bit that fell out is the top bit of the shifted register. -/
theorem msb_shift (top : poly.msb = true) (a : BitVec w) : (shift poly a).msb = a.getLsbD 0 := by
  have clear : (a >>> 1).msb = false := by simp [BitVec.msb_ushiftRight]
  unfold shift
  cases out : a.getLsbD 0
  · exact clear
  · simp [BitVec.msb_xor, clear, top]

theorem shift_injective (top : poly.msb = true) : Injective (shift poly) := by
  intro a b same
  have low : a.getLsbD 0 = b.getLsbD 0 := by
    rw [← msb_shift poly top a, ← msb_shift poly top b, same]
  have high : a >>> 1 = b >>> 1 := by
    unfold shift at same
    rw [low] at same
    split at same
    · exact (BitVec.xor_left_inj _).mp same
    · exact same
  refine BitVec.eq_of_getLsbD_eq fun i _ => ?_
  cases i with
  | zero => exact low
  | succ i =>
    have bit := congrArg (fun register => register.getLsbD i) high
    simpa [BitVec.getLsbD_ushiftRight, Nat.add_comm] using bit

/-! ### Bytes -/

/-- Low and high part of a number share no bit. -/
theorem xor_high {low : Nat} (small : low < 256) (high : Nat) :
    low ^^^ (256 * high) = low + 256 * high := by
  refine Nat.eq_of_testBit_eq fun i => ?_
  rw [Nat.testBit_xor, show 256 * high = 2 ^ 8 * high from rfl, Nat.add_comm,
    Nat.testBit_two_pow_mul_add high small, Nat.testBit_two_pow_mul]
  by_cases inside : i < 8
  · simp [inside, Nat.not_le.mpr inside]
  · have wide : 2 ^ 8 ≤ 2 ^ i := Nat.pow_le_pow_right (by decide) (Nat.le_of_not_lt inside)
    have : low.testBit i = false := Nat.testBit_lt_two_pow (lt_of_lt_of_le small wide)
    simp [inside, this, Nat.le_of_not_lt inside]

/-- **The table and eight shifts agree.** -/
theorem feed_eq (wide : 8 ≤ w) (register : BitVec w) (byte : Byte) :
    feed poly register byte = (shift poly)^[8] (register ^^^ BitVec.ofNat w byte.val) := by
  set loaded := register ^^^ BitVec.ofNat w byte.val with isLoaded
  have room : 256 ≤ 2 ^ w := Nat.pow_le_pow_right (n := 2) (by decide) wide
  have low : (loaded &&& 255#w) = BitVec.ofNat w (loaded.toNat % 256) := by
    refine BitVec.eq_of_toNat_eq ?_
    rw [BitVec.toNat_and, BitVec.toNat_ofNat, BitVec.toNat_ofNat,
      Nat.mod_eq_of_lt (show 255 < 2 ^ w by omega),
      Nat.mod_eq_of_lt (show loaded.toNat % 256 < 2 ^ w by omega)]
    exact Nat.and_two_pow_sub_one_eq_mod loaded.toNat 8
  have split : loaded = (loaded &&& 255#w) ^^^ BitVec.ofNat w (256 * (loaded.toNat / 256)) := by
    rw [low, ← BitVec.ofNat_xor, xor_high (Nat.mod_lt _ (by decide)), Nat.mod_add_div]
    simp
  have high : BitVec.ofNat w (loaded.toNat / 256) = register >>> 8 := by
    refine BitVec.eq_of_toNat_eq ?_
    have small := byte.isLt
    have gone : byte.val / 2 ^ 8 = 0 := Nat.div_eq_of_lt small
    have quotient : (register.toNat ^^^ byte.val) / 256 = register.toNat / 2 ^ 8 := by
      rw [show (register.toNat ^^^ byte.val) / 256 = (register.toNat ^^^ byte.val) / 2 ^ 8 from rfl,
        Nat.xor_div_two_pow, gone, Nat.xor_zero]
    rw [BitVec.toNat_ofNat, BitVec.toNat_ushiftRight, Nat.shiftRight_eq_div_pow,
      Nat.mod_eq_of_lt (lt_of_le_of_lt (Nat.div_le_self _ _) loaded.isLt), isLoaded,
      BitVec.toNat_xor, BitVec.toNat_ofNat, Nat.mod_eq_of_lt (lt_of_lt_of_le small room), quotient]
  have fits : 256 * (loaded.toNat / 256) < 2 ^ w :=
    lt_of_le_of_lt (Nat.mul_div_le loaded.toNat 256) loaded.isLt
  have moved : (shift poly)^[8] (BitVec.ofNat w (256 * (loaded.toNat / 256))) = _ :=
    iterate_shift_low poly 8 _ fits
  conv_rhs => rw [split, iterate_shift_xor, moved, high]
  rfl

/-- **A run of bytes that fits the register** is added to it as one number. -/
theorem foldl_feed_window {bytes : Bytes} (fits : 8 * bytes.length ≤ w) (register : BitVec w) :
    bytes.foldl (feed poly) register =
      (shift poly)^[8 * bytes.length] (register ^^^ BitVec.ofNat w (Bytes.littleEndian bytes)) := by
  induction bytes generalizing register with
  | nil => simp [Bytes.littleEndian]
  | cons byte bytes ih =>
    rw [List.length_cons] at fits
    have bound : 2 ^ 8 * Bytes.littleEndian bytes < 2 ^ w := by
      have small := Bytes.littleEndian_lt bytes
      rw [show (256 : Nat) = 2 ^ 8 from rfl, ← Nat.pow_mul] at small
      calc 2 ^ 8 * Bytes.littleEndian bytes < 2 ^ 8 * 2 ^ (8 * bytes.length) := by omega
        _ = 2 ^ (8 * (bytes.length + 1)) := by rw [← Nat.pow_add]; congr 1; omega
        _ ≤ 2 ^ w := Nat.pow_le_pow_right (by decide) fits
    rw [List.foldl_cons, ih (by omega), feed_eq poly (by omega),
      ← iterate_shift_low poly 8 _ bound, ← iterate_shift_xor, ← iterate_add_apply,
      BitVec.xor_assoc, ← BitVec.ofNat_xor, show (2 : Nat) ^ 8 = 256 from rfl, xor_high byte.isLt]
    rfl

theorem foldl_feed_injective (wide : 8 ≤ w) (top : poly.msb = true) (bytes : Bytes) :
    Injective fun register => bytes.foldl (feed poly) register := by
  intro first second same
  induction bytes generalizing first second with
  | nil => exact same
  | cons byte bytes ih =>
    have fed : feed poly first byte = feed poly second byte := ih same
    rw [feed_eq poly wide, feed_eq poly wide] at fed
    exact (BitVec.xor_left_inj _).mp ((shift_injective poly top).iterate 8 fed)

/-- **Bursts are detected**: texts that differ only inside a run of bytes that fits the register
have different checks. -/
theorem crc_burst (wide : 8 ≤ w) (top : poly.msb = true) (before after : Bytes) {first second : Bytes}
    (sizes : first.length = second.length) (fits : 8 * first.length ≤ w)
    (different : first ≠ second) :
    crc poly (before ++ first ++ after) ≠ crc poly (before ++ second ++ after) := by
  intro same
  have registers := BitVec.not_inj.mp same
  rw [List.foldl_append, List.foldl_append, List.foldl_append, List.foldl_append] at registers
  have windows := foldl_feed_injective poly wide top after registers
  generalize before.foldl (feed poly) (BitVec.allOnes w) = register at windows
  have fits' : 8 * second.length ≤ w := sizes ▸ fits
  rw [foldl_feed_window poly fits, foldl_feed_window poly fits', sizes, BitVec.xor_comm register,
    BitVec.xor_comm register] at windows
  have loaded := (BitVec.xor_left_inj _).mp ((shift_injective poly top).iterate _ windows)
  have bound (bytes : Bytes) (short : 8 * bytes.length ≤ w) : Bytes.littleEndian bytes < 2 ^ w := by
    have small := Bytes.littleEndian_lt bytes
    rw [show (256 : Nat) = 2 ^ 8 from rfl, ← Nat.pow_mul] at small
    exact lt_of_lt_of_le small (Nat.pow_le_pow_right (by decide) short)
  have numbers := congrArg BitVec.toNat loaded
  rw [BitVec.toNat_ofNat, BitVec.toNat_ofNat, Nat.mod_eq_of_lt (bound first fits),
    Nat.mod_eq_of_lt (bound second fits')] at numbers
  exact different (Bytes.littleEndian_inj sizes numbers)

end Crc
