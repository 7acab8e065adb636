/-
**Checked machine arithmetic.**

`usize` and `u64` values are naturals, `i64` values integers, and each checked operation returns
`none` outside the type's range. `chargeAll_eq` — a chain of checked additions is one check of the
exact total — is what accounting proofs use.
-/

import Mathlib.Algebra.Order.BigOperators.Group.List
import Mathlib.Algebra.GroupWithZero.Nat

namespace Machine

/-- One past the largest `usize` or `u64`, on a 64-bit target. -/
def word : Nat := 2 ^ 64

/-- The largest `isize`. -/
def isizeMax : Nat := 2 ^ 63 - 1

def checkedAdd (a b : Nat) : Option Nat :=
  if a + b < word then some (a + b) else none

def saturatingAdd (a b : Nat) : Nat :=
  min (a + b) (word - 1)

def checkedMul (a b : Nat) : Option Nat :=
  if a * b < word then some (a * b) else none

def checkedSub (a b : Nat) : Option Nat :=
  if b ≤ a then some (a - b) else none

def i64Min : Int := -2 ^ 63

def i64Max : Int := 2 ^ 63 - 1

/-- A value that a signed 64-bit integer holds. -/
def IsI64 (x : Int) : Prop := i64Min ≤ x ∧ x ≤ i64Max

instance (x : Int) : Decidable (IsI64 x) := inferInstanceAs (Decidable (_ ∧ _))

/-- The conversion to `i64`, which fails outside its range. -/
def toI64 (x : Int) : Option Int :=
  if i64Min ≤ x ∧ x ≤ i64Max then some x else none

/-- The conversion to `u64`, which fails outside its range. -/
def toU64 (x : Int) : Option Nat :=
  if 0 ≤ x ∧ x < word then some x.toNat else none

/-- A chain of checked additions. -/
def charge (total : Nat) (parts : List Nat) : Option Nat :=
  parts.foldlM checkedAdd total

/-- A checked sum over a list of items, each charged part by part. -/
def chargeAll {α : Type*} (parts : α → List Nat) (total : Nat) (items : List α) : Option Nat :=
  items.foldlM (fun sum item => charge sum (parts item)) total

/-- A product within a bound, when the check also refuses an overflow. -/
theorem checkedMul_within {a b bound : Nat} (small : bound < word) :
    (checkedMul a b).all (bound < ·) = false ↔ a * b ≤ bound := by
  unfold checkedMul
  split_ifs with fits
  · simp
  · simp only [Option.all_none, Bool.true_eq_false, false_iff]
    omega

theorem charge_eq {total : Nat} (small : total < word) (parts : List Nat) :
    charge total parts =
      if total + parts.sum < word then some (total + parts.sum) else none := by
  induction parts generalizing total with
  | nil => simp [charge, small]
  | cons part rest ih =>
    have split : charge total (part :: rest) =
        (checkedAdd total part).bind fun sum => charge sum rest := rfl
    rw [split, checkedAdd, List.sum_cons, ← Nat.add_assoc]
    by_cases fits : total + part < word
    · rw [if_pos fits, Option.bind_some, ih fits]
    · rw [if_neg fits, Option.bind_none, if_neg (by omega)]

/-- **A checked chain is one check of the exact total.** -/
theorem chargeAll_eq {α : Type*} (parts : α → List Nat) {total : Nat} (small : total < word)
    (items : List α) :
    chargeAll parts total items =
      if total + (items.map fun item => (parts item).sum).sum < word then
        some (total + (items.map fun item => (parts item).sum).sum)
      else none := by
  induction items generalizing total with
  | nil => simp [chargeAll, small]
  | cons item rest ih =>
    have split : chargeAll parts total (item :: rest) =
        (charge total (parts item)).bind fun sum => chargeAll parts sum rest := rfl
    rw [split, charge_eq small, List.map_cons, List.sum_cons, ← Nat.add_assoc]
    by_cases fits : total + (parts item).sum < word
    · rw [if_pos fits, Option.bind_some, ih fits]
    · rw [if_neg fits, Option.bind_none, if_neg (by omega)]

theorem checkedAdd_eq_some {a b c : Nat} : checkedAdd a b = some c ↔ a + b < word ∧ a + b = c := by
  unfold checkedAdd
  split_ifs with fits <;> simp [fits]

theorem checkedSub_eq_some {a b c : Nat} : checkedSub a b = some c ↔ b ≤ a ∧ a - b = c := by
  unfold checkedSub
  split_ifs with fits <;> simp [fits]

end Machine
