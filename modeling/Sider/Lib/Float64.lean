/-
**IEEE-754 binary64 on its bits.**

A `Float64.F64` is a 64-bit pattern. Finite patterns decode to an exact dyadic `mantissa · 2 ^ exponent`;
sums and products are computed exactly and rounded once, to nearest with ties to even, so that the
operations are those of the hardware on finite operands. `F64.rank` is the key of the total order
(`f64::total_cmp`), and `F64` is linearly ordered by it.
-/

import Mathlib.Order.Lattice
import Mathlib.Data.Nat.Log
import Mathlib.Tactic.Ring

namespace Float64

/-- A binary64 bit pattern. -/
structure F64 where
  bits : BitVec 64
  deriving DecidableEq, Repr

/-- An exact dyadic number: `mantissa · 2 ^ exponent`. -/
structure Dyadic where
  mantissa : Int
  exponent : Int
  deriving DecidableEq, Repr

namespace F64

def negative (x : F64) : Bool :=
  2 ^ 63 ≤ x.bits.toNat

/-- The pattern without its sign. -/
def magnitude (x : F64) : Nat :=
  x.bits.toNat % 2 ^ 63

def isNaN (x : F64) : Bool :=
  0x7ff0000000000000 < x.magnitude

def isInfinite (x : F64) : Bool :=
  x.magnitude = 0x7ff0000000000000

def isZero (x : F64) : Bool :=
  x.magnitude = 0

def ofBits (bits : Nat) : F64 := ⟨BitVec.ofNat 64 bits⟩

/-- The pattern of a magnitude with a sign. -/
def signed (negative : Bool) (magnitude : Nat) : F64 :=
  ofBits (magnitude + if negative then 2 ^ 63 else 0)

/-- The exact value of a finite pattern. -/
def decode (x : F64) : Dyadic :=
  let field : Nat := x.magnitude / 2 ^ 52
  let fraction : Nat := x.magnitude % 2 ^ 52
  let mantissa : Nat := if field = 0 then fraction else fraction + 2 ^ 52
  ⟨if x.negative then -mantissa else mantissa, if field = 0 then -1074 else field - 1075⟩

/-- The key of `total_cmp`: negative patterns sort below positive ones, in reverse. -/
def rank (x : F64) : Int :=
  if x.negative then -1 - x.magnitude else x.magnitude

theorem rank_injective : Function.Injective rank := by
  intro x y same
  have bits : x.bits.toNat = y.bits.toNat := by
    simp only [rank, negative, magnitude, decide_eq_true_eq] at same
    split_ifs at same <;> omega
  cases x
  cases y
  exact congrArg F64.mk (BitVec.eq_of_toNat_eq bits)

instance : LinearOrder F64 := LinearOrder.lift' rank rank_injective

end F64

/-- Half-even rounding of `magnitude / 2 ^ shift`. -/
def roundShift (magnitude shift : Nat) : Nat :=
  let quotient := magnitude / 2 ^ shift
  let remainder := magnitude % 2 ^ shift
  let half := 2 ^ shift / 2
  if shift = 0 then magnitude
  else if half < remainder ∨ (remainder = half ∧ quotient % 2 = 1) then quotient + 1
  else quotient

/-- The magnitude pattern nearest to `mantissa · 2 ^ exponent`. -/
def encodeMagnitude (mantissa : Nat) (exponent : Int) : Nat :=
  if mantissa = 0 then 0 else
  let highest := exponent + Nat.log2 mantissa
  let grid := max (highest - 52) (-1074)
  let shift := grid - exponent
  let scaled := if shift ≤ 0 then mantissa * 2 ^ (-shift).toNat else roundShift mantissa shift.toNat
  -- A carry out of the significand moves into the exponent field by itself.
  let pattern := if scaled < 2 ^ 52 then scaled else (grid + 1074).toNat * 2 ^ 52 + scaled
  min pattern 0x7ff0000000000000

/-- The pattern nearest to an exact dyadic; an exact zero takes the given sign. -/
def round (zeroNegative : Bool) (x : Dyadic) : F64 :=
  if x.mantissa = 0 then F64.signed zeroNegative 0
  else F64.signed (x.mantissa < 0) (encodeMagnitude x.mantissa.natAbs x.exponent)

def Dyadic.add (x y : Dyadic) : Dyadic :=
  let low := min x.exponent y.exponent
  ⟨x.mantissa * 2 ^ (x.exponent - low).toNat + y.mantissa * 2 ^ (y.exponent - low).toNat, low⟩

def Dyadic.neg (x : Dyadic) : Dyadic := ⟨-x.mantissa, x.exponent⟩

def Dyadic.mul (x y : Dyadic) : Dyadic := ⟨x.mantissa * y.mantissa, x.exponent + y.exponent⟩

namespace F64

/-- Addition of finite operands. -/
def add (x y : F64) : F64 :=
  round (x.negative && y.negative) (x.decode.add y.decode)

/-- Subtraction of finite operands. -/
def sub (x y : F64) : F64 :=
  round (x.negative && !y.negative) (x.decode.add y.decode.neg)

/-- Multiplication of finite operands. -/
def mul (x y : F64) : F64 :=
  round (x.negative != y.negative) (x.decode.mul y.decode)

/-- The exact conversion from an integer small enough to need no rounding. -/
def ofInt (n : Int) : F64 :=
  round false ⟨n, 0⟩

/-- The exact integer part, rounded towards zero. -/
def trunc (x : F64) : Int :=
  let value := x.decode
  if 0 ≤ value.exponent then value.mantissa * 2 ^ value.exponent.toNat
  else value.mantissa.tdiv (2 ^ (-value.exponent).toNat)

/-- A finite value with no fractional part. -/
def isIntegral (x : F64) : Bool :=
  let value := x.decode
  0 ≤ value.exponent || value.mantissa % 2 ^ (-value.exponent).toNat = 0

/-- The exact widening of a finite binary32 pattern. -/
def ofF32 (bits : Nat) : F64 :=
  let field : Nat := bits / 2 ^ 23 % 2 ^ 8
  let fraction : Nat := bits % 2 ^ 23
  let mantissa : Nat := if field = 0 then fraction else fraction + 2 ^ 23
  signed (2 ^ 31 ≤ bits % 2 ^ 32)
    (encodeMagnitude mantissa (if field = 0 then -149 else field - 150))

end F64

example : F64.add (F64.ofBits 0x3ff8000000000000) (F64.ofBits 0x4002000000000000) =
    F64.ofBits 0x400e000000000000 := by decide

example : F64.mul (F64.ofBits 0x3fd34413509f79fe) (F64.ofInt (-1174)) =
    F64.ofBits 0xc076168c24eed65d := by decide

end Float64
