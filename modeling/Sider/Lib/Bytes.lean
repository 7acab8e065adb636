/-
**Byte strings.**

A byte is a `Fin 256` and a byte string a list of them, so that byte strings are ordered
lexicographically (the order of a byte slice) and compare by evaluation.
-/

import Mathlib.Data.List.Lex
import Mathlib.Data.Fin.Basic
import Mathlib.Tactic.Ring

abbrev Byte := Fin 256

-- What every byte literal rests on.
instance neZero_byte : NeZero 256 := ⟨by decide⟩

abbrev Bytes := List Byte

namespace Bytes

variable {size : Nat}

/-- The bytes of an ASCII text. -/
def ascii (text : String) : Bytes :=
  text.toList.map fun c => Fin.ofNat 256 c.toNat

/-- The decimal text of an integer. -/
def decimal (n : Int) : Bytes :=
  ascii (toString n)

def isDigit (b : Byte) : Bool :=
  48 ≤ b.val && b.val ≤ 57

/-- The number a digit string denotes. -/
def digitsValue (digits : Bytes) : Nat :=
  digits.foldl (fun value digit => value * 10 + (digit.val - 48)) 0

/-- The little-endian number of a byte string. -/
def littleEndian (bytes : Bytes) : Nat :=
  bytes.foldr (fun byte value => byte.val + 256 * value) 0

/-- The `count` low bytes of a number, least significant first. -/
def toLittleEndian : Nat → Nat → Bytes
  | 0, _ => []
  | count + 1, value => Fin.ofNat 256 value :: toLittleEndian count (value / 256)

@[simp] theorem length_toLittleEndian (count value : Nat) :
    (toLittleEndian count value).length = count := by
  induction count generalizing value with
  | zero => rfl
  | succ count ih => simp [toLittleEndian, ih]

theorem littleEndian_lt (bytes : Bytes) : littleEndian bytes < 256 ^ bytes.length := by
  induction bytes with
  | nil => decide
  | cons byte bytes ih =>
    show byte.val + 256 * littleEndian bytes < 256 ^ (bytes.length + 1)
    omega

/-- Writing a number in enough bytes and reading it back. -/
theorem littleEndian_toLittleEndian {count value : Nat} (fits : value < 256 ^ count) :
    littleEndian (toLittleEndian count value) = value := by
  induction count generalizing value with
  | zero =>
    have : value = 0 := by simpa using fits
    rw [this]
    rfl
  | succ count ih =>
    have high : value / 256 < 256 ^ count := Nat.div_lt_of_lt_mul (by rwa [Nat.pow_succ'] at fits)
    show (Fin.ofNat 256 value).val + 256 * littleEndian (toLittleEndian count (value / 256)) = value
    rw [ih high]
    exact Nat.mod_add_div value 256

/-- Reading bytes as a number and writing it in as many bytes. -/
theorem toLittleEndian_littleEndian (bytes : Bytes) :
    toLittleEndian bytes.length (littleEndian bytes) = bytes := by
  induction bytes with
  | nil => rfl
  | cons byte bytes ih =>
    show Fin.ofNat 256 (byte.val + 256 * littleEndian bytes) ::
      toLittleEndian bytes.length ((byte.val + 256 * littleEndian bytes) / 256) = _
    rw [show (byte.val + 256 * littleEndian bytes) / 256 = littleEndian bytes by omega, ih]
    refine congrArg (· :: bytes) (Fin.ext ?_)
    show (byte.val + 256 * littleEndian bytes) % 256 = byte.val
    omega

variable {first : Bytes}

/-- Byte strings of one length are told apart by the number they stand for. -/
theorem littleEndian_inj {second : Bytes} (sizes : first.length = second.length)
    (same : littleEndian first = littleEndian second) : first = second := by
  rw [← toLittleEndian_littleEndian first, ← toLittleEndian_littleEndian second, sizes, same]

/-- The `size` bytes from position `start`. -/
def field (bytes : Bytes) (start size : Nat) : Bytes :=
  (bytes.drop start).take size

variable {rest : Bytes}

theorem field_skip {start : Nat} (after : first.length ≤ start) :
    field (first ++ rest) start size = field rest (start - first.length) size := by
  unfold field
  rw [List.drop_append, List.drop_eq_nil_of_le after, List.nil_append]

theorem field_here (exact_ : first.length = size) : field (first ++ rest) 0 size = first := by
  unfold field
  rw [List.drop_zero, List.take_left' exact_]

/-- A field does not depend on what follows it. -/
theorem field_append {bytes : Bytes} {start : Nat} (inside : start + size ≤ bytes.length) :
    field (bytes ++ rest) start size = field bytes start size := by
  unfold field
  rw [List.drop_append_of_le_length (by omega), List.take_append_of_le_length (by simp; omega)]

/-- Cut into pieces of exactly `size` bytes; an incomplete last piece is dropped. -/
def chunksExact {α : Type} (size : Nat) (items : List α) : List (List α) :=
  (List.range (items.length / size)).map fun index => (items.drop (index * size)).take size

end Bytes
