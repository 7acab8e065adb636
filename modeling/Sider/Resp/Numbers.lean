/-
**Numbers on the wire.**

The parsers of the decoder read digits one at a time and stop at the first overflow. `parseLength` and
`parseInteger` invert `Bytes.decimal`; what they read can also be written otherwise (a plus sign, leading
zeros, a negative zero), but never shorter than the decimal text.
-/

import Sider.Resp.Decoder

namespace Sider.Resp

variable {n : Nat} {digits bytes : Bytes} {value : I64}

theorem checkedAdd_eq_ok {left right sum : Nat} :
    checkedAdd left right = .ok sum ↔ left + right < Machine.word ∧ left + right = sum := by
  rw [← Machine.checkedAdd_eq_some]
  unfold checkedAdd
  cases Machine.checkedAdd left right <;> simp [limitExceeded]

/-- Read further digits behind a value. -/
def digitsFrom (start : Nat) (digits : Bytes) : Nat :=
  digits.foldl (fun value digit => value * 10 + (digit.val - 48)) start

theorem digitsFrom_zero (digits : Bytes) : digitsFrom 0 digits = Bytes.digitsValue digits := by
  rw [digitsFrom, Bytes.digitsValue]

theorem digitsFrom_cons (start : Nat) (digit : Byte) (digits : Bytes) :
    digitsFrom start (digit :: digits) = digitsFrom (start * 10 + (digit.val - 48)) digits := by
  rw [digitsFrom, digitsFrom, List.foldl_cons]

theorem le_digitsFrom (start : Nat) (digits : Bytes) : start ≤ digitsFrom start digits := by
  induction digits generalizing start with
  | nil => exact Nat.le_refl _
  | cons digit digits ih =>
    have rest := ih (start * 10 + (digit.val - 48))
    rw [digitsFrom_cons]
    omega

/-! ### Lengths -/

theorem lengthDigits_eq_ok {start : Nat} (small : start < Machine.word) :
    lengthDigits start digits = .ok n ↔
      (∀ digit ∈ digits, Bytes.isDigit digit = true) ∧ digitsFrom start digits = n ∧
        n < Machine.word := by
  induction digits generalizing start with
  | nil =>
    simp only [lengthDigits, Except.ok.injEq, digitsFrom, List.foldl_nil, List.not_mem_nil,
      false_implies, implies_true, true_and]
    exact ⟨fun same => ⟨same, same ▸ small⟩, fun both => both.1⟩
  | cons digit digits ih =>
    rw [lengthDigits, digitsFrom_cons, List.forall_mem_cons]
    cases isDigit : Bytes.isDigit digit with
    | false => simp [malformed]
    | true =>
      simp only [Bool.not_true, Bool.false_eq_true, if_false, true_and]
      by_cases fits : start * 10 + (digit.val - 48) < Machine.word
      · have next : (Machine.checkedMul start 10).bind (Machine.checkedAdd · (digit.val - 48)) =
            some (start * 10 + (digit.val - 48)) := by
          rw [Machine.checkedMul, if_pos (by omega), Option.bind_some, Machine.checkedAdd, if_pos fits]
        rw [next]
        exact ih fits
      · have next : (Machine.checkedMul start 10).bind (Machine.checkedAdd · (digit.val - 48)) =
            none := by
          rw [Machine.checkedMul]
          split
          · rw [Option.bind_some, Machine.checkedAdd, if_neg fits]
          · rfl
        rw [next]
        have grows := le_digitsFrom (start * 10 + (digit.val - 48)) digits
        refine iff_of_false (fun wrong => by cases wrong) ?_
        rintro ⟨_, same, small⟩
        omega

/-- **A length is a digit string that a `usize` holds.** -/
theorem parseLength_eq_some :
    parseLength bytes = .ok (some n) ↔ bytes ≠ [] ∧
      (∀ digit ∈ bytes, Bytes.isDigit digit = true) ∧ Bytes.digitsValue bytes = n ∧
        n < Machine.word := by
  unfold parseLength
  by_cases null : bytes = Bytes.ascii "-1"
  · rw [if_pos null]
    refine iff_of_false nofun ?_
    rintro ⟨_, digits, _⟩
    have minus : Bytes.isDigit 45 = true := digits 45 (by rw [null]; decide)
    cases minus
  rw [if_neg null]
  cases bytes with
  | nil => simp [malformed]
  | cons byte others =>
    simp only [List.isEmpty_cons, Bool.false_eq_true, if_false, bind_eq_ok_iff, Except.ok.injEq,
      Option.some.injEq]
    constructor
    · rintro ⟨value, read, rfl⟩
      obtain ⟨digits, same, fits⟩ := (lengthDigits_eq_ok (by decide)).mp read
      exact ⟨by simp, digits, same, fits⟩
    · rintro ⟨_, digits, same, fits⟩
      exact ⟨n, (lengthDigits_eq_ok (by decide)).mpr ⟨digits, same, fits⟩, rfl⟩

theorem parseLength_eq_none (null : parseLength bytes = .ok none) : bytes = Bytes.ascii "-1" := by
  unfold parseLength at null
  split at null
  · assumption
  · split at null
    · cases null
    · obtain ⟨_, _, wrong⟩ := bind_eq_ok_iff.mp null
      cases wrong

theorem parseLength_decimal (small : n < Machine.word) :
    parseLength (Bytes.decimal n) = .ok (some n) :=
  parseLength_eq_some.mpr ⟨Bytes.decimal_ne_nil n, fun _ member => Bytes.isDigit_of_mem_decimal member,
    Bytes.digitsValue_decimal n, small⟩

/-- A length is never written shorter than in decimal. -/
theorem length_of_parseLength (read : parseLength bytes = .ok (some n)) :
    (Bytes.decimal n).length ≤ bytes.length := by
  obtain ⟨some_, digits, rfl, _⟩ := parseLength_eq_some.mp read
  exact Bytes.length_decimal_le digits some_

/-! ### Integers -/

theorem I64.ofInt?_eq_some {value : Int} {result : I64} :
    I64.ofInt? value = some result ↔ result.val = value := by
  unfold I64.ofInt?
  split
  · rw [Option.some.injEq]
    exact ⟨fun same => same ▸ rfl, fun same => Subtype.ext same.symm⟩
  · rename_i range
    exact iff_of_false nofun fun same => range (same ▸ result.property)

theorem negatedDigits_eq_ok {start : I64} {magnitude : Nat} (negated : start.val = -magnitude) :
    negatedDigits start digits = .ok value ↔
      (∀ digit ∈ digits, Bytes.isDigit digit = true) ∧ value.val = -(digitsFrom magnitude digits) := by
  induction digits generalizing start magnitude with
  | nil =>
    simp only [negatedDigits, Except.ok.injEq, digitsFrom, List.foldl_nil, List.not_mem_nil,
      false_implies, implies_true, true_and]
    rw [← negated, ← Subtype.ext_iff, eq_comm]
  | cons digit digits ih =>
    rw [negatedDigits, digitsFrom_cons, List.forall_mem_cons]
    cases isDigit : Bytes.isDigit digit with
    | false => simp [malformed]
    | true =>
      have range : 48 ≤ digit.val := by
        simp only [Bytes.isDigit, Bool.and_eq_true, decide_eq_true_eq] at isDigit
        exact isDigit.1
      simp only [Bool.not_true, Bool.false_eq_true, if_false, true_and]
      cases next : (I64.ofInt? (start.val * 10)).bind fun value =>
          I64.ofInt? (value.val - (digit.val - 48)) with
      | some following =>
        obtain ⟨middle, first, second⟩ := Option.bind_eq_some_iff.mp next
        rw [I64.ofInt?_eq_some] at first second
        exact ih (by omega)
      | none =>
        -- the magnitude only grows, so no further digit brings it back into range
        refine iff_of_false nofun ?_
        rintro ⟨_, same⟩
        have grows := le_digitsFrom (magnitude * 10 + (digit.val - 48)) digits
        have lower := value.property.1
        have range : ∀ x : Int, -((magnitude * 10 + (digit.val - 48) : Nat) : Int) ≤ x → x ≤ 0 →
            Machine.IsI64 x := by
          intro x above below
          unfold Machine.i64Min at lower
          constructor
          · unfold Machine.i64Min
            omega
          · unfold Machine.i64Max
            omega
        have found : (I64.ofInt? (start.val * 10)).bind (fun value =>
            I64.ofInt? (value.val - (digit.val - 48))) =
            some ⟨start.val * 10 - (digit.val - 48), range _ (by omega) (by omega)⟩ :=
          Option.bind_eq_some_iff.mpr ⟨⟨start.val * 10, range _ (by omega) (by omega)⟩,
            I64.ofInt?_eq_some.mpr rfl, I64.ofInt?_eq_some.mpr rfl⟩
        rw [found] at next
        cases next

/-- The text after a minus sign. -/
theorem parseInteger_minus :
    parseInteger (45 :: digits) = .ok value ↔ digits ≠ [] ∧
      (∀ digit ∈ digits, Bytes.isDigit digit = true) ∧ value.val = -Bytes.digitsValue digits := by
  have zero : I64.zero.val = -((0 : Nat) : Int) := rfl
  unfold parseInteger
  cases digits with
  | nil => simp [malformed]
  | cons digit others =>
    simp only [List.head?_cons, true_or, if_true, List.tail_cons, List.isEmpty_cons,
      Bool.false_eq_true, if_false, bind_eq_ok_iff, Except.ok.injEq, exists_eq_right]
    rw [negatedDigits_eq_ok zero, digitsFrom_zero]
    simp

/-- Digits without a minus sign. -/
theorem negated_digits :
    (negatedDigits I64.zero digits >>= fun value =>
      match I64.ofInt? (-value.val) with
      | some value => .ok value
      | none => malformed "integer out of range") = .ok value ↔
      (∀ digit ∈ digits, Bytes.isDigit digit = true) ∧ value.val = Bytes.digitsValue digits := by
  have zero : I64.zero.val = -((0 : Nat) : Int) := rfl
  rw [bind_eq_ok_iff]
  constructor
  · rintro ⟨negative, read, turned⟩
    obtain ⟨digits_, same⟩ := (negatedDigits_eq_ok zero).mp read
    rw [digitsFrom_zero] at same
    cases positive : I64.ofInt? (-negative.val) with
    | none => rw [positive] at turned; cases turned
    | some found =>
      rw [positive] at turned
      cases turned
      rw [I64.ofInt?_eq_some] at positive
      exact ⟨digits_, by omega⟩
  · rintro ⟨digits_, same⟩
    have range : Machine.IsI64 (-Bytes.digitsValue digits) := by
      have upper := value.property.2
      unfold Machine.i64Max at upper
      constructor
      · unfold Machine.i64Min
        omega
      · unfold Machine.i64Max
        omega
    refine ⟨⟨-Bytes.digitsValue digits, range⟩, (negatedDigits_eq_ok zero).mpr ⟨digits_, rfl⟩, ?_⟩
    have turned : I64.ofInt? (- -(Bytes.digitsValue digits : Int)) = some value :=
      I64.ofInt?_eq_some.mpr (by omega)
    rw [turned]

/-- The text after a plus sign or without one. -/
theorem parseInteger_plus (unsigned : bytes.head? ≠ some 45)
    (same : digits = if bytes.head? = some 43 then bytes.tail else bytes) :
    parseInteger bytes = .ok value ↔ digits ≠ [] ∧
      (∀ digit ∈ digits, Bytes.isDigit digit = true) ∧ value.val = Bytes.digitsValue digits := by
  unfold parseInteger
  simp only [unsigned, false_or, if_false, ← same]
  cases empty : digits.isEmpty with
  | true => simp [List.isEmpty_iff.mp empty, malformed]
  | false =>
    have some_ : digits ≠ [] := fun nil => by simp [nil] at empty
    exact negated_digits.trans (and_iff_right some_).symm

theorem decimal_head (n : Nat) : (Bytes.decimal n).head? ≠ some 45 ∧
    (Bytes.decimal n).head? ≠ some 43 := by
  cases shape : Bytes.decimal n with
  | nil => exact absurd shape (Bytes.decimal_ne_nil n)
  | cons byte others =>
    have digit : Bytes.isDigit byte = true := by
      have member : byte ∈ Bytes.decimal n := by simp [shape]
      exact Bytes.isDigit_of_mem_decimal member
    constructor
    · intro same
      cases Option.some.inj same
      cases digit
    · intro same
      cases Option.some.inj same
      cases digit

/-- **An integer reads back.** -/
theorem parseInteger_decimal (value : I64) : parseInteger (Bytes.decimal value.val) = .ok value := by
  obtain ⟨n, same⟩ := Int.eq_nat_or_neg value.val
  rcases same with same | same
  · obtain ⟨unsigned, plain⟩ := decimal_head n
    rw [same, parseInteger_plus unsigned rfl, if_neg plain]
    exact ⟨Bytes.decimal_ne_nil n, fun _ => Bytes.isDigit_of_mem_decimal,
      by rw [Bytes.digitsValue_decimal, same]⟩
  · rcases Nat.eq_zero_or_pos n with rfl | positive
    · obtain ⟨unsigned, plain⟩ := decimal_head 0
      have zero : value.val = (0 : Nat) := by simpa using same
      rw [zero, parseInteger_plus unsigned rfl, if_neg plain]
      exact ⟨Bytes.decimal_ne_nil 0, fun _ => Bytes.isDigit_of_mem_decimal,
        by rw [Bytes.digitsValue_decimal, zero]⟩
    · rw [same, Bytes.decimal_neg positive, parseInteger_minus]
      exact ⟨Bytes.decimal_ne_nil n, fun _ => Bytes.isDigit_of_mem_decimal,
        by rw [Bytes.digitsValue_decimal, same]⟩

/-- An integer is never written shorter than in decimal. -/
theorem length_of_parseInteger (read : parseInteger bytes = .ok value) :
    (Bytes.decimal value.val).length ≤ bytes.length := by
  by_cases minus : bytes.head? = some 45
  · obtain ⟨digits, rfl⟩ : ∃ digits, bytes = 45 :: digits := by
      cases bytes with
      | nil => cases minus
      | cons byte digits => exact ⟨digits, by rw [Option.some.inj minus]⟩
    obtain ⟨some_, all, same⟩ := parseInteger_minus.mp read
    have shorter := Bytes.length_decimal_le all some_
    rcases Nat.eq_zero_or_pos (Bytes.digitsValue digits) with zero | positive
    · have written : Bytes.decimal value.val = Bytes.decimal (Bytes.digitsValue digits) := by
        rw [same, zero]
        rfl
      rw [written, List.length_cons]
      omega
    · rw [same, Bytes.decimal_neg positive, List.length_cons, List.length_cons]
      omega
  · obtain ⟨some_, all, same⟩ := (parseInteger_plus minus rfl).mp read
    have shorter := Bytes.length_decimal_le all some_
    rw [same]
    refine shorter.trans ?_
    split
    · rw [List.length_tail]
      omega
    · exact Nat.le_refl _

/-! ### No panic -/

theorem ok_bind {ε α β : Type} (value : α) (next : α → Except ε β) :
    (Except.ok value >>= next) = next value := rfl

theorem calm_bind {α β : Type} {first : Except Failure α} {next : α → Except Failure β}
    (calm : first ≠ .error .panic) (rest : ∀ value, next value ≠ .error .panic) :
    (first >>= next) ≠ .error .panic := by
  cases first with
  | error failure => exact fun wrong => calm (by cases wrong; rfl)
  | ok value => exact rest value

theorem checkedAdd_calm (left right : Nat) : checkedAdd left right ≠ .error .panic := by
  unfold checkedAdd
  split
  · simp
  · simp [limitExceeded]

theorem negatedDigits_calm (value : I64) (digits : Bytes) :
    negatedDigits value digits ≠ .error .panic := by
  induction digits generalizing value with
  | nil => exact nofun
  | cons digit digits ih =>
    rw [negatedDigits]
    split
    · exact nofun
    · split
      · exact ih _
      · exact nofun

theorem parseInteger_calm (bytes : Bytes) : parseInteger bytes ≠ .error .panic := by
  unfold parseInteger
  simp only
  generalize (if bytes.head? = some 45 ∨ bytes.head? = some 43 then bytes.tail else bytes) = digits
  split
  · exact nofun
  · refine calm_bind (negatedDigits_calm _ _) fun value => ?_
    split
    · exact nofun
    · split <;> exact nofun

theorem lengthDigits_calm (value : Nat) (digits : Bytes) : lengthDigits value digits ≠ .error .panic := by
  induction digits generalizing value with
  | nil => exact nofun
  | cons digit digits ih =>
    rw [lengthDigits]
    split
    · exact nofun
    · split
      · exact ih _
      · exact nofun

theorem parseLength_calm (bytes : Bytes) : parseLength bytes ≠ .error .panic := by
  unfold parseLength
  split
  · exact nofun
  split
  · exact nofun
  · exact calm_bind (lengthDigits_calm _ _) nofun

theorem parseBoolean_calm (bytes : Bytes) : parseBoolean bytes ≠ .error .panic := by
  unfold parseBoolean
  split
  · exact nofun
  split <;> exact nofun

theorem parseBoolean_eq_ok {value : Bool} (read : parseBoolean bytes = .ok value) :
    bytes = (Leaf.boolean value).content := by
  unfold parseBoolean at read
  split at read
  · cases read; assumption
  split at read
  · cases read; assumption
  · cases read

end Sider.Resp
