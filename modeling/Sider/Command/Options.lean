/-
**Command options and numbers shared by the parser and the store.**
-/

import Sider.Lib.Bytes
import Sider.Lib.Machine

namespace Sider

/-- Existence condition checked before a value is replaced. -/
inductive SetCondition where
  | always
  | missing
  | present
  deriving DecidableEq, Repr

/-- Time policy of SET, resolved at execution; a duration is in nanoseconds. -/
inductive SetExpiry where
  | persistent
  | keep
  | after (duration : Nat)
  deriving DecidableEq, Repr

structure SetOptions where
  condition : SetCondition := .always
  expiry : SetExpiry := .persistent
  returnPrevious : Bool := false
  deriving DecidableEq, Repr

inductive ExpiryUnit where
  | seconds
  | milliseconds
  deriving DecidableEq, Repr

/-- A canonical decimal `i64`: no leading zero, no plus sign, no negative zero. -/
def parseDecimal (value : Bytes) : Option Int :=
  if value = Bytes.ascii "0" then some 0 else
  let minus := value.head? = some 45
  let digits := if minus then value.tail else value
  if digits.head?.any (fun b => 49 ≤ b.val && b.val ≤ 57) && digits.all Bytes.isDigit then
    Machine.toI64 (if minus then -(Bytes.digitsValue digits) else Bytes.digitsValue digits)
  else none

example : parseDecimal (Bytes.ascii "-9223372036854775808") = some (-9223372036854775808) := by
  decide

end Sider
