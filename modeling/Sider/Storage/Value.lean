/-
**Typed values and their logical size.**

* `SortedSet` — members and the score order, with the agreement of the two as a field.
* `Value.logicalBytes` — the checked charge of a value, as the store computes it; an empty
  collection has none. `entryBytes_eq` gives the charge of an entry in closed form: it exists
  exactly for a nonempty value of representable size, and is then `key + Value.size + 128`.
-/

import Sider.Command.Types

namespace Sider

/-! ### Sorted sets -/

/-- Member index and score order, kept in agreement. -/
structure SortedSet where
  members : OrdMap Bytes Score
  ordered : OrdSet (Score ×ₗ Bytes)
  consistent : ∀ score member,
    toLex (score, member) ∈ ordered ↔ members.get? member = some score
  deriving DecidableEq

namespace SortedSet

def empty : SortedSet := ⟨∅, ∅, by simp⟩

def len (z : SortedSet) : Nat := z.members.size

def isEmpty (z : SortedSet) : Bool := z.members.isEmpty

def get (z : SortedSet) (member : Bytes) : Option Score := z.members.get? member

/-- Scores and members in score order. -/
def iter (z : SortedSet) : List (Score × Bytes) :=
  z.ordered.keys.map ofLex

/-- The index without a member's current position. -/
def unlink (z : SortedSet) (member : Bytes) : OrdSet (Score ×ₗ Bytes) :=
  match z.members.get? member with
  | some previous => z.ordered.erase (toLex (previous, member))
  | none => z.ordered

theorem mem_unlink (z : SortedSet) (member other : Bytes) (score : Score) :
    toLex (score, other) ∈ z.unlink member ↔
      other ≠ member ∧ z.members.get? other = some score := by
  unfold unlink
  cases found : z.members.get? member with
  | none =>
    rw [z.consistent]
    refine ⟨fun hit => ⟨fun same => ?_, hit⟩, And.right⟩
    rw [same, found] at hit
    cases hit
  | some previous =>
    rw [OrdMap.mem_erase, z.consistent]
    constructor
    · rintro ⟨different, hit⟩
      refine ⟨fun same => ?_, hit⟩
      rw [same, found, Option.some.injEq] at hit
      exact different (by rw [same, hit])
    · rintro ⟨different, hit⟩
      refine ⟨fun same => different ?_, hit⟩
      exact (Prod.mk.inj (toLex_inj.mp same)).2

theorem consistent_insert (z : SortedSet) (member : Bytes) (score : Score) :
    ∀ other found, toLex (other, found) ∈ (z.unlink member).add (toLex (score, member)) ↔
      (z.members.insert member score).get? found = some other := by
  intro other found
  rw [OrdMap.mem_add, mem_unlink, OrdMap.get?_insert]
  by_cases same : found = member
  · subst same
    rw [if_pos rfl, toLex_inj, Prod.mk.injEq, Option.some.injEq]
    constructor
    · rintro (⟨scores, _⟩ | ⟨different, _⟩)
      · exact scores.symm
      · exact absurd rfl different
    · intro scores
      exact Or.inl ⟨scores.symm, rfl⟩
  · rw [if_neg same, toLex_inj, Prod.mk.injEq]
    constructor
    · rintro (⟨_, members⟩ | ⟨_, hit⟩)
      · exact absurd members same
      · exact hit
    · intro hit
      exact Or.inr ⟨same, hit⟩

theorem consistent_remove (z : SortedSet) (member : Bytes) :
    ∀ other found, toLex (other, found) ∈ z.unlink member ↔
      (z.members.erase member).get? found = some other := by
  intro other found
  rw [mem_unlink, OrdMap.get?_erase]
  by_cases same : found = member <;> simp [same]

/-- Whether the member was created, whether anything changed, and the new set. -/
def insert (z : SortedSet) (member : Bytes) (score : Score) : Bool × Bool × SortedSet :=
  let previous := z.members.get? member
  if previous = some score then (false, false, z)
  else (previous.isNone, true,
    ⟨z.members.insert member score, (z.unlink member).add (toLex (score, member)),
      z.consistent_insert member score⟩)

/-- Whether the member was there, and the set without it. -/
def remove (z : SortedSet) (member : Bytes) : Bool × SortedSet :=
  ((z.members.get? member).isSome,
    ⟨z.members.erase member, z.unlink member, z.consistent_remove member⟩)

end SortedSet

/-! ### Values -/

inductive Value where
  | string (value : Bytes)
  | hash (fields : OrdMap Bytes Bytes)
  | list (values : List Bytes)
  | set (members : OrdSet Bytes)
  | sortedSet (members : SortedSet)
  | memory (collection : Collection)
  deriving DecidableEq

namespace Value

def asString : Value → Option Bytes
  | string value => some value
  | _ => none

def asHash : Value → Option (OrdMap Bytes Bytes)
  | hash fields => some fields
  | _ => none

def asList : Value → Option (List Bytes)
  | list values => some values
  | _ => none

def asSet : Value → Option (OrdSet Bytes)
  | set members => some members
  | _ => none

def asSortedSet : Value → Option SortedSet
  | sortedSet members => some members
  | _ => none

def asMemory : Value → Option Collection
  | memory collection => some collection
  | _ => none

def hashParts (entry : Bytes × Bytes) : List Nat := [entry.1.length, entry.2.length, 64]

def listParts (value : Bytes) : List Nat := [value.length, 32]

def setParts (member : Bytes) : List Nat := [member.length, 64]

def sortedSetParts (entry : Score × Bytes) : List Nat := [entry.2.length, 96]

/-- Logical payload bytes; an empty collection is not a value. -/
def logicalBytes : Value → Option Nat
  | memory collection => some collection.logicalBytes
  | string value => some value.length
  | hash fields =>
    if fields.isEmpty then none else Machine.chargeAll hashParts 0 fields.entries
  | list values =>
    if values.isEmpty then none else Machine.chargeAll listParts 0 values
  | set members =>
    if members.isEmpty then none else Machine.chargeAll setParts 0 members.keys
  | sortedSet members =>
    if members.isEmpty then none else Machine.chargeAll sortedSetParts 0 members.iter

/-- The exact sum that `logicalBytes` checks. -/
def size : Value → Nat
  | memory collection => collection.logicalBytes
  | string value => value.length
  | hash fields => (fields.entries.map fun entry => (hashParts entry).sum).sum
  | list values => (values.map fun value => (listParts value).sum).sum
  | set members => (members.keys.map fun member => (setParts member).sum).sum
  | sortedSet members => (members.iter.map fun entry => (sortedSetParts entry).sum).sum

/-- No empty hash, list, set or sorted set. -/
def inhabited : Value → Bool
  | memory _ | string _ => true
  | hash fields => !fields.isEmpty
  | list values => !values.isEmpty
  | set members => !members.isEmpty
  | sortedSet members => !members.isEmpty

end Value

/-! ### The charge of an entry -/

/-- Fixed logical charge of an entry. -/
def entryOverheadBytes : Nat := 128

/-- The checked charge of a key and its value. -/
def entryBytes (key : Bytes) (value : Value) : Option Nat :=
  value.logicalBytes.bind fun payload =>
    (Machine.checkedAdd key.length payload).bind fun sum =>
      Machine.checkedAdd sum entryOverheadBytes

/-- The exact charge of a key and its value. -/
def entrySize (key : Bytes) (value : Value) : Nat :=
  key.length + value.size + entryOverheadBytes

theorem chargeAll_zero {α : Type} (parts : α → List Nat) (items : List α) :
    Machine.chargeAll parts 0 items =
      if (items.map fun item => (parts item).sum).sum < Machine.word then
        some (items.map fun item => (parts item).sum).sum else none := by
  have closed := Machine.chargeAll_eq parts (show 0 < Machine.word by decide) items
  rwa [Nat.zero_add] at closed

theorem Value.logicalBytes_bind (value : Value) (next : Nat → Option Nat)
    (large : ∀ payload, Machine.word ≤ payload → next payload = none) :
    value.logicalBytes.bind next = if value.inhabited then next value.size else none := by
  have checked : ∀ (empty : Bool) (total : Nat),
      ((if empty = true then none else if total < Machine.word then some total else none).bind
        next) = if (!empty) = true then next total else none := by
    intro empty total
    cases empty with
    | true => rfl
    | false =>
      by_cases fits : total < Machine.word
      · simp [fits]
      · simp [fits, large total (not_lt.mp fits)]
  cases value with
  | string value => rfl
  | memory collection => rfl
  | hash fields => rw [logicalBytes, chargeAll_zero]; exact checked fields.isEmpty _
  | list values => rw [logicalBytes, chargeAll_zero]; exact checked values.isEmpty _
  | set members => rw [logicalBytes, chargeAll_zero]; exact checked members.isEmpty _
  | sortedSet members => rw [logicalBytes, chargeAll_zero]; exact checked members.isEmpty _

/-- **The charge in closed form.** -/
theorem entryBytes_eq (key : Bytes) (value : Value) :
    entryBytes key value =
      if value.inhabited ∧ entrySize key value < Machine.word then some (entrySize key value)
      else none := by
  unfold entryBytes entrySize
  rw [Value.logicalBytes_bind]
  · by_cases inhabited : value.inhabited = true
    · simp only [inhabited, if_true, true_and, Machine.checkedAdd]
      by_cases first : key.length + value.size < Machine.word
      · rw [if_pos first, Option.bind_some]
      · rw [if_neg first, Option.bind_none, if_neg (by omega)]
    · simp [inhabited]
  · intro payload overflow
    rw [Machine.checkedAdd, if_neg (by omega), Option.bind_none]

theorem entryBytes_eq_some {key : Bytes} {value : Value} {charge : Nat} :
    entryBytes key value = some charge ↔
      value.inhabited ∧ entrySize key value < Machine.word ∧ entrySize key value = charge := by
  rw [entryBytes_eq]
  split_ifs with fits
  · simp [fits.1, fits.2]
  · constructor
    · intro none
      cases none
    · rintro ⟨inhabited, small, _⟩
      exact absurd ⟨inhabited, small⟩ fits

end Sider
