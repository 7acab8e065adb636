/-
**A lock that counts its guards.**

`RwLock` counts the shared guards it has given out and knows whether an exclusive one is out. Guards are
kept by the parties of a system, in queues and in running tasks; `Counts` says that the lock counts
exactly the guards they keep, so that an exclusive guard means that nobody keeps a shared one.
-/

import Mathlib.Tactic.Common

/-- The guards given out and not dropped yet. -/
structure RwLock where
  readers : Nat
  writer : Bool
  deriving DecidableEq, Repr

namespace RwLock

def free : RwLock := ⟨0, false⟩

def tryRead (l : RwLock) : Option RwLock :=
  if l.writer then none else some { l with readers := l.readers + 1 }

def tryWrite (l : RwLock) : Option RwLock :=
  if l.writer || l.readers ≠ 0 then none else some { l with writer := true }

/-- A guard that is held is copied. -/
def clone (l : RwLock) : RwLock := { l with readers := l.readers + 1 }

def dropReads (l : RwLock) (count : Nat) : RwLock := { l with readers := l.readers - count }

def dropWrite (l : RwLock) : RwLock := { l with writer := false }

/-- The lock counts the guards the parties keep, and an exclusive guard excludes shared ones. -/
structure Counts (l : RwLock) (shared : Nat) (exclusive : Bool) : Prop where
  readers : l.readers = shared
  writer : l.writer = exclusive
  excludes : exclusive = true → shared = 0

variable {l m : RwLock} {shared count : Nat} {exclusive : Bool}

theorem counts_free : Counts free 0 false := ⟨rfl, rfl, fun _ => rfl⟩

section

variable (counts : Counts l shared exclusive)

include counts

theorem Counts.tryRead (given : l.tryRead = some m) :
    exclusive = false ∧ Counts m (shared + 1) exclusive := by
  unfold RwLock.tryRead at given
  split_ifs at given with held
  cases given
  rw [counts.writer] at held
  have open_ : exclusive = false := by simpa using held
  exact ⟨open_, congrArg (· + 1) counts.readers, counts.writer, fun closed => by
    rw [open_] at closed
    cases closed⟩

theorem Counts.tryWrite (given : l.tryWrite = some m) :
    exclusive = false ∧ shared = 0 ∧ Counts m 0 true := by
  unfold RwLock.tryWrite at given
  split_ifs at given with held
  cases given
  rw [counts.writer, counts.readers] at held
  obtain ⟨open_, none⟩ : exclusive = false ∧ shared = 0 := by simpa using held
  exact ⟨open_, none, counts.readers.trans none, rfl, fun _ => rfl⟩

/-- While somebody keeps a shared guard, there is no exclusive one. -/
theorem Counts.open_of_pos (held : 0 < shared) : exclusive = false := by
  cases exclusive with
  | false => rfl
  | true => exact absurd (counts.excludes rfl) (Nat.ne_of_gt held)

theorem Counts.clone (held : 0 < shared) : Counts l.clone (shared + 1) exclusive :=
  ⟨congrArg (· + 1) counts.readers, counts.writer, fun closed => by
    rw [counts.open_of_pos held] at closed
    cases closed⟩

end

theorem Counts.dropReads (counts : Counts l (shared + count) exclusive) :
    Counts (l.dropReads count) shared exclusive := by
  refine ⟨?_, counts.writer, fun closed => ?_⟩
  · show l.readers - count = shared
    rw [counts.readers, Nat.add_sub_cancel]
  · exact Nat.eq_zero_of_add_eq_zero_right (counts.excludes closed)

theorem Counts.dropWrite (counts : Counts l shared exclusive) : Counts l.dropWrite shared false :=
  ⟨counts.readers, rfl, nofun⟩

end RwLock
