/-
**A bounded queue with one reader.**

A channel is the list of what is pending in it. `trySend` refuses when `capacity` messages are pending, and
`drain` takes them all, in order (`drain_eq`).
-/

import Mathlib.Data.List.Basic

/-- What is pending in a bounded queue. -/
structure Channel (α : Type) where
  capacity : Nat
  pending : List α
  bounded : pending.length ≤ capacity
  deriving DecidableEq

namespace Channel

variable {α : Type} {message : α} {c next : Channel α}

def new (capacity : Nat) : Channel α :=
  ⟨capacity, [], Nat.zero_le _⟩

/-- There is room for one more message. -/
def hasRoom (c : Channel α) : Bool :=
  c.pending.length < c.capacity

def trySend (c : Channel α) (message : α) : Option (Channel α) :=
  if room : c.hasRoom then
    some ⟨c.capacity, c.pending ++ [message], by
      rw [List.length_append]
      exact of_decide_eq_true room⟩
  else none

def tryRecv : Channel α → Option (α × Channel α)
  | ⟨_, [], _⟩ => none
  | ⟨capacity, message :: rest, bounded⟩ => some (message, ⟨capacity, rest, Nat.le_of_succ_le bounded⟩)

/-- Receive until nothing is pending; each round takes one message. -/
def drainLoop : Nat → Channel α → List α → List α × Channel α
  | 0, c, received => (received, c)
  | rounds + 1, c, received =>
    match c.tryRecv with
    | some (message, c) => drainLoop rounds c (received ++ [message])
    | none => (received, c)

def drain (c : Channel α) : List α × Channel α :=
  drainLoop c.pending.length c []

/-- **Draining returns what was pending, in order, and leaves nothing pending.** -/
theorem drain_eq (c : Channel α) : c.drain = (c.pending, new c.capacity) := by
  have loop : ∀ (pending : List α) (capacity : Nat) (bounded : pending.length ≤ capacity)
      (received : List α),
      drainLoop pending.length ⟨capacity, pending, bounded⟩ received =
        (received ++ pending, new capacity) := by
    intro pending capacity
    induction pending with
    | nil => exact fun _ received => Prod.ext (List.append_nil _).symm rfl
    | cons message rest ih =>
      intro bounded received
      rw [List.append_cons]
      exact ih (Nat.le_of_succ_le bounded) (received ++ [message])
  exact loop c.pending c.capacity c.bounded []

theorem tryRecv_eq_some (received : c.tryRecv = some (message, next)) :
    c.pending = message :: next.pending ∧ next.capacity = c.capacity := by
  obtain ⟨capacity, _ | ⟨first, rest⟩, bounded⟩ := c
  · cases received
  · cases received
    exact ⟨rfl, rfl⟩

theorem tryRecv_eq_none : c.tryRecv = none ↔ c.pending = [] := by
  obtain ⟨capacity, _ | ⟨first, rest⟩, bounded⟩ := c
  · exact iff_of_true rfl rfl
  · exact iff_of_false nofun nofun

theorem trySend_eq_some (sent : c.trySend message = some next) :
    c.hasRoom = true ∧ next.pending = c.pending ++ [message] ∧ next.capacity = c.capacity := by
  unfold trySend at sent
  split_ifs at sent with room
  cases sent
  exact ⟨room, rfl, rfl⟩

theorem trySend_eq_none : c.trySend message = none ↔ c.hasRoom = false := by
  unfold trySend
  split_ifs with room
  · simp [room]
  · simpa using room

end Channel
