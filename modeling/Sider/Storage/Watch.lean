/-
**Watch registry and tokens.**

A registry maps a watched key to a flag shared by every token of that key. Flags live in `cells`,
with the number of tokens that hold each one; a cell whose last token is dropped is gone, which is
what a failed upgrade of the source's weak reference observes. `id` stands for the identity of the
registry, so a token of another registry is recognised.
-/

import Sider.Lib.OrdMap
import Sider.Lib.Bytes

namespace Sider

/-- A flag shared by the tokens of one observation of a key. -/
structure WatchCell where
  changed : Bool
  tokens : Nat
  deriving DecidableEq, Repr

structure Registry where
  id : Nat
  entries : OrdMap Bytes Nat
  cells : OrdMap Nat WatchCell
  next : Nat
  deriving DecidableEq

/-- An observation owned by a connection. -/
structure WatchToken where
  key : Bytes
  cell : Nat
  deadline : Option Nat
  registry : Nat
  deriving DecidableEq, Repr

namespace Registry

def new (id : Nat) : Registry := ⟨id, ∅, ∅, 0⟩

/-- The live flag registered for a key. -/
def upgrade (r : Registry) (key : Bytes) : Option (Nat × WatchCell) :=
  (r.entries.get? key).bind fun cell => (r.cells.get? cell).map fun state => (cell, state)

/-- A token on the key's live flag, or on a fresh one. -/
def token (r : Registry) (key : Bytes) (deadline : Option Nat) : WatchToken × Registry :=
  match r.upgrade key with
  | some (cell, state) =>
    (⟨key, cell, deadline, r.id⟩,
      { r with cells := r.cells.insert cell { state with tokens := state.tokens + 1 } })
  | none =>
    (⟨key, r.next, deadline, r.id⟩,
      { r with
        entries := r.entries.insert key r.next
        cells := r.cells.insert r.next ⟨false, 1⟩
        next := r.next + 1 })

/-- Forget the key and raise its flag for the tokens that hold it. -/
def invalidate (r : Registry) (key : Bytes) : Registry :=
  match r.upgrade key with
  | some (cell, state) =>
    { r with
      entries := r.entries.erase key
      cells := r.cells.insert cell { state with changed := true } }
  | none => { r with entries := r.entries.erase key }

/-- Dropping the last token of a flag releases it, and its key if still registered. -/
def drop (r : Registry) (t : WatchToken) : Registry :=
  match r.cells.get? t.cell with
  | none => r
  | some state =>
    if state.tokens = 1 then
      { r with
        entries := if r.entries.get? t.key = some t.cell then r.entries.erase t.key else r.entries
        cells := r.cells.erase t.cell }
    else { r with cells := r.cells.insert t.cell { state with tokens := state.tokens - 1 } }

/-- The flag of a token has been raised. -/
def invalidated (r : Registry) (t : WatchToken) : Bool :=
  (r.cells.get? t.cell).any WatchCell.changed

/-- Raised, or past the token's own deadline. -/
def changed (r : Registry) (t : WatchToken) (now : Nat) : Bool :=
  r.invalidated t || t.deadline.any (· ≤ now)

end Registry

end Sider
