/-
**The store and its primitive operations.**

`Store` mirrors the owner's map: entries, the two expiry indexes, the byte count and the mutation
counter. Programs on it are `StoreM` programs over the primitives of this file (`lookup`, `remove`,
`insert`, `canReplace`, …), so that commands read as the source does.

A clock is a reading: the monotonic instant in nanoseconds, the wall clock in milliseconds and the
last instant the monotonic clock can represent. `fault` is not part of the source: it is raised where
the source would panic (an `expect` on `None`, a failed assertion, an integer underflow or overflow).
The mutation counter does not wrap, which is exact below `2 ^ 64` mutations.
-/

import Sider.Lib.StateProgram
import Sider.Storage.Value
import Sider.Storage.Watch

namespace Sider

/-! ### Clock and configuration -/

/-- One reading of the injectable clock. -/
structure Clock where
  now : Nat
  unixMs : Int
  horizon : Nat
  deriving DecidableEq, Repr

/-- Addition of a duration to an instant, when the sum is representable. -/
def Clock.checkedAdd (c : Clock) (instant nanoseconds : Nat) : Option Nat :=
  if instant + nanoseconds ≤ c.horizon then some (instant + nanoseconds) else none

def nanosPerMilli : Nat := 1000000

/-- A relative expiry in milliseconds, as a monotonic and an absolute deadline. -/
def Clock.deadline (c : Clock) (milliseconds : Int) (now : Nat) : Option (Nat × Int) := do
  let absolute ← Machine.toI64 (c.unixMs + milliseconds)
  let duration ← Machine.toU64 milliseconds
  let monotonic ← c.checkedAdd now (duration * nanosPerMilli)
  some (monotonic, absolute)

/-- The monotonic deadline of an absolute one: now if it has elapsed. -/
def Clock.monotonic (c : Clock) (absolute : Int) : Option Nat :=
  if absolute ≤ c.unixMs then some c.now
  else (Machine.toU64 (absolute - c.unixMs)).bind fun remaining =>
    c.checkedAdd c.now (remaining * nanosPerMilli)

/-- A dataset quota that the configuration check accepts. -/
structure StoreConfig where
  maxDatasetBytes : Nat
  positive : 0 < maxDatasetBytes
  representable : maxDatasetBytes ≤ Machine.isizeMax
  deriving DecidableEq

/-- A small dataset, for runs on fixed inputs. -/
def StoreConfig.kibibyte : StoreConfig := ⟨1024, by decide, by decide⟩

/-! ### Entries -/

/-- What an entry holds, apart from its mutation stamp. -/
structure Image where
  value : Value
  expiresAt : Option Nat
  expiresAtUnixMs : Option Int
  memberDeadlines : OrdMap Bytes Nat
  deriving DecidableEq

structure Entry extends Image where
  generation : Nat
  deriving DecidableEq

/-- Both deadlines of an entry. -/
def Image.expiry (image : Image) : Option (Nat × Int) :=
  match image.expiresAt, image.expiresAtUnixMs with
  | some monotonic, some absolute => some (monotonic, absolute)
  | _, _ => none

/-- The deadline of an entry has elapsed. -/
def Image.expired (image : Image) (now : Nat) : Bool :=
  image.expiresAt.any (· ≤ now)

/-- Expiry events, in deadline order. -/
abbrev Expiration := Nat ×ₗ Nat ×ₗ Bytes

/-- Member expiry events, in deadline order. -/
abbrev MemberExpiration := Nat ×ₗ Bytes ×ₗ Bytes

def expiration (deadline generation : Nat) (key : Bytes) : Expiration :=
  toLex (deadline, toLex (generation, key))

def memberExpiration (deadline : Nat) (key id : Bytes) : MemberExpiration :=
  toLex (deadline, toLex (key, id))

structure Store where
  values : OrdMap Bytes Entry
  expirations : OrdSet Expiration
  memberExpirations : OrdSet MemberExpiration
  generation : Nat
  clock : Clock
  config : StoreConfig
  usedBytes : Nat
  watches : Registry
  fault : Bool
  deriving DecidableEq

abbrev StoreM := StateM Store

namespace Store

/-- An empty store. -/
def withConfig (config : StoreConfig) (clock : Clock) (registry : Nat) : Store where
  values := ∅
  expirations := ∅
  memberExpirations := ∅
  generation := 0
  clock := clock
  config := config
  usedBytes := 0
  watches := Registry.new registry
  fault := false

/-- The store at another clock reading. -/
def atClock (s : Store) (clock : Clock) : Store :=
  { s with clock := clock }

/-- The image stored at a key. -/
def image? (s : Store) (key : Bytes) : Option Image :=
  (s.values.get? key).map Entry.toImage

/-- Charge of an entry that was accounted when it was installed. -/
def charge (key : Bytes) (value : Value) : Nat :=
  (entryBytes key value).getD 0

/-! ### Removal and installation -/

/-- Remove a present entry: its charge, its index events and its watchers. -/
def removeEntry (s : Store) (key : Bytes) (entry : Entry) : Store :=
  { s with
    values := s.values.erase key
    watches := s.watches.invalidate key
    generation := s.generation + 1
    usedBytes := s.usedBytes - charge key entry.value
    expirations :=
      match entry.expiresAt with
      | some deadline => s.expirations.erase (expiration deadline entry.generation key)
      | none => s.expirations
    memberExpirations :=
      (entry.memberDeadlines.entries.map fun (id, deadline) => memberExpiration deadline key id).foldl
        OrdMap.erase s.memberExpirations
    fault := s.fault || (entryBytes key entry.value).all (s.usedBytes < ·) }

def removed (s : Store) (key : Bytes) : Store :=
  match s.values.get? key with
  | none => s
  | some entry => s.removeEntry key entry

/-- Add an entry at an absent key, under a fresh stamp. -/
def addEntry (s : Store) (key : Bytes) (image : Image) : Store :=
  { s with
    values := s.values.insert key { image with generation := s.generation + 1 }
    generation := s.generation + 1
    usedBytes := s.usedBytes + charge key image.value
    expirations :=
      match image.expiresAt with
      | some deadline => s.expirations.add (expiration deadline (s.generation + 1) key)
      | none => s.expirations
    memberExpirations :=
      (image.memberDeadlines.entries.map fun (id, deadline) => memberExpiration deadline key id).foldl
        OrdMap.add s.memberExpirations
    fault := s.fault ||
      (entryBytes key image.value).all (fun bytes => Machine.word ≤ s.usedBytes + bytes) }

/-- Invalidate watchers, remove the previous entry and add the new one. -/
def installEntry (s : Store) (key : Bytes) (image : Image) : Store :=
  ({ s with watches := s.watches.invalidate key }.removed key).addEntry key image

/-! ### Member deadlines -/

/-- The monotonic deadline already kept for a member whose absolute deadline is unchanged. -/
def retainedDeadline (previous : Option Image) (id : Bytes) (absolute : Int) : Option Nat :=
  previous.bind fun image =>
    match image.value.asMemory.bind fun old => old.members.get? id with
    | some old =>
      if old.deadline = some absolute then image.memberDeadlines.get? id else none
    | none => none

/-- One monotonic deadline per member with an absolute one. -/
def resolveMember (clock : Clock) (previous : Option Image) (deadlines : OrdMap Bytes Nat)
    (entry : Bytes × Member) : Except MemoryError (OrdMap Bytes Nat) :=
  match entry.2.deadline with
  | none => .ok deadlines
  | some absolute =>
    match retainedDeadline previous entry.1 absolute with
    | some retained => .ok (deadlines.insert entry.1 retained)
    | none =>
      match clock.monotonic absolute with
      | some deadline => .ok (deadlines.insert entry.1 deadline)
      | none => .error .deadline

def resolveMemberDeadlines (s : Store) (key : Bytes) (value : Value) :
    Except MemoryError (OrdMap Bytes Nat) :=
  match value with
  | .memory collection =>
    collection.members.entries.foldlM (resolveMember s.clock (s.image? key)) ∅
  | _ => .ok ∅

/-! ### Quota -/

/-- Whether replacing the value at `key` keeps the store within its quota, or no larger. -/
def canReplace (s : Store) (key : Bytes) (value : Value) : Bool :=
  let old := ((s.image? key).bind fun image => entryBytes key image.value).getD 0
  let proposed := (entryBytes key value).bind fun new =>
    (Machine.checkedSub s.usedBytes old).bind fun rest => Machine.checkedAdd rest new
  proposed.any fun usage => usage ≤ s.config.maxDatasetBytes || usage ≤ s.usedBytes

/-- Store a value, with its member deadlines resolved first. -/
def inserted (s : Store) (key : Bytes) (value : Value) (expiry : Option (Nat × Int)) : Store :=
  match s.resolveMemberDeadlines key value with
  | .ok memberDeadlines =>
    s.installEntry key
      { value := value
        expiresAt := expiry.map Prod.fst
        expiresAtUnixMs := expiry.map Prod.snd
        memberDeadlines := memberDeadlines }
  | .error _ => { s with fault := true }

end Store

/-! ### Primitive programs -/

namespace StoreM

def lookup (key : Bytes) : StoreM (Option Image) := fun s => (s.image? key, s)

def remove (key : Bytes) : StoreM (Option Image) := fun s => (s.image? key, s.removed key)

def insert (key : Bytes) (value : Value) (expiry : Option (Nat × Int)) : StoreM Unit :=
  fun s => ((), s.inserted key value expiry)

def canReplace (key : Bytes) (value : Value) : StoreM Bool := fun s => (s.canReplace key value, s)

def clock : StoreM Clock := fun s => (s.clock, s)

def usedBytes : StoreM Nat := fun s => (s.usedBytes, s)

def maxDatasetBytes : StoreM Nat := fun s => (s.config.maxDatasetBytes, s)

/-- Resolve the monotonic deadlines of a value that is about to be stored. -/
def resolveMemberDeadlines (key : Bytes) (value : Value) :
    StoreM (Except MemoryError (OrdMap Bytes Nat)) :=
  fun s => (s.resolveMemberDeadlines key value, s)

/-- Record that the source would panic here. -/
def raiseWhen (condition : Bool) : StoreM Unit :=
  fun s => ((), { s with fault := s.fault || condition })

/-- Remove a key whose deadline has elapsed. -/
def expireKey (key : Bytes) (now : Nat) : StoreM Unit := do
  let image ← lookup key
  if image.any (Image.expired · now) then
    let _ ← remove key

end StoreM

end Sider
