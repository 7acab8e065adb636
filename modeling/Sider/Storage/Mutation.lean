/-
**Preparation, application and replay.**

A command is prepared on a shadow that holds only its own keys, under the full byte count and
mutation counter; the keys whose stamp changed become the batch, and `Store.apply` installs them.
`prepareExpiration` prepares one bounded cleanup round, `prepareReplay` a logged batch.
A `Prepared` also carries `fault`: whether the preparation would have panicked.
-/

import Sider.Storage.Execute

namespace Sider

/-! ### Resolved mutations -/

/-- Final state of one key. -/
inductive Mutation where
  | put (key : Bytes) (value : Value) (expiresAtUnixMs : Option Int)
  | delete (key : Bytes)
  deriving DecidableEq

def Mutation.key : Mutation → Bytes
  | put key .. => key
  | delete key => key

inductive MutationOrigin where
  | client
  | expiration
  deriving DecidableEq, Repr

structure ResolvedBatch where
  origin : MutationOrigin
  mutations : List Mutation
  deriving DecidableEq

/-- A prevalidated result, to be applied to the same store before any other mutation. -/
structure Prepared where
  reply : Reply
  batch : ResolvedBatch
  generation : Nat
  entries : List (Bytes × Option Image)
  fault : Bool

inductive ReplayError where
  | memory (error : MemoryError)
  | duplicateKey
  | quota
  | deadline
  deriving DecidableEq, Repr

/-- The mutation that a prepared entry stands for. -/
def Mutation.ofEntry (entry : Bytes × Option Image) : Mutation :=
  match entry.2 with
  | some image => .put entry.1 image.value image.expiresAtUnixMs
  | none => .delete entry.1

/-- Commands whose only possible effect is passive expiry. -/
def Command.readsOnly : Command → Bool
  | get _ | mGet _ | Command.exists _ | ttl .. => true
  | hash _ operation =>
    match operation with
    | .get _ | .exists _ | .len | .getAll => true
    | _ => false
  | list _ operation =>
    match operation with
    | .len | .range .. => true
    | _ => false
  | setCollection _ operation =>
    match operation with
    | .isMember _ | .card | .members => true
    | _ => false
  | sortedSet _ operation =>
    match operation with
    | .score _ | .card | .range .. => true
    | _ => false
  | _ => false

namespace Store

def prepared (s : Store) (reply : Reply) (entries : List (Bytes × Option Image))
    (origin : MutationOrigin) (fault : Bool) : Prepared where
  reply := reply
  batch := ⟨origin, entries.map Mutation.ofEntry⟩
  generation := s.generation
  entries := entries
  fault := fault

/-! ### Preparation of a command -/

/-- Copy an entry and its expiry event into a shadow. -/
def copyEntry (s : Store) (shadow : Store) (key : Bytes) : Store :=
  match s.values.get? key with
  | none => shadow
  | some entry =>
    { shadow with
      values := shadow.values.insert key entry
      expirations :=
        match entry.expiresAt with
        | some deadline => shadow.expirations.add (expiration deadline entry.generation key)
        | none => shadow.expirations }

/-- Copy an entry's member expiry events into a shadow. -/
def copyMembers (s : Store) (shadow : Store) (key : Bytes) : Store :=
  match s.values.get? key with
  | none => shadow
  | some entry =>
    { shadow with
      memberExpirations :=
        (entry.memberDeadlines.entries.map fun (id, deadline) =>
          memberExpiration deadline key id).foldl OrdMap.add shadow.memberExpirations }

/-- A store with no entry but the byte count and counter of `s`, and a clock of its own. -/
def blank (s : Store) (clock : Clock) : Store :=
  { withConfig s.config clock 0 with usedBytes := s.usedBytes, generation := s.generation }

/-- The shadow of a command: its keys only. -/
def shadow (s : Store) (keys : List Bytes) : Store :=
  keys.foldl s.copyEntry (s.blank s.clock)

/-- The stamp of a key's entry. -/
def stamp (s : Store) (key : Bytes) : Option Nat :=
  (s.values.get? key).map Entry.generation

/-- The keys whose stamp differs after the run, with their new images. -/
def changes (s after : Store) (keys : List Bytes) : List (Bytes × Option Image) :=
  (keys.filter fun key => s.stamp key ≠ after.stamp key).map fun key => (key, after.image? key)

def prepare (s : Store) (command : Command) : Prepared :=
  match command with
  | .memory .. =>
    s.prepared (.error (.memory "ERR memory commands require native preparation")) [] .client false
  | command =>
    let origin := if command.readsOnly then .expiration else .client
    let keys := (OrdMap.ofKeys command.visitKeys).keys
    let run := (executeInner command).run (s.shadow keys)
    s.prepared run.1 (s.changes run.2 keys) origin run.2.fault

/-! ### Application -/

def dropKey (s : Store) (key : Bytes) : Store :=
  { s with watches := s.watches.invalidate key }.removed key

def putEntry (s : Store) (entry : Bytes × Option Image) : Store :=
  match entry.2 with
  | some image => s.installEntry entry.1 image
  | none => s

/-- Install a prepared result: every key is dropped, then the new entries are added. -/
def apply (s : Store) (p : Prepared) : Store :=
  let started := { s with fault := s.fault || p.fault || s.generation ≠ p.generation }
  let dropped := (p.entries.map Prod.fst).foldl dropKey started
  p.entries.foldl putEntry dropped

/-- The store `apply` starts from: a stale or faulty result is recorded as a fault. -/
abbrev started (s : Store) (p : Prepared) : Store :=
  { s with fault := s.fault || p.fault || s.generation ≠ p.generation }

/-! ### Expiration rounds -/

/-- The due keys at the head of the expiry index whose event is current. -/
def dueKeys (s : Store) (budget : Nat) : List Bytes :=
  let due := (s.expirations.keys.take budget).takeWhile fun event => (ofLex event).1 ≤ s.clock.now
  let current := due.filter fun event =>
    let deadline := (ofLex event).1
    let generation := (ofLex (ofLex event).2).1
    let key := (ofLex (ofLex event).2).2
    (s.values.get? key).any fun entry =>
      entry.generation = generation && entry.expiresAt = some deadline
  current.map fun event => (ofLex (ofLex event).2).2

/-- Collect one due member unless the budget is spent or its key is being removed. -/
def collectMember (s : Store) (budget : Nat) (expired : List Bytes)
    (state : OrdMap Bytes (List Edit) × Nat) (event : MemberExpiration) :
    OrdMap Bytes (List Edit) × Nat :=
  let deadline := (ofLex event).1
  let key := (ofLex (ofLex event).2).1
  let id := (ofLex (ofLex event).2).2
  if budget ≤ state.2 then state
  else if key ∈ expired then state
  else if (s.values.get? key).any fun entry => entry.memberDeadlines.get? id = some deadline then
    (state.1.insert key ((state.1.get? key).getD [] ++ [.remove id]), state.2 + 1)
  else state

/-- The entry of a key without its collected members; `none` where the source would panic. -/
def withoutMembers (s : Store) (key : Bytes) (edits : List Edit) : Option (Bytes × Option Image) :=
  let edits := edits.mergeSort fun left right => left.id ≤ right.id
  (s.image? key).bind fun old =>
    old.value.asMemory.bind fun collection =>
      match collection.applyEdits collection.descriptor edits key with
      | .error _ => none
      | .ok candidate =>
        some (key, some { old with
          value := .memory candidate
          memberDeadlines := (edits.map Edit.id).foldl OrdMap.erase old.memberDeadlines })

/-- One bounded cleanup round: key tombstones, then member removals grouped by key. -/
def prepareExpiration (s : Store) (budget : Nat) : Prepared :=
  let budget := min budget maxEdits
  let expired := s.dueKeys budget
  let due := s.memberExpirations.keys.takeWhile fun event => (ofLex event).1 ≤ s.clock.now
  let (removals, events) := due.foldl (s.collectMember budget expired) (∅, expired.length)
  let edited := removals.entries.map fun entry => s.withoutMembers entry.1 entry.2
  s.prepared (.integer events) (expired.map (·, none) ++ edited.filterMap id) .expiration
    (edited.any Option.isNone)

/-! ### Replay -/

/-- Distinct keys, and the byte count without the entries they replace. -/
structure Released where
  keys : OrdSet Bytes
  used : Nat
  fault : Bool

def release (s : Store) (state : Released) (mutation : Mutation) : Except ReplayError Released :=
  if mutation.key ∈ state.keys then .error .duplicateKey
  else
    let keys := state.keys.add mutation.key
    match s.image? mutation.key with
    | none => .ok ⟨keys, state.used, state.fault⟩
    | some old =>
      match entryBytes mutation.key old.value with
      | none => .error .quota
      | some bytes => .ok ⟨keys, state.used - bytes, state.fault || state.used < bytes⟩

/-- The monotonic form of an absolute deadline that is still to be kept. -/
def replayDeadline (clock : Clock) : Option Int → Except ReplayError (Option Nat)
  | none => .ok none
  | some absolute =>
    match clock.monotonic absolute with
    | some deadline => .ok (some deadline)
    | none => .error .deadline

/-- An elapsed value that replay drops instead of restoring. -/
def elapsed (clock : Clock) (value : Value) (expiresAtUnixMs : Option Int) : Bool :=
  value.asMemory.isNone && expiresAtUnixMs.any (· ≤ clock.unixMs)

def replayCheck (key : Bytes) (value : Value) : Except ReplayError Unit :=
  match value with
  | .memory collection =>
    match collection.validateKey key with
    | .ok () => .ok ()
    | .error error => .error (.memory error)
  | _ => .ok ()

/-- The charge of a value added to a byte count. -/
def replayCharge (used : Nat) (key : Bytes) (value : Value) : Except ReplayError Nat :=
  match (entryBytes key value).bind (Machine.checkedAdd used) with
  | some used => .ok used
  | none => .error .quota

def replayMembers (s : Store) (key : Bytes) (value : Value) : Except ReplayError (OrdMap Bytes Nat) :=
  match s.resolveMemberDeadlines key value with
  | .ok deadlines => .ok deadlines
  | .error _ => .error .deadline

/-- Resolve one mutation to the entry it leaves, charging it to the byte count. -/
def replayEntry (s : Store) (state : Nat × List (Bytes × Option Image)) (mutation : Mutation) :
    Except ReplayError (Nat × List (Bytes × Option Image)) :=
  match mutation with
  | .delete key => .ok (state.1, state.2 ++ [(key, none)])
  | .put key value expiresAtUnixMs =>
    if elapsed s.clock value expiresAtUnixMs then .ok (state.1, state.2 ++ [(key, none)])
    else do
      replayCheck key value
      let expiresAt ← replayDeadline s.clock expiresAtUnixMs
      let used ← replayCharge state.1 key value
      let memberDeadlines ← s.replayMembers key value
      .ok (used, state.2 ++ [(key, some ⟨value, expiresAt, expiresAtUnixMs, memberDeadlines⟩)])

def prepareReplay (s : Store) (mutations : List Mutation) (origin : MutationOrigin) :
    Except ReplayError Prepared := do
  let released ← mutations.foldlM s.release ⟨∅, s.usedBytes, false⟩
  let (used, entries) ← mutations.foldlM s.replayEntry (released.used, [])
  if s.config.maxDatasetBytes < used then .error .quota
  else .ok (s.prepared .ok entries origin released.fault)

/-- Validate a whole logged batch, then apply it. -/
def replay (s : Store) (mutations : List Mutation) : Except ReplayError Store := do
  let p ← s.prepareReplay mutations .client
  .ok (s.apply p)

/-- Every entry in key order, with its absolute deadline. -/
def snapshot (s : Store) : List Mutation :=
  s.values.entries.map fun (key, entry) => .put key entry.value entry.expiresAtUnixMs

end Store

end Sider
