/-
**Replay under the durable layout.**

A logged batch is replayed into one store that stands for all shards; the bytes of each shard are
counted beside it. A batch belongs to one shard, unless the profile allows several owners, and no shard
may pass its quota. Nothing changes unless the whole batch is accepted.
-/

import Sider.Storage.MemoryLifecycle
import Sider.Persistence.Layout

namespace Sider

inductive AofError where
  | config (error : ConfigError)
  | io
  | format (error : FormatError)
  | replay (error : ReplayError)
  | locked
  | unavailable
  | sequence
  | compacting
  | deltaLimit
  | layoutMismatch (expected actual : DurableLayout)
  | crossShard
  | shardQuota (shard used quota : Nat)
  | migration (reason : String)
  deriving DecidableEq, Repr

/-- The bytes that an image of a key is charged for. -/
def imageBytes (key : Bytes) : Option Image → Except ReplayError Nat
  | none => .ok 0
  | some image =>
    match entryBytes key image.value with
    | some bytes => .ok bytes
    | none => .error .quota

/-- The bytes of each key of a candidate, before and after it. -/
def Prepared.usageDeltas (p : Prepared) (s : Store) : Except ReplayError (List (Bytes × Nat × Nat)) :=
  p.entries.mapM fun entry => do
    let before ← imageBytes entry.1 (s.image? entry.1)
    let after ← imageBytes entry.1 entry.2
    .ok (entry.1, before, after)

/-- Check the owner of a mutation against the owner of those before it. -/
def routeMutation (layout : DurableLayout) (allowMixed : Bool) (selected : Option Nat)
    (mutation : MemoryMutation) : Except AofError (Option Nat) := do
  let shard ← (layout.shardFor mutation.key).mapError .config
  if !allowMixed && selected.any (· ≠ shard) then .error .crossShard
  else .ok (some shard)

/-- Charge one key to the projected usage of its shard. -/
def projectUsage (layout : DurableLayout) (usage : List Nat) (projected : OrdMap Nat Nat)
    (delta : Bytes × Nat × Nat) : Except AofError (OrdMap Nat Nat) := do
  let shard ← (layout.shardFor delta.1).mapError .config
  let used := (projected.get? shard).getD (usage.getD shard 0)
  match (Machine.checkedSub used delta.2.1).bind (Machine.checkedAdd · delta.2.2) with
  | some used => .ok (projected.insert shard used)
  | none => .error (.replay .quota)

def checkShardQuota (layout : DurableLayout) (total : Nat) (entry : Nat × Nat) :
    Except AofError Unit := do
  let quota ← (layout.quota total entry.1).mapError .config
  if quota < entry.2 then .error (.shardQuota entry.1 entry.2 quota) else .ok ()

/-- One store for all shards, and the usage of each. -/
structure Routed where
  store : Store
  usage : List Nat

def replayRoutedMemory (layout : DurableLayout) (total : Nat) (allowMixed : Bool) (state : Routed)
    (mutations : List MemoryMutation) : Except AofError Routed := do
  let _ ← mutations.foldlM (routeMutation layout allowMixed) none
  let prepared ← (state.store.prepareMemoryReplay mutations .client).mapError .replay
  let deltas ← (prepared.usageDeltas state.store).mapError .replay
  let projected ← deltas.foldlM (projectUsage layout state.usage) ∅
  projected.entries.forM (checkShardQuota layout total)
  .ok ⟨state.store.apply prepared,
    projected.entries.foldl (fun usage entry => usage.set entry.1 entry.2) state.usage⟩

end Sider
