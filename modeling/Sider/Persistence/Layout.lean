/-
**The durable layout and the replication role.**

The number of shards and the version of the routing rule are part of every log; `quota` divides the
dataset quota among the shards. The role and epoch of a replicated log are published with it.
-/

import Sider.Storage.Routing

namespace Sider

inductive ConfigError where
  | invalidServerLimits (reason : String)
  deriving DecidableEq, Repr

def ShardRouter.new (count : Nat) : Except ConfigError ShardRouter :=
  if inside : 1 ≤ count ∧ count ≤ maxShards then .ok ⟨count, inside.1, inside.2⟩
  else .error (.invalidServerLimits "SIDER_SHARDS must be between 1 and 256")

def routingVersion : Nat := 1

structure DurableLayout where
  shardCount : Nat
  routingVersion : Nat
  deriving DecidableEq, Repr

namespace DurableLayout

def default : DurableLayout := ⟨1, Sider.routingVersion⟩

def validate (layout : DurableLayout) : Except ConfigError Unit := do
  let _ ← ShardRouter.new layout.shardCount
  if layout.routingVersion ≠ Sider.routingVersion then
    .error (.invalidServerLimits "unsupported AOF routing version")
  else .ok ()

def shardFor (layout : DurableLayout) (key : Bytes) : Except ConfigError Nat := do
  layout.validate
  let router ← ShardRouter.new layout.shardCount
  .ok (router.shardFor key)

def quota (layout : DurableLayout) (totalBytes shard : Nat) : Except ConfigError Nat := do
  layout.validate
  if totalBytes < layout.shardCount ∨ layout.shardCount ≤ shard then
    .error (.invalidServerLimits "total quota must reserve at least one byte per shard")
  else
    .ok (totalBytes / layout.shardCount + if shard < totalBytes % layout.shardCount then 1 else 0)

/-- A layout that passes its checks. -/
structure Valid (layout : DurableLayout) : Prop where
  positive : 1 ≤ layout.shardCount
  bounded : layout.shardCount ≤ maxShards
  version : layout.routingVersion = Sider.routingVersion

theorem valid_default : default.Valid := ⟨le_rfl, by decide, rfl⟩

theorem validate_eq_ok {layout : DurableLayout} : layout.validate = .ok () ↔ layout.Valid := by
  unfold validate ShardRouter.new
  by_cases inside : 1 ≤ layout.shardCount ∧ layout.shardCount ≤ maxShards
  · rw [dif_pos inside]
    by_cases version : layout.routingVersion = Sider.routingVersion
    · rw [if_neg (not_not_intro version)]
      exact ⟨fun _ => ⟨inside.1, inside.2, version⟩, fun _ => rfl⟩
    · rw [if_pos version]
      exact ⟨nofun, fun valid => absurd valid.version version⟩
  · rw [dif_neg inside]
    exact ⟨nofun, fun valid => absurd ⟨valid.positive, valid.bounded⟩ inside⟩

section

variable {layout : DurableLayout} (valid : layout.Valid)

include valid

/-- Every key has an owner. -/
theorem Valid.shardFor (key : Bytes) : ∃ shard < layout.shardCount, layout.shardFor key = .ok shard := by
  have router : ShardRouter.new layout.shardCount =
      .ok ⟨layout.shardCount, valid.positive, valid.bounded⟩ := dif_pos ⟨valid.positive, valid.bounded⟩
  refine ⟨_, ShardRouter.shardFor_lt ⟨layout.shardCount, valid.positive, valid.bounded⟩ key, ?_⟩
  unfold DurableLayout.shardFor
  rw [validate_eq_ok.mpr valid, router]
  rfl

/-- Every shard has a quota, if the first has one. -/
theorem Valid.quota {total first shard : Nat} (known : layout.quota total 0 = .ok first)
    (inside : shard < layout.shardCount) : ∃ quota, layout.quota total shard = .ok quota := by
  unfold DurableLayout.quota at known ⊢
  rw [validate_eq_ok.mpr valid] at known ⊢
  by_cases refused : total < layout.shardCount ∨ layout.shardCount ≤ 0
  · change (if _ then _ else _) = _ at known
    rw [if_pos refused] at known
    cases known
  · exact ⟨_, if_neg (by omega)⟩

end

end DurableLayout

/-! ### Replication -/

inductive Role where
  | primary
  | replica
  deriving DecidableEq, Repr

/-- The identity of a primary's history. -/
structure Epoch where
  bytes : Bytes
  sixteen : bytes.length = 16
  deriving DecidableEq

/-- Reserved for a replica that has not yet installed a snapshot. -/
def Epoch.zero : Epoch := ⟨List.replicate 16 0, rfl⟩

structure ReplicationMetadata where
  role : Role
  epoch : Epoch
  deriving DecidableEq

end Sider
