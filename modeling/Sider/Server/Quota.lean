/-
**The quota of a server is divided among its shards.**

Every shard gets the whole part of the division, and the first ones a byte of the remainder, so that
nothing is lost (`sum_shardQuota`).
-/

import Mathlib.Algebra.BigOperators.Intervals
import Mathlib.Algebra.Order.BigOperators.Group.Finset
import Sider.Persistence.Layout

namespace Sider

/-- The quota of the store of a shard. -/
def shardQuota (maxDatasetBytes shards index : Nat) : Nat :=
  maxDatasetBytes / shards + if index < maxDatasetBytes % shards then 1 else 0

variable {maxDatasetBytes shards : Nat}

/-- **The quotas of the shards add up to the quota of the server.** -/
theorem sum_shardQuota (positive : 0 < shards) :
    ∑ index ∈ Finset.range shards, shardQuota maxDatasetBytes shards index = maxDatasetBytes := by
  have extra : ∑ index ∈ Finset.range shards, (if index < maxDatasetBytes % shards then 1 else 0) =
      maxDatasetBytes % shards := by
    have inside : (Finset.range shards).filter (· < maxDatasetBytes % shards) =
        Finset.range (maxDatasetBytes % shards) := by
      have small := Nat.mod_lt maxDatasetBytes positive
      ext index
      simp only [Finset.mem_filter, Finset.mem_range]
      omega
    rw [← Finset.sum_filter, inside]
    simp
  unfold shardQuota
  rw [Finset.sum_add_distrib, extra, Finset.sum_const, Finset.card_range]
  exact Nat.div_add_mod maxDatasetBytes shards

end Sider
