/-
**The images of all shards.**

`frozen` is what a snapshot of the whole node captures: the entries of every store, in key order. When
every store holds keys of its own, no key is listed twice (`frozen_sorted`), the entries are those of the
stores (`mem_frozen`), and together they are charged what the stores are (`frozen_charge`).
-/

import Mathlib.Algebra.BigOperators.Intervals
import Sider.Storage.Coordinator
import Sider.Storage.Dataset

namespace Sider

open Store

/-- The charge of an entry of a snapshot. -/
def Mutation.charge : Mutation → Nat
  | .put key value _ => entrySize key value
  | .delete _ => 0

/-- The entries of every store, in key order. -/
def frozen (router : ShardRouter) (stores : Nat → Store) : List Mutation :=
  Coordinator.sortedByKey ((List.range router.count).flatMap fun shard => (stores shard).snapshot)

section Frozen

variable {router : ShardRouter} {stores : Nat → Store}

theorem frozen_perm (router : ShardRouter) (stores : Nat → Store) :
    (frozen router stores).Perm
      ((List.range router.count).flatMap fun shard => (stores shard).snapshot) :=
  List.perm_insertionSort _ _

theorem mem_frozen {mutation : Mutation} :
    mutation ∈ frozen router stores ↔
      ∃ shard < router.count, mutation ∈ (stores shard).snapshot := by
  rw [(frozen_perm router stores).mem_iff]
  simp only [List.mem_flatMap, List.mem_range]

theorem key_of_mem_snapshot {s : Store} {mutation : Mutation} (member : mutation ∈ s.snapshot) :
    mutation.key ∈ s.values := by
  obtain ⟨⟨key, entry⟩, stored, rfl⟩ := List.mem_map.mp member
  exact OrdMap.mem_iff.mpr ⟨entry, OrdMap.get?_eq_some_iff.mpr stored⟩

/-- Every key is listed once, in order. -/
theorem frozen_sorted
    (routed : ∀ shard < router.count, ∀ key ∈ (stores shard).values, router.shardFor key = shard) :
    ((frozen router stores).map Mutation.key).Pairwise (· < ·) := by
  have nodup : ((frozen router stores).map Mutation.key).Nodup := by
    refine ((frozen_perm router stores).map Mutation.key).nodup_iff.mpr ?_
    rw [List.map_flatMap, List.nodup_flatMap]
    refine ⟨fun shard _ => (snapshot_sorted (stores shard)).imp ne_of_lt, ?_⟩
    refine List.nodup_range.imp_of_mem fun {one other} here there differ key first second => differ ?_
    obtain ⟨mutation, inside, rfl⟩ := List.mem_map.mp first
    obtain ⟨twin, within, same⟩ := List.mem_map.mp second
    rw [← routed one (List.mem_range.mp here) _ (key_of_mem_snapshot inside), ← same,
      routed other (List.mem_range.mp there) _ (key_of_mem_snapshot within)]
  have ordered : ((frozen router stores).map Mutation.key).Pairwise (· ≤ ·) :=
    List.pairwise_map.mpr (List.pairwise_insertionSort _ _)
  exact (ordered.and nodup).imp fun both => lt_of_le_of_ne both.1 both.2

theorem snapshot_charge (s : Store) : (s.snapshot.map Mutation.charge).sum = s.charged := by
  unfold snapshot charged OrdMap.total
  rw [List.map_map]
  rfl

/-- The entries are charged what the stores are. -/
theorem frozen_charge (router : ShardRouter) (stores : Nat → Store) :
    ((frozen router stores).map Mutation.charge).sum =
      ∑ shard ∈ Finset.range router.count, (stores shard).charged := by
  rw [((frozen_perm router stores).map Mutation.charge).sum_eq, List.map_flatMap, List.flatMap_def,
    List.sum_flatten, List.map_map]
  exact congrArg List.sum (List.map_congr_left fun shard _ => snapshot_charge (stores shard))

end Frozen

end Sider
