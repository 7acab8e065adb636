/-
**Routed replay counts the bytes of every shard exactly.**

`usedBy mine s` is what the store is charged for the keys that satisfy `mine`. Applying an admissible
result changes it by the charges of those keys before and after (`usedBy_apply`), and this is what the
projection of a batch computes key by key (`foldlM_projectUsage`).

`replayRouted` is the replay with its writes in the order of the source. It ends as the pure
`replayRoutedMemory` does (`replayRouted_run`): an error leaves the store and the usage as they were.

`replayRouted_exact`: from an exact usage, a batch is refused without effect, or applied as a whole with
the usage exact again. The quota is checked of the shards that own a key of the batch, and only of those: a
shard above its quota stays there under a batch that does not touch it
(`replayRouted_leaves_shard_above_quota`).
-/

import Mathlib.Algebra.BigOperators.Group.List.Basic
import Mathlib.Algebra.BigOperators.Group.Finset.Basic
import Mathlib.Algebra.Order.BigOperators.Group.Finset
import Sider.Lib.FailingProgram
import Sider.Persistence.RoutedReplay
import Sider.Storage.Dataset

namespace Sider

open Store

variable {key : Bytes} {s : Store} {entries : List (Bytes × Option Image)}
  {deltas : List (Bytes × Nat × Nat)} {p : Prepared} {mine : Bytes → Bool} {keys : List Bytes}
  {layout : DurableLayout} {usage : List Nat} {shard total : Nat}

/-! ### The bytes of some keys -/

namespace Store

/-- What the store is charged for the keys that satisfy `mine`. -/
def usedBy (mine : Bytes → Bool) (s : Store) : Nat :=
  heldAll s (s.values.keys.filter mine)

theorem held_eq_zero (absent : key ∉ s.values.keys) : s.held key = 0 :=
  held_of_none (OrdMap.get?_eq_none_iff.mpr fun member => absent (OrdMap.mem_keys.mpr member))

theorem heldAll_eq_sum (nodup : keys.Nodup) : heldAll s keys = ∑ key ∈ keys.toFinset, s.held key :=
  (List.sum_toFinset _ nodup).symm

/-- Any list of distinct keys that covers the store counts the same bytes. -/
theorem usedBy_eq (mine : Bytes → Bool) (covers : ∀ key ∈ s.values.keys, key ∈ keys) :
    usedBy mine s = ∑ key ∈ (keys.filter mine).toFinset, s.held key := by
  unfold usedBy
  rw [heldAll_eq_sum (s.values.nodup_keys.filter _)]
  refine Finset.sum_subset (fun key member => ?_) fun key inside outside => held_eq_zero fun held => ?_
  · obtain ⟨held, own⟩ := List.mem_filter.mp (List.mem_toFinset.mp member)
    exact List.mem_toFinset.mpr (List.mem_filter.mpr ⟨covers key held, own⟩)
  · have own := (List.mem_filter.mp (List.mem_toFinset.mp inside)).2
    exact outside (List.mem_toFinset.mpr (List.mem_filter.mpr ⟨held, own⟩))

/-- Distinct keys are charged for no more than all. -/
theorem heldAll_le_usedBy (mine : Bytes → Bool) (nodup : keys.Nodup) :
    heldAll s (keys.filter mine) ≤ usedBy mine s := by
  rw [usedBy_eq mine fun key member => List.mem_append_right keys member, heldAll_eq_sum (nodup.filter _)]
  refine Finset.sum_le_sum_of_subset fun key member => ?_
  obtain ⟨listed, own⟩ := List.mem_filter.mp (List.mem_toFinset.mp member)
  exact List.mem_toFinset.mpr (List.mem_filter.mpr ⟨List.mem_append_left _ listed, own⟩)

theorem usedBytes_eq (holds : Sound 0 s) : s.usedBytes = usedBy (fun _ => true) s := by
  rw [holds.used, Nat.zero_add, usedBy, List.filter_true]
  exact charged_eq_heldAll s.values.nodup_keys fun _ => OrdMap.mem_keys.mpr

theorem usedBy_le_usedBytes (holds : Sound 0 s) (mine : Bytes → Bool) : usedBy mine s ≤ s.usedBytes := by
  rw [usedBytes_eq holds, usedBy, usedBy, List.filter_true]
  exact (List.filter_sublist.map s.held).sum_le_sum fun _ _ => Nat.zero_le _

variable (nodup : (p.entries.map Prod.fst).Nodup)

include nodup

theorem held_apply_of_mem {entry : Bytes × Option Image} (member : entry ∈ p.entries) :
    (s.apply p).held entry.1 = entryCharge entry := by
  unfold held entryCharge
  rw [image?_apply _ _ nodup, OrdMap.find_eq_some_of_mem nodup member]
  rfl

theorem held_apply_of_not_mem (absent : key ∉ p.entries.map Prod.fst) :
    (s.apply p).held key = s.held key := by
  unfold held
  rw [image?_apply_of_not_mem nodup absent]

theorem keys_apply (member : key ∈ (s.apply p).values.keys) :
    key ∈ s.values.keys ∨ key ∈ p.entries.map Prod.fst := by
  by_cases own : key ∈ p.entries.map Prod.fst
  · exact .inr own
  refine .inl ?_
  obtain ⟨entry, found⟩ := OrdMap.mem_iff.mp (OrdMap.mem_keys.mp member)
  have image := image?_apply_of_not_mem (s := s) nodup own
  rw [image?_eq_some.mpr ⟨entry, found, rfl⟩] at image
  obtain ⟨before, held, _⟩ := image?_eq_some.mp image.symm
  exact OrdMap.mem_keys.mpr (OrdMap.mem_iff.mpr ⟨before, held⟩)

/-- **The bytes of some keys after a result is applied.** -/
theorem usedBy_apply :
    usedBy mine (s.apply p) + heldAll s ((p.entries.map Prod.fst).filter mine) =
      usedBy mine s + entriesCharge (p.entries.filter fun entry => mine entry.1) := by
  -- Both stores are counted over the keys of either.
  have before := usedBy_eq (s := s) mine fun key member =>
    List.mem_append_left (p.entries.map Prod.fst) member
  have after := usedBy_eq (s := s.apply p) mine fun key member =>
    List.mem_append.mpr (keys_apply nodup member)
  have inside : ((p.entries.map Prod.fst).filter mine).toFinset ⊆
      ((s.values.keys ++ p.entries.map Prod.fst).filter mine).toFinset := fun key member => by
    obtain ⟨touched, own⟩ := List.mem_filter.mp (List.mem_toFinset.mp member)
    exact List.mem_toFinset.mpr (List.mem_filter.mpr ⟨List.mem_append_right _ touched, own⟩)
  have touched : ∑ key ∈ ((p.entries.map Prod.fst).filter mine).toFinset, (s.apply p).held key =
      entriesCharge (p.entries.filter fun entry => mine entry.1) := by
    rw [List.sum_toFinset _ (nodup.filter _), List.filter_map, List.map_map]
    refine congrArg List.sum (List.map_congr_left fun entry member => ?_)
    exact held_apply_of_mem nodup (List.mem_filter.mp member).1
  have rest : ∑ key ∈ ((s.values.keys ++ p.entries.map Prod.fst).filter mine).toFinset \
        ((p.entries.map Prod.fst).filter mine).toFinset, (s.apply p).held key =
      ∑ key ∈ ((s.values.keys ++ p.entries.map Prod.fst).filter mine).toFinset \
        ((p.entries.map Prod.fst).filter mine).toFinset, s.held key := by
    refine Finset.sum_congr rfl fun key member => held_apply_of_not_mem nodup fun own => ?_
    obtain ⟨listed, outside⟩ := Finset.mem_sdiff.mp member
    have shard := (List.mem_filter.mp (List.mem_toFinset.mp listed)).2
    exact outside (List.mem_toFinset.mpr (List.mem_filter.mpr ⟨own, shard⟩))
  rw [before, after, ← Finset.sum_sdiff inside, ← Finset.sum_sdiff inside, touched, rest,
    heldAll_eq_sum (nodup.filter _)]
  omega

end Store

/-! ### The projection -/

section Projection

/-- The shard owns the key. -/
def owns (layout : DurableLayout) (shard : Nat) (key : Bytes) : Bool :=
  layout.shardFor key = .ok shard

/-- The projected usage of a shard, which is its usage until a key of it is seen. -/
def projectedUsage (usage : List Nat) (projected : OrdMap Nat Nat) (shard : Nat) : Nat :=
  (projected.get? shard).getD (usage.getD shard 0)

theorem imageBytes_ok {image : Option Image} {bytes : Nat} (ok : imageBytes key image = .ok bytes) :
    bytes = entryCharge (key, image) := by
  cases image with
  | none => exact (Except.ok.inj ok).symm
  | some image =>
    unfold imageBytes at ok
    dsimp only at ok
    cases known : entryBytes key image.value with
    | none =>
      rw [known] at ok
      cases ok
    | some size =>
      rw [known] at ok
      cases ok
      exact (entryBytes_eq_some.mp known).2.2.symm

/-- The deltas of a result are the charges of its keys. -/
theorem usageDeltas_ok (ok : p.usageDeltas s = .ok deltas) :
    deltas = p.entries.map fun entry => (entry.1, s.held entry.1, entryCharge entry) := by
  unfold Prepared.usageDeltas at ok
  generalize p.entries = entries at ok
  induction entries generalizing deltas with
  | nil =>
    exact (Except.ok.inj ok).symm
  | cons entry rest ih =>
    rw [List.mapM_cons] at ok
    obtain ⟨delta, head, ok⟩ := bind_eq_ok ok
    obtain ⟨later, tail, same⟩ := bind_eq_ok ok
    cases same
    obtain ⟨before, known, head⟩ := bind_eq_ok head
    obtain ⟨after, charge, same⟩ := bind_eq_ok head
    cases same
    rw [ih tail, imageBytes_ok known, imageBytes_ok charge, List.map_cons]
    rfl

theorem projectUsage_ok {projected next : OrdMap Nat Nat} {delta : Bytes × Nat × Nat}
    (ok : projectUsage layout usage projected delta = .ok next) :
    ∃ own used, layout.shardFor delta.1 = .ok own ∧ next = projected.insert own used ∧
      used + delta.2.1 = projectedUsage usage projected own + delta.2.2 := by
  obtain ⟨own, routed, ok⟩ := bind_eq_ok ok
  dsimp only at ok
  split at ok
  · rename_i used changed
    obtain ⟨less, subtracted, added⟩ := Option.bind_eq_some_iff.mp changed
    refine ⟨own, used, mapError_eq_ok.mp routed, (Except.ok.inj ok).symm, ?_⟩
    obtain ⟨enough, rest⟩ := Machine.checkedSub_eq_some.mp subtracted
    obtain ⟨_, sum⟩ := Machine.checkedAdd_eq_some.mp added
    show used + delta.2.1 = (projected.get? own).getD (usage.getD own 0) + delta.2.2
    omega
  · cases ok

/-- **The projection counts the keys of each shard.** -/
theorem foldlM_projectUsage {projected final : OrdMap Nat Nat}
    (ok : deltas.foldlM (projectUsage layout usage) projected = .ok final) (shard : Nat) :
    projectedUsage usage final shard +
        ((deltas.filter fun delta => owns layout shard delta.1).map fun delta => delta.2.1).sum =
      projectedUsage usage projected shard +
        ((deltas.filter fun delta => owns layout shard delta.1).map fun delta => delta.2.2).sum ∧
      (shard ∈ final ↔ shard ∈ projected ∨ ∃ delta ∈ deltas, owns layout shard delta.1 = true) := by
  induction deltas generalizing projected with
  | nil =>
    cases ok
    simp
  | cons delta rest ih =>
    obtain ⟨next, head, tail⟩ := bind_eq_ok ok
    obtain ⟨own, used, routed, rfl, balance⟩ := projectUsage_ok head
    obtain ⟨sums, touched⟩ := ih tail
    by_cases mine : own = shard
    · subst mine
      have owned : owns layout own delta.1 = true := decide_eq_true routed
      have now : projectedUsage usage (projected.insert own used) own = used := by
        unfold projectedUsage
        rw [OrdMap.get?_insert, if_pos rfl]
        rfl
      refine ⟨?_, ?_⟩
      · rw [List.filter_cons_of_pos (by exact owned), List.map_cons, List.map_cons, List.sum_cons,
          List.sum_cons]
        omega
      · rw [touched]
        exact iff_of_true (.inl (OrdMap.mem_insert.mpr (.inl rfl)))
          (.inr ⟨delta, List.mem_cons_self, owned⟩)
    · have foreign : owns layout shard delta.1 = false :=
        decide_eq_false fun same => mine (Except.ok.inj (routed.symm.trans same))
      have kept : projectedUsage usage (projected.insert own used) shard =
          projectedUsage usage projected shard := by
        unfold projectedUsage
        rw [OrdMap.get?_insert_of_ne _ _ (Ne.symm mine)]
      refine ⟨?_, ?_⟩
      · rw [List.filter_cons_of_neg (by simp [foreign]), ← kept]
        exact sums
      · rw [touched, OrdMap.mem_insert]
        simp [foreign, Ne.symm mine]

theorem length_foldl_set (entries : List (Nat × Nat)) (usage : List Nat) :
    (entries.foldl (fun usage entry => usage.set entry.1 entry.2) usage).length = usage.length := by
  induction entries generalizing usage with
  | nil => rfl
  | cons entry rest ih => exact (ih _).trans List.length_set

/-- Writing the projection back. -/
theorem getD_foldl_set {entries : List (Nat × Nat)} (nodup : (entries.map Prod.fst).Nodup)
    (bound : shard < usage.length) :
    (entries.foldl (fun usage entry => usage.set entry.1 entry.2) usage).getD shard 0 =
      (OrdMap.find entries shard).getD (usage.getD shard 0) := by
  induction entries generalizing usage with
  | nil => rfl
  | cons entry rest ih =>
    obtain ⟨own, used⟩ := entry
    obtain ⟨fresh, tail⟩ := List.nodup_cons.mp nodup
    rw [List.foldl_cons, ih tail (by rwa [List.length_set]), OrdMap.find_cons]
    by_cases mine : shard = own
    · subst mine
      have gone : OrdMap.find rest shard = none := by
        cases hit : OrdMap.find rest shard with
        | none => rfl
        | some other =>
          exact absurd (List.mem_map.mpr ⟨(shard, other), OrdMap.mem_of_find_eq_some hit, rfl⟩) fresh
      rw [gone, if_pos rfl]
      simp [bound]
    · rw [if_neg mine]
      have kept : (usage.set own used).getD shard 0 = usage.getD shard 0 := by
        simp [List.getD_eq_getElem?_getD, List.getElem?_set_ne (Ne.symm mine)]
      rw [kept]

theorem checkShardQuota_eq_ok {entry : Nat × Nat} : checkShardQuota layout total entry = .ok () ↔
    ∃ quota, layout.quota total entry.1 = .ok quota ∧ entry.2 ≤ quota := by
  unfold checkShardQuota
  cases known : layout.quota total entry.1 with
  | error error => simp [Except.mapError, bind, Except.bind]
  | ok quota =>
    by_cases above : quota < entry.2
    · simp [Except.mapError, bind, Except.bind, above]
    · simp [Except.mapError, bind, Except.bind, above, Nat.le_of_not_lt above]

end Projection

/-! ### The whole batch -/

/-- The usage is what the store holds for each shard. -/
structure Routed.Exact (layout : DurableLayout) (state : Routed) : Prop where
  length : state.usage.length = layout.shardCount
  used : ∀ shard < layout.shardCount, state.usage.getD shard 0 = usedBy (owns layout shard) state.store

/-- The replay with its writes in order: the store, then the usage of each shard. -/
def replayRouted (layout : DurableLayout) (total : Nat) (allowMixed : Bool)
    (mutations : List MemoryMutation) : ExceptT AofError (StateM Routed) Unit := do
  let _ ← ExceptT.mk (pure (mutations.foldlM (routeMutation layout allowMixed) none))
  let state ← get
  let prepared ← ExceptT.mk (pure ((state.store.prepareMemoryReplay mutations .client).mapError .replay))
  let deltas ← ExceptT.mk (pure ((prepared.usageDeltas state.store).mapError .replay))
  let projected ← ExceptT.mk (pure (deltas.foldlM (projectUsage layout state.usage) ∅))
  ExceptT.mk (pure (projected.entries.forM (checkShardQuota layout total)))
  modify fun state => { state with store := state.store.apply prepared }
  projected.entries.forM fun entry =>
    modify fun state => { state with usage := state.usage.set entry.1 entry.2 }

theorem run_setUsage (entries : List (Nat × Nat)) (state : Routed) :
    ((entries.forM fun entry => modify fun state : Routed =>
        { state with usage := state.usage.set entry.1 entry.2 } :
          ExceptT AofError (StateM Routed) Unit).run.run state : Except AofError Unit × Routed) =
      (.ok (), ⟨state.store,
        entries.foldl (fun usage entry => usage.set entry.1 entry.2) state.usage⟩) := by
  induction entries generalizing state with
  | nil => rfl
  | cons entry rest ih => exact ih _

theorem ok_bind {ε α β : Type} (value : α) (next : α → Except ε β) :
    (Except.ok value >>= next) = next value := rfl

theorem run_check {α β : Type} (check : Except AofError α)
    (next : α → ExceptT AofError (StateM Routed) β) (state : Routed) :
    ((ExceptT.mk (pure check) >>= next).run.run state : Except AofError β × Routed) =
      match check with
      | .ok value => (next value).run.run state
      | .error error => (.error error, state) := by
  cases check <;> rfl

theorem run_get {β : Type} (next : Routed → ExceptT AofError (StateM Routed) β) (state : Routed) :
    ((get >>= next).run.run state : Except AofError β × Routed) = (next state).run.run state := rfl

/-- The replay ends as the pure one, and an error leaves the state as it was. -/
theorem replayRouted_run (layout : DurableLayout) (total : Nat) (allowMixed : Bool)
    (mutations : List MemoryMutation) (state : Routed) :
    ((replayRouted layout total allowMixed mutations).run.run state : Except AofError Unit × Routed) =
      match replayRoutedMemory layout total allowMixed state mutations with
      | .ok after => (.ok (), after)
      | .error error => (.error error, state) := by
  unfold replayRouted replayRoutedMemory
  rw [run_check]
  cases mutations.foldlM (routeMutation layout allowMixed) none with
  | error error => rfl
  | ok selected =>
    rw [run_get, run_check, ok_bind]
    cases (state.store.prepareMemoryReplay mutations .client).mapError AofError.replay with
    | error error => rfl
    | ok prepared =>
      dsimp only
      rw [run_check, ok_bind]
      cases (prepared.usageDeltas state.store).mapError AofError.replay with
      | error error => rfl
      | ok deltas =>
        dsimp only
        rw [run_check, ok_bind]
        cases deltas.foldlM (projectUsage layout state.usage) ∅ with
        | error error => rfl
        | ok projected =>
          dsimp only
          rw [run_check, ok_bind]
          cases projected.entries.forM (checkShardQuota layout total) with
          | error error => rfl
          | ok passed => exact run_setUsage _ _

section Exact

variable {allowMixed : Bool} {state after : Routed} {mutations : List MemoryMutation}

/-- A prepared replay has one entry for each mutation. -/
theorem prepareMemoryReplay_keys {rest : Nat} (holds : Sound rest s) {origin : MutationOrigin}
    (ok : s.prepareMemoryReplay mutations origin = .ok p) :
    p.entries.map Prod.fst = mutations.map MemoryMutation.key := by
  obtain ⟨⟨_, images⟩, collected, accepted⟩ := bind_eq_ok ok
  obtain ⟨found, shape, each⟩ := foldlM_collectImage collected
  obtain rfl : images = found := shape
  rw [resolved_keys (prepareReplay_ok holds accepted).2, images_keys each]

theorem sum_deltas (s : Store) (entries : List (Bytes × Option Image)) (mine : Bytes → Bool) :
    (((entries.map fun entry => (entry.1, s.held entry.1, entryCharge entry)).filter
        fun delta => mine delta.1).map fun delta => delta.2.1).sum =
        heldAll s ((entries.map Prod.fst).filter mine) ∧
      (((entries.map fun entry => (entry.1, s.held entry.1, entryCharge entry)).filter
        fun delta => mine delta.1).map fun delta => delta.2.2).sum =
        entriesCharge (entries.filter fun entry => mine entry.1) := by
  unfold heldAll entriesCharge
  rw [List.filter_map, List.filter_map, List.map_map, List.map_map, List.map_map]
  exact ⟨rfl, rfl⟩

theorem exists_delta_iff :
    (∃ delta ∈ entries.map fun entry => (entry.1, s.held entry.1, entryCharge entry),
        mine delta.1 = true) ↔ ∃ key ∈ entries.map Prod.fst, mine key = true := by
  simp only [List.mem_map, exists_exists_and_eq_and]

theorem exists_key_iff (names : entries.map Prod.fst = mutations.map MemoryMutation.key) :
    (∃ key ∈ entries.map Prod.fst, owns layout shard key = true) ↔
      ∃ m ∈ mutations, layout.shardFor m.key = .ok shard := by
  simp only [names, List.mem_map, exists_exists_and_eq_and, owns, decide_eq_true_eq]

/-- Every shard is checked against its quota if the batch has a key of it, and unchanged otherwise. -/
def QuotaChecked (layout : DurableLayout) (total : Nat) (mutations : List MemoryMutation)
    (state after : Routed) (shard : Nat) : Prop :=
  if ∃ m ∈ mutations, layout.shardFor m.key = .ok shard then
    ∃ quota, layout.quota total shard = .ok quota ∧ after.usage.getD shard 0 ≤ quota
  else after.usage.getD shard 0 = state.usage.getD shard 0

theorem replayRoutedMemory_ok (valid : state.store.Valid) (exact : state.Exact layout)
    (ok : replayRoutedMemory layout total allowMixed state mutations = .ok after) :
    state.store.replayMemory mutations = .ok after.store ∧ after.store.Valid ∧ after.Exact layout ∧
      ∀ shard < layout.shardCount, QuotaChecked layout total mutations state after shard := by
  obtain ⟨_, _, ok⟩ := bind_eq_ok ok
  obtain ⟨p, prepares, ok⟩ := bind_eq_ok ok
  obtain ⟨deltas, changes, ok⟩ := bind_eq_ok ok
  obtain ⟨projected, projects, ok⟩ := bind_eq_ok ok
  obtain ⟨_, checked, same⟩ := bind_eq_ok ok
  cases same
  have prepared := mapError_eq_ok.mp prepares
  have admissible := prepareMemoryReplay_ok valid.sound prepared
  have names := prepareMemoryReplay_keys valid.sound prepared
  obtain rfl := usageDeltas_ok (mapError_eq_ok.mp changes)
  have lookup : ∀ shard < layout.shardCount,
      (projected.entries.foldl (fun usage entry => usage.set entry.1 entry.2) state.usage).getD shard 0 =
        projectedUsage state.usage projected shard :=
    fun shard bound => getD_foldl_set projected.nodup_keys (exact.length ▸ bound)
  have start : ∀ shard, projectedUsage state.usage ∅ shard = state.usage.getD shard 0 := fun _ => rfl
  refine ⟨?_, admissible.valid valid, ⟨?_, fun shard bound => ?_⟩, fun shard bound => ?_⟩
  · unfold replayMemory
    rw [prepared]
    rfl
  · exact (length_foldl_set _ _).trans exact.length
  · have balance := (foldlM_projectUsage projects shard).1
    obtain ⟨before, charged⟩ := sum_deltas state.store p.entries (owns layout shard)
    have change : usedBy (owns layout shard) (state.store.apply p) + _ = _ :=
      usedBy_apply admissible.nodup
    rw [before, charged, start, exact.used shard bound] at balance
    show (projected.entries.foldl _ state.usage).getD shard 0 = usedBy _ (state.store.apply p)
    rw [lookup shard bound]
    omega
  · have touched : shard ∈ projected ↔ ∃ m ∈ mutations, layout.shardFor m.key = .ok shard := by
      rw [(foldlM_projectUsage projects shard).2, or_iff_right (OrdMap.not_mem_empty _),
        exists_delta_iff, exists_key_iff names]
    show if _ then ∃ quota, _ ∧ (projected.entries.foldl _ state.usage).getD shard 0 ≤ quota
      else (projected.entries.foldl _ state.usage).getD shard 0 = _
    rw [lookup shard bound]
    unfold projectedUsage
    split_ifs with own
    · obtain ⟨used, found⟩ := OrdMap.mem_iff.mp (touched.mpr own)
      obtain ⟨quota, known, within⟩ :=
        checkShardQuota_eq_ok.mp (forM_eq_ok.mp checked (shard, used) (OrdMap.get?_eq_some_iff.mp found))
      exact ⟨quota, known, found ▸ within⟩
    · rw [OrdMap.get?_eq_none_iff.mpr fun member => own (touched.mp member)]
      rfl

/-! ### A batch whose effect fits is accepted -/

/-- A dataset that a store of these quotas can hold. -/
structure Dataset.Fits (layout : DurableLayout) (total : Nat) (clock : Clock) (d : Dataset) : Prop where
  restorable : d.Restorable clock
  whole : ∀ keys : Finset Bytes, ∑ key ∈ keys, d.bytes key ≤ total
  shards : ∀ shard quota, layout.quota total shard = .ok quota → ∀ keys : Finset Bytes,
    (∀ key ∈ keys, owns layout shard key = true) → ∑ key ∈ keys, d.bytes key ≤ quota

/-- A batch has distinct keys, of one shard unless several owners are allowed. -/
structure Routable (layout : DurableLayout) (allowMixed : Bool) (mutations : List MemoryMutation) : Prop where
  distinct : (mutations.map MemoryMutation.key).Nodup
  owner : allowMixed = true ∨ ∃ shard, ∀ m ∈ mutations, layout.shardFor m.key = .ok shard

theorem usedBy_le {d : Dataset} (same : s.dataset = d.live s.clock) (mine : Bytes → Bool) :
    ∃ keys : Finset Bytes, (∀ key ∈ keys, mine key = true) ∧ usedBy mine s ≤ ∑ key ∈ keys, d.bytes key := by
  refine ⟨(s.values.keys.filter mine).toFinset, fun key member => ?_, ?_⟩
  · exact (List.mem_filter.mp (List.mem_toFinset.mp member)).2
  · rw [usedBy, heldAll_eq_sum (s.values.nodup_keys.filter _)]
    exact Finset.sum_le_sum fun key _ => held_le_bytes same key

theorem foldlM_routeMutation_ok (valid : layout.Valid) (routable : Routable layout allowMixed mutations) :
    ∃ selected, mutations.foldlM (routeMutation layout allowMixed) none = .ok selected := by
  have step : ∀ selected m shard, layout.shardFor m.key = .ok shard →
      (allowMixed = true ∨ selected.all (· = shard)) →
      routeMutation layout allowMixed selected m = .ok (some shard) := by
    intro selected m shard known allowed
    unfold routeMutation
    rw [known]
    refine if_neg ?_
    rcases allowed with mixed | one
    · simp [mixed]
    · cases selected <;> simp_all
  have loop : ∀ (rest : List MemoryMutation) (selected : Option Nat),
      (allowMixed = true ∨ ∃ shard, selected.all (· = shard) ∧
        ∀ m ∈ rest, layout.shardFor m.key = .ok shard) →
      ∃ last, rest.foldlM (routeMutation layout allowMixed) selected = .ok last := by
    intro rest
    induction rest with
    | nil => exact fun selected _ => ⟨selected, rfl⟩
    | cons m rest ih =>
      intro selected allowed
      obtain ⟨shard, known, first, later⟩ : ∃ shard, layout.shardFor m.key = .ok shard ∧
          (allowMixed = true ∨ selected.all (· = shard)) ∧
          (allowMixed = true ∨ ∃ one, (some shard).all (· = one) ∧
            ∀ m ∈ rest, layout.shardFor m.key = .ok one) := by
        rcases allowed with mixed | ⟨shard, one, each⟩
        · obtain ⟨shard, _, known⟩ := valid.shardFor m.key
          exact ⟨shard, known, .inl mixed, .inl mixed⟩
        · exact ⟨shard, each m List.mem_cons_self, .inr one,
            .inr ⟨shard, by simp, fun other inside => each other (List.mem_cons_of_mem _ inside)⟩⟩
      rw [List.foldlM_cons, step selected m shard known first]
      exact ih (some shard) later
  exact loop mutations none (routable.owner.imp_right fun ⟨shard, each⟩ => ⟨shard, rfl, each⟩)

theorem usageDeltas_eq_ok (holds : Sound 0 s) (good : GoodEntries p.entries)
    (small : entriesCharge p.entries < Machine.word) :
    ∃ deltas, p.usageDeltas s = .ok deltas := by
  have before : ∀ key, ∃ bytes, imageBytes key (s.image? key) = .ok bytes := by
    intro key
    cases found : s.image? key with
    | none => exact ⟨0, rfl⟩
    | some image =>
      obtain ⟨entry, stored, rfl⟩ := image?_eq_some.mp found
      unfold imageBytes
      dsimp only
      rw [holds.entryBytes_eq stored]
      exact ⟨_, rfl⟩
  unfold Prepared.usageDeltas
  generalize p.entries = entries at good small
  induction entries with
  | nil => exact ⟨[], rfl⟩
  | cons entry rest ih =>
    have split : entriesCharge (entry :: rest) = entryCharge entry + entriesCharge rest := rfl
    obtain ⟨later, tail⟩ := ih (fun other inside => good other (List.mem_cons_of_mem _ inside)) (by omega)
    obtain ⟨held, known⟩ := before entry.1
    obtain ⟨bytes, charge⟩ : ∃ bytes, imageBytes entry.1 entry.2 = .ok bytes := by
      obtain ⟨key, image⟩ := entry
      cases image with
      | none => exact ⟨0, rfl⟩
      | some image =>
        have sound := good (key, some image) List.mem_cons_self image rfl
        have size : entryCharge (key, some image) = entrySize key image.value := rfl
        refine ⟨entrySize key image.value, ?_⟩
        unfold imageBytes
        dsimp only
        rw [entryBytes_eq, if_pos ⟨sound.inhabited, by omega⟩]
    refine ⟨(entry.1, held, bytes) :: later, ?_⟩
    rw [List.mapM_cons, known, charge]
    show (_ >>= _) = _
    rw [tail]
    rfl

/-- The projection succeeds while every shard has the bytes that are taken from it, and room. -/
theorem foldlM_projectUsage_ok (valid : layout.Valid) {projected : OrdMap Nat Nat}
    (enough : ∀ shard, ((deltas.filter fun delta => owns layout shard delta.1).map fun delta =>
      delta.2.1).sum ≤ projectedUsage usage projected shard)
    (room : ∀ shard, projectedUsage usage projected shard +
      ((deltas.filter fun delta => owns layout shard delta.1).map fun delta => delta.2.2).sum <
        Machine.word) :
    ∃ final, deltas.foldlM (projectUsage layout usage) projected = .ok final := by
  induction deltas generalizing projected with
  | nil => exact ⟨projected, rfl⟩
  | cons delta rest ih =>
    obtain ⟨own, _, known⟩ := valid.shardFor delta.1
    have owned : owns layout own delta.1 = true := decide_eq_true known
    have here := enough own
    have above := room own
    rw [List.filter_cons_of_pos (by exact owned), List.map_cons, List.sum_cons] at here above
    obtain ⟨used, is⟩ : ∃ used, used = projectedUsage usage projected own - delta.2.1 + delta.2.2 := ⟨_, rfl⟩
    have fits : (Machine.checkedSub (projectedUsage usage projected own) delta.2.1).bind
        (Machine.checkedAdd · delta.2.2) = some used := by
      rw [Machine.checkedSub_eq_some.mpr ⟨by omega, rfl⟩, Option.bind_some,
        Machine.checkedAdd_eq_some.mpr ⟨by omega, is.symm⟩]
    have head : projectUsage layout usage projected delta = .ok (projected.insert own used) := by
      unfold projectedUsage at fits
      simp only [projectUsage, known, Except.mapError, bind, Except.bind, fits]
    rw [List.foldlM_cons, head]
    have now : ∀ shard, projectedUsage usage (projected.insert own used) shard =
        if shard = own then used else projectedUsage usage projected shard := fun shard => by
      unfold projectedUsage
      rw [OrdMap.get?_insert]
      split_ifs <;> rfl
    refine ih (fun shard => ?_) fun shard => ?_
    · rw [now]
      split_ifs with mine
      · rw [mine]
        omega
      · refine le_trans ?_ (enough shard)
        exact (((List.sublist_cons_self delta rest).filter _).map _).sum_le_sum fun _ _ => Nat.zero_le _
    · rw [now]
      split_ifs with mine
      · rw [mine]
        omega
      · refine lt_of_le_of_lt (Nat.add_le_add_left ?_ _) (room shard)
        exact (((List.sublist_cons_self delta rest).filter _).map _).sum_le_sum fun _ _ => Nat.zero_le _

/-- A shard that does not exist owns nothing. -/
theorem Routed.Exact.used_eq (exact : state.Exact layout) (valid : layout.Valid) (shard : Nat) :
    state.usage.getD shard 0 = usedBy (owns layout shard) state.store := by
  by_cases inside : shard < layout.shardCount
  · exact exact.used shard inside
  · have none : state.store.values.keys.filter (owns layout shard) = [] :=
      List.filter_eq_nil_iff.mpr fun key _ own => by
        obtain ⟨found, bound, known⟩ := valid.shardFor key
        exact inside (Except.ok.inj (known.symm.trans (of_decide_eq_true own)) ▸ bound)
    rw [usedBy, none, List.getD_eq_getElem?_getD, List.getElem?_eq_none (by have := exact.length; omega)]
    rfl

/-- What is described to fit is prepared. -/
theorem prepareMemoryReplay_described (holds : Sound 0 s) {d next : Dataset}
    (same : s.dataset = d.live s.clock) (applied : d.apply mutations = .ok next)
    (distinct : (mutations.map MemoryMutation.key).Nodup) (restorable : next.Restorable s.clock)
    (whole : ∀ keys : Finset Bytes, ∑ key ∈ keys, next.bytes key ≤ s.config.maxDatasetBytes) :
    ∃ p, s.prepareMemoryReplay mutations .client = .ok p ∧ (s.apply p).dataset = next.live s.clock := by
  obtain ⟨images, entries, keys, collected, rfl, nodup, resolved⟩ :=
    exists_images same applied distinct restorable
  have names := resolved_keys resolved
  let p := s.prepared .ok entries .client false
  have described : (s.apply p).dataset = _ := dataset_apply_described same nodup resolved
  have change : usedBy (fun _ => true) (s.apply p) + _ = _ :=
    usedBy_apply (show (entries.map Prod.fst).Nodup from names ▸ nodup)
  rw [← usedBytes_eq holds, List.filter_true, List.filter_true] at change
  change _ + heldAll s (entries.map Prod.fst) = s.usedBytes + entriesCharge entries at change
  obtain ⟨touched, _, le⟩ := usedBy_le (s := s.apply p) (d := images.foldl Dataset.put d)
    (by rw [clock_apply]; exact described) fun _ => true
  have sum := le.trans (whole touched)
  have accepted := prepareReplay_eq_ok holds nodup resolved (by rw [← names]; omega) .client
  refine ⟨p, ?_, described⟩
  unfold prepareMemoryReplay
  rw [collected]
  exact accepted

/-- A prepared batch passes the checks of the shards it leaves within their quotas. -/
theorem replayRoutedMemory_eq_ok (routed : layout.Valid) (valid : state.store.Valid)
    (exact : state.Exact layout) (routable : Routable layout allowMixed mutations)
    (prepared : state.store.prepareMemoryReplay mutations .client = .ok p)
    (within : ∀ shard < layout.shardCount, ∃ quota, layout.quota total shard = .ok quota ∧
      usedBy (owns layout shard) (state.store.apply p) ≤ quota) :
    ∃ after, replayRoutedMemory layout total allowMixed state mutations = .ok after ∧
      after.store = state.store.apply p := by
  have holds := valid.sound
  have admissible := prepareMemoryReplay_ok holds prepared
  have later := (admissible.sound holds).1
  have limit := state.store.config.representable
  have double : 2 * Machine.isizeMax < Machine.word := by decide
  have change : ∀ mine, usedBy mine (state.store.apply p) + _ = _ := fun mine => usedBy_apply admissible.nodup
  have taken : ∀ mine, heldAll state.store ((p.entries.map Prod.fst).filter mine) ≤ usedBy mine state.store :=
    fun mine => heldAll_le_usedBy mine admissible.nodup
  have charged : ∀ mine : Bytes → Bool, entriesCharge (p.entries.filter fun entry => mine entry.1) ≤
      state.store.config.maxDatasetBytes := fun mine => by
    have sum := (usedBy_le_usedBytes later mine).trans later.quota
    have all := change mine
    have some := taken mine
    rw [config_apply] at sum
    omega
  have all := charged fun _ => true
  rw [List.filter_true] at all
  obtain ⟨selected, routes⟩ := foldlM_routeMutation_ok routed routable
  obtain ⟨deltas, changes⟩ := usageDeltas_eq_ok holds admissible.good (by omega)
  obtain rfl := usageDeltas_ok changes
  have start : ∀ shard, projectedUsage state.usage ∅ shard = usedBy (owns layout shard) state.store :=
    exact.used_eq routed
  obtain ⟨projected, projects⟩ : ∃ projected, (p.entries.map fun entry =>
      (entry.1, state.store.held entry.1, entryCharge entry)).foldlM (projectUsage layout state.usage) ∅ =
        .ok projected := by
    refine foldlM_projectUsage_ok routed (fun shard => ?_) fun shard => ?_
    · rw [start, (sum_deltas ..).1]
      exact taken _
    · rw [start, (sum_deltas ..).2]
      have used := (usedBy_le_usedBytes holds (owns layout shard)).trans holds.quota
      have more := charged (owns layout shard)
      omega
  have checked : projected.entries.forM (checkShardQuota layout total) = .ok () := by
    refine forM_eq_ok.mpr fun entry member => checkShardQuota_eq_ok.mpr ?_
    obtain ⟨shard, used⟩ := entry
    have found : projected.get? shard = some used := OrdMap.get?_eq_some_iff.mpr member
    obtain ⟨balance, touched⟩ := foldlM_projectUsage projects shard
    have now : used = usedBy (owns layout shard) (state.store.apply p) := by
      have all := change (owns layout shard)
      rw [(sum_deltas ..).1, (sum_deltas ..).2, start, projectedUsage, found] at balance
      change used + _ = _ at balance
      omega
    obtain ⟨delta, _, own⟩ :=
      (touched.mp (OrdMap.mem_iff.mpr ⟨used, found⟩)).resolve_left (OrdMap.not_mem_empty _)
    obtain ⟨owner, inside, known⟩ := routed.shardFor delta.1
    obtain rfl := Except.ok.inj (known.symm.trans (of_decide_eq_true own))
    exact now ▸ within owner inside
  refine ⟨⟨state.store.apply p,
    projected.entries.foldl (fun usage entry => usage.set entry.1 entry.2) state.usage⟩, ?_, rfl⟩
  unfold replayRoutedMemory
  rw [routes, ok_bind, prepared]
  show ((p.usageDeltas state.store).mapError AofError.replay >>= _) = _
  rw [changes]
  show ((p.entries.map _).foldlM (projectUsage layout state.usage) ∅ >>= _) = _
  rw [projects, ok_bind, checked]
  rfl

/-- A store that holds what is described, with its usage. -/
structure Routed.Describes (layout : DurableLayout) (config : StoreConfig) (clock : Clock) (d : Dataset)
    (state : Routed) : Prop where
  valid : state.store.Valid
  exact : state.Exact layout
  dataset : state.store.dataset = d.live clock
  clock : state.store.clock = clock
  config : state.store.config = config

/-- **A batch whose effect fits is accepted**, and the store holds what is described after it. -/
theorem replayRoutedMemory_described {config : StoreConfig} {clock : Clock} {d next : Dataset}
    (routed : layout.Valid) (quotas : ∃ quota, layout.quota config.maxDatasetBytes 0 = .ok quota)
    (describes : state.Describes layout config clock d) (applied : d.apply mutations = .ok next)
    (routable : Routable layout allowMixed mutations)
    (fits : next.Fits layout config.maxDatasetBytes clock) :
    ∃ after, replayRoutedMemory layout config.maxDatasetBytes allowMixed state mutations = .ok after ∧
      after.Describes layout config clock next := by
  obtain ⟨valid, exact, same, rfl, rfl⟩ := describes
  obtain ⟨p, prepared, described⟩ := prepareMemoryReplay_described valid.sound same applied
    routable.distinct fits.restorable fits.whole
  have timed : (state.store.apply p).clock = state.store.clock := clock_apply ..
  obtain ⟨first, known⟩ := quotas
  obtain ⟨after, accepted, is⟩ := replayRoutedMemory_eq_ok routed valid exact routable prepared
    fun shard inside => by
      obtain ⟨quota, at_⟩ := routed.quota known inside
      obtain ⟨keys, mine, le⟩ := usedBy_le (s := state.store.apply p) (d := next)
        (by rw [timed]; exact described) (owns layout shard)
      exact ⟨quota, at_, le.trans (fits.shards shard quota at_ keys mine)⟩
  obtain ⟨_, sound, counted, _⟩ := replayRoutedMemory_ok valid exact accepted
  exact ⟨after, accepted, sound, counted, is ▸ described, is ▸ timed, is ▸ config_apply ..⟩

theorem map_getD_range (usage : List Nat) :
    (List.range usage.length).map (usage.getD · 0) = usage := by
  refine List.ext_getElem (by simp) fun shard _ bound => ?_
  simp [bound]

/-- The shards are charged for no more than the store is. -/
theorem Routed.Exact.sum_le (exact : state.Exact layout) (holds : Sound 0 state.store) :
    state.usage.sum ≤ state.store.usedBytes := by
  let keys := state.store.values.keys
  -- A key has one owner, so the keys of the shards are disjoint parts of the keys of the store.
  have disjoint : (↑(Finset.range layout.shardCount) : Set Nat).PairwiseDisjoint
      fun shard => (keys.filter (owns layout shard)).toFinset := by
    intro one _ other _ differ
    refine Finset.disjoint_left.mpr fun key first second => differ ?_
    have mine := of_decide_eq_true (List.mem_filter.mp (List.mem_toFinset.mp first)).2
    have theirs := of_decide_eq_true (List.mem_filter.mp (List.mem_toFinset.mp second)).2
    exact Except.ok.inj (mine.symm.trans theirs)
  have inside : (Finset.range layout.shardCount).biUnion
      (fun shard => (keys.filter (owns layout shard)).toFinset) ⊆ keys.toFinset := by
    intro key member
    obtain ⟨_, _, listed⟩ := Finset.mem_biUnion.mp member
    exact List.mem_toFinset.mpr (List.mem_filter.mp (List.mem_toFinset.mp listed)).1
  calc state.usage.sum
      = ((List.range layout.shardCount).map (state.usage.getD · 0)).sum := by
        rw [← exact.length, map_getD_range]
    _ = ∑ shard ∈ Finset.range layout.shardCount, state.usage.getD shard 0 := rfl
    _ = ∑ shard ∈ Finset.range layout.shardCount,
          ∑ key ∈ (keys.filter (owns layout shard)).toFinset, state.store.held key :=
        Finset.sum_congr rfl fun shard member =>
          (exact.used shard (Finset.mem_range.mp member)).trans (usedBy_eq _ fun _ own => own)
    _ = _ := (Finset.sum_biUnion disjoint).symm
    _ ≤ ∑ key ∈ keys.toFinset, state.store.held key := Finset.sum_le_sum_of_subset inside
    _ = heldAll state.store keys := (heldAll_eq_sum state.store.values.nodup_keys).symm
    _ = state.store.usedBytes := by rw [usedBytes_eq holds, usedBy, List.filter_true]

/-- **A routed batch is refused without effect, or applied with exact accounting.** -/
theorem replayRouted_exact (layout : DurableLayout) (total : Nat) (allowMixed : Bool) (state : Routed)
    (mutations : List MemoryMutation) (valid : state.store.Valid) (exact : state.Exact layout) :
    (∃ error, ((replayRouted layout total allowMixed mutations).run.run state :
        Except AofError Unit × Routed) = (.error error, state)) ∨
      ∃ after, ((replayRouted layout total allowMixed mutations).run.run state :
          Except AofError Unit × Routed) = (.ok (), after) ∧
        (∃ next, state.store.dataset.apply mutations = .ok next ∧ ∀ key,
          after.store.dataset key = next key ∨ after.store.dataset key =
            (next key).filter fun found => !elapsed state.store.clock found.1 found.2) ∧
        after.store.Valid ∧ after.Exact layout ∧
        (∀ shard < layout.shardCount, QuotaChecked layout total mutations state after shard) ∧
        after.usage.sum ≤ after.store.config.maxDatasetBytes := by
  rw [replayRouted_run]
  cases ended : replayRoutedMemory layout total allowMixed state mutations with
  | error error => exact .inl ⟨error, rfl⟩
  | ok after =>
    obtain ⟨replayed, sound, counted, checked⟩ := replayRoutedMemory_ok valid exact ended
    exact .inr ⟨after, rfl, replayMemory_dataset valid.sound replayed, sound, counted, checked,
      (counted.sum_le sound.sound).trans sound.sound.quota⟩

theorem exact_withConfig (layout : DurableLayout) (config : StoreConfig) (clock : Clock)
    (registry : Nat) :
    Routed.Exact layout ⟨withConfig config clock registry, List.replicate layout.shardCount 0⟩ where
  length := List.length_replicate
  used shard bound := by
    show (List.replicate layout.shardCount 0).getD shard 0 = 0
    simp [List.getD_eq_getElem?_getD, bound]

/-- A batch that replaces a key of one shard and deletes one of the other. -/
theorem replayRouted_exact_two_shards :
    let layout : DurableLayout := ⟨2, 1⟩
    let batch : List MemoryMutation := [.legacy (.put [97] (.string [2, 2]) none), .legacy (.delete [98])]
    ∃ state after : Routed, state.usage = [130, 130] ∧ after.usage = [131, 0] ∧ after.Exact layout ∧
      ((replayRouted layout 400 true batch).run.run state : Except AofError Unit × Routed) =
        (.ok (), after) := by
  intro layout batch
  let empty : Routed := ⟨withConfig ⟨400, by decide, by decide⟩ ⟨0, 0, 1000000000⟩ 0, [0, 0]⟩
  have counted : (replayRoutedMemory layout 400 true empty
      [.legacy (.put [97] (.string [1]) none), .legacy (.put [98] (.string [1]) none)] >>= fun state =>
        (replayRoutedMemory layout 400 true state batch >>= fun after =>
          .ok (state.usage, after.usage))) = .ok ([130, 130], [131, 0]) := by
    decide +kernel
  obtain ⟨state, first, rest⟩ := bind_eq_ok counted
  obtain ⟨after, second, same⟩ := bind_eq_ok rest
  obtain ⟨used, used'⟩ := Prod.mk.inj (Except.ok.inj same)
  obtain ⟨_, valid, exact, _⟩ :=
    replayRoutedMemory_ok (valid_withConfig ..) (exact_withConfig layout _ _ _) first
  have ran := replayRouted_run layout 400 true batch state
  rw [second] at ran
  rcases replayRouted_exact layout 400 true state batch valid exact with
    ⟨error, refused⟩ | ⟨_, ended, _, _, exact', _⟩
  · cases ran.symm.trans refused
  · cases ran.symm.trans ended
    exact ⟨state, after, used, used', exact', ran⟩

/-- A shard above its quota is not seen by a batch without keys of it. -/
theorem replayRouted_leaves_shard_above_quota :
    ∃ (layout : DurableLayout) (state after : Routed) (mutations : List MemoryMutation),
      state.store.Valid ∧ state.Exact layout ∧
      ((replayRouted layout state.store.config.maxDatasetBytes false mutations).run.run state :
        Except AofError Unit × Routed) = (.ok (), after) ∧
      ∃ shard quota, shard < layout.shardCount ∧
        layout.quota state.store.config.maxDatasetBytes shard = .ok quota ∧
        quota < after.usage.getD shard 0 := by
  let layout : DurableLayout := ⟨2, 1⟩
  let empty : Routed := ⟨withConfig ⟨400, by decide, by decide⟩ ⟨0, 0, 1000000000⟩ 0, [0, 0]⟩
  have counted : (replayRoutedMemory layout 1000 false empty
      [.legacy (.put [97] (.string (List.replicate 100 0)) none)] >>= fun state =>
        (replayRoutedMemory layout state.store.config.maxDatasetBytes false state
          [.legacy (.put [98] (.string [1]) none)] >>= fun after =>
            .ok (state.store.config.maxDatasetBytes, after.usage))) = .ok (400, [229, 130]) := by
    decide +kernel
  obtain ⟨state, first, rest⟩ := bind_eq_ok counted
  obtain ⟨after, second, same⟩ := bind_eq_ok rest
  obtain ⟨whole, used⟩ := Prod.mk.inj (Except.ok.inj same)
  obtain ⟨_, valid, exact, _⟩ :=
    replayRoutedMemory_ok (valid_withConfig ..) (exact_withConfig layout _ _ _) first
  refine ⟨layout, state, after, [.legacy (.put [98] (.string [1]) none)], valid, exact, ?_, 0, 200,
    by decide, ?_, ?_⟩
  · rw [replayRouted_run, second]
  · rw [whole]
    decide +kernel
  · rw [used]
    decide

end Exact

end Sider
