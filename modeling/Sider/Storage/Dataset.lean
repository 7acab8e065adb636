/-
**The dataset that a log describes.**

A dataset maps keys to values with their absolute deadlines, without clocks, indexes or quotas. A logged
batch acts on it as a whole: each mutation is resolved against the dataset before the batch, and the
images are put in place (`Dataset.apply`). Replaying a record into a store has that effect on the dataset
of the store, apart from the ordinary values that have elapsed by then (`replayMemory_dataset`).
-/

import Sider.Storage.MemoryRecovery

namespace Sider

variable {images : List Mutation} {key : Bytes} {record : List MemoryMutation}
  {entry : Bytes × Option Image}

/-- Values and absolute deadlines by key. -/
abbrev Dataset := Bytes → Option (Value × Option Int)

variable {d : Dataset}

namespace Dataset

/-- The image that a logged mutation stands for. -/
def resolve (d : Dataset) : MemoryMutation → Except ReplayError Mutation
  | .legacy mutation => .ok mutation
  | .image key collection keyDeadline =>
    match collection.validateKey key with
    | .error error => .error (.memory error)
    | .ok () => .ok (.put key (.memory collection) keyDeadline)
  | .delta key descriptor edits keyDeadline =>
    match (d key).bind fun entry => entry.1.asMemory with
    | none => .error (.memory .identity)
    | some collection =>
      match collection.applyEdits descriptor edits key with
      | .error error => .error (.memory error)
      | .ok candidate => .ok (.put key (.memory candidate) keyDeadline)

def put (d : Dataset) : Mutation → Dataset
  | .put key value expiresAtUnixMs => Function.update d key (some (value, expiresAtUnixMs))
  | .delete key => Function.update d key none

/-- What is kept of it at a reading of the clock: all but the ordinary values whose deadline has passed. -/
def live (clock : Clock) (d : Dataset) : Dataset := fun key =>
  (d key).filter fun found => !Store.elapsed clock found.1 found.2

/-- What is kept can be put into a store. -/
def Restorable (clock : Clock) (d : Dataset) : Prop :=
  ∀ key value expiresAtUnixMs, d.live clock key = some (value, expiresAtUnixMs) →
    Store.replayCheck key value = .ok () ∧ value.inhabited = true ∧
      Store.Representable clock value expiresAtUnixMs

/-- The bytes that a key is charged for. -/
def bytes (d : Dataset) (key : Bytes) : Nat :=
  ((d key).map fun found => entrySize key found.1).getD 0

/-- One logged batch. -/
def apply (d : Dataset) (batch : List MemoryMutation) : Except ReplayError Dataset := do
  let images ← batch.mapM d.resolve
  .ok (images.foldl put d)

end Dataset

/-- What a mutation leaves at its key. -/
def Mutation.image : Mutation → Option (Value × Option Int)
  | .put _ value expiresAtUnixMs => some (value, expiresAtUnixMs)
  | .delete _ => none

/-- What the store holds, apart from the clocks. -/
def Store.dataset (s : Store) : Dataset := fun key => (s.image? key).map Store.lasting

namespace Dataset

variable {s : Store}

theorem put_eq (d : Dataset) (mutation : Mutation) :
    d.put mutation = Function.update d mutation.key mutation.image := by
  cases mutation <;> rfl

/-- Images leave the other keys alone. -/
theorem foldl_put_of_not_mem (absent : key ∉ images.map Mutation.key) :
    images.foldl put d key = d key := by
  induction images generalizing d with
  | nil => rfl
  | cons image images ih =>
    rw [List.map_cons, List.mem_cons, not_or] at absent
    rw [List.foldl_cons, ih absent.2, put_eq, Function.update_of_ne absent.1]

/-- Each of several images with distinct keys ends up at its key. -/
theorem foldl_put_of_mem (nodup : (images.map Mutation.key).Nodup) {image : Mutation}
    (member : image ∈ images) : images.foldl put d image.key = image.image := by
  induction images generalizing d with
  | nil => cases member
  | cons first images ih =>
    obtain ⟨fresh, rest⟩ := List.nodup_cons.mp nodup
    rw [List.foldl_cons]
    rcases List.mem_cons.mp member with rfl | inside
    · rw [foldl_put_of_not_mem fresh, put_eq, Function.update_self]
    · exact ih rest inside

/-- A dataset resolves a mutation as a store with the same collection at its key does. -/
theorem resolve_eq {m : MemoryMutation}
    (same : ((d m.key).bind fun entry => entry.1.asMemory) = s.collection? m.key) :
    d.resolve m = s.memoryReplayImage m := by
  cases m with
  | legacy mutation => rfl
  | image key collection keyDeadline => rfl
  | delta key descriptor edits keyDeadline =>
    change ((d key).bind fun entry => entry.1.asMemory) = s.collection? key at same
    unfold resolve Store.memoryReplayImage
    dsimp only
    rewrite [same]
    show _ = match s.collection? key with
      | none => _
      | some collection => _
    cases s.collection? key with
    | none => rfl
    | some collection => cases collection.applyEdits descriptor edits key <;> rfl

theorem collection_dataset (s : Store) (key : Bytes) :
    ((s.dataset key).bind fun entry => entry.1.asMemory) = s.collection? key := by
  unfold Store.dataset Store.collection?
  cases s.image? key <;> rfl

/-- Collections are kept. -/
theorem collection_live (clock : Clock) (d : Dataset) (key : Bytes) :
    ((d.live clock key).bind fun entry => entry.1.asMemory) = (d key).bind fun entry => entry.1.asMemory := by
  unfold live
  cases d key with
  | none => rfl
  | some found =>
    cases memory : found.1.asMemory with
    | none =>
      rw [Option.filter_some]
      split_ifs <;> simp [memory]
    | some collection => simp [Option.filter_some, Store.elapsed, memory]

variable (each : List.Forall₂ (fun m image => d.resolve m = .ok image) record images)

include each

theorem mapM_resolve : record.mapM d.resolve = .ok images := by
  induction each with
  | nil => rfl
  | cons head _ ih =>
    rw [List.mapM_cons, head, ih]
    rfl

theorem apply_eq_ok : d.apply record = .ok (images.foldl put d) := by
  unfold apply
  rw [mapM_resolve each]
  rfl

omit each in
theorem apply_ok {next : Dataset} (ok : d.apply record = .ok next) :
    ∃ images, List.Forall₂ (fun m image => d.resolve m = .ok image) record images ∧
      next = images.foldl put d := by
  obtain ⟨images, resolved, same⟩ := bind_eq_ok ok
  refine ⟨images, ?_, (Except.ok.inj same).symm⟩
  clear ok same
  induction record generalizing images with
  | nil =>
    cases resolved
    exact .nil
  | cons m record ih =>
    rw [List.mapM_cons] at resolved
    obtain ⟨image, head, resolved⟩ := bind_eq_ok resolved
    obtain ⟨others, tail, same⟩ := bind_eq_ok resolved
    cases same
    exact .cons head (ih others tail)

end Dataset

namespace Store

variable {s t : Store} {p : Prepared}

/-! ### Applying a result -/

theorem dataset_apply_of_mem (nodup : (p.entries.map Prod.fst).Nodup) (member : entry ∈ p.entries) :
    (s.apply p).dataset entry.1 = entry.2.map lasting := by
  unfold dataset
  rw [image?_apply _ _ nodup, OrdMap.find_eq_some_of_mem nodup member]
  rfl

theorem dataset_apply_of_not_mem (nodup : (p.entries.map Prod.fst).Nodup)
    (absent : key ∉ p.entries.map Prod.fst) : (s.apply p).dataset key = s.dataset key := by
  unfold dataset
  rw [image?_apply_of_not_mem nodup absent]

/-! ### Replay -/

/-- The images of an accepted record, each resolved on the store before it. -/
theorem foldlM_collectImage {state next : OrdSet Bytes × List Mutation}
    (ok : record.foldlM s.collectImage state = .ok next) :
    ∃ images, next.2 = state.2 ++ images ∧
      List.Forall₂ (fun m image => s.memoryReplayImage m = .ok image) record images := by
  induction record generalizing state with
  | nil =>
    cases ok
    exact ⟨[], (List.append_nil _).symm, .nil⟩
  | cons m record ih =>
    obtain ⟨middle, first, rest⟩ := bind_eq_ok ok
    unfold collectImage at first
    split_ifs at first
    obtain ⟨image, resolved, same⟩ := bind_eq_ok first
    cases same
    obtain ⟨images, shape, each⟩ := ih rest
    exact ⟨image :: images, by rw [shape, List.append_assoc]; rfl, .cons resolved each⟩

theorem resolved_lasting {mutation : Mutation} (resolves : Resolves s mutation entry) :
    entry.2.map lasting =
      mutation.image.filter fun found => !elapsed s.clock found.1 found.2 := by
  cases resolves with
  | delete key => rfl
  | elapsed past => simp [Mutation.image, Option.filter_some, past]
  | put kept => simp [Mutation.image, Option.filter_some, kept, lasting]

/-- The images of a record are in place once its result is applied, unless they have elapsed. -/
theorem dataset_apply_image (nodup : (p.entries.map Prod.fst).Nodup)
    (resolved : List.Forall₂ (Resolves s) images p.entries) {image : Mutation} (member : image ∈ images) :
    (s.apply p).dataset image.key =
      (images.foldl Dataset.put d image.key).filter fun found => !elapsed s.clock found.1 found.2 := by
  obtain ⟨entry, inside, resolves⟩ := exists_of_forall₂ resolved.flip member
  rw [Dataset.foldl_put_of_mem (resolved_keys resolved ▸ nodup) member, ← resolved_lasting resolves,
    ← resolves.key, dataset_apply_of_mem nodup inside]

/-- **Replaying a record has its effect on the dataset**, less the ordinary values of the record that
have elapsed. -/
theorem replayMemory_dataset (holds : Sound 0 s) (replayed : s.replayMemory record = .ok t) :
    ∃ next, s.dataset.apply record = .ok next ∧ ∀ key, t.dataset key = next key ∨
      t.dataset key = (next key).filter fun found => !elapsed s.clock found.1 found.2 := by
  obtain ⟨p, prepared, same⟩ := bind_eq_ok replayed
  cases same
  obtain ⟨⟨keys, images⟩, collected, accepted⟩ := bind_eq_ok prepared
  obtain ⟨found, shape, each⟩ := foldlM_collectImage collected
  obtain rfl : images = found := shape
  obtain ⟨admissible, resolved⟩ := prepareReplay_ok holds accepted
  refine ⟨_, Dataset.apply_eq_ok (each.imp fun m image ok =>
    (Dataset.resolve_eq (Dataset.collection_dataset s m.key)).trans ok), fun key => ?_⟩
  by_cases own : key ∈ images.map Mutation.key
  · obtain ⟨image, member, rfl⟩ := List.mem_map.mp own
    exact .inr (dataset_apply_image admissible.nodup resolved member)
  · refine .inl ?_
    rw [Dataset.foldl_put_of_not_mem own,
      dataset_apply_of_not_mem admissible.nodup (resolved_keys resolved ▸ own)]

section Described

variable {next : Dataset} (same : s.dataset = d.live s.clock)

include same

/-- What is described of a record resolves on the store that holds what is described before it. -/
theorem exists_images (applied : d.apply record = .ok next)
    (nodup : (record.map MemoryMutation.key).Nodup) (restorable : next.Restorable s.clock) :
    ∃ images entries keys, record.foldlM s.collectImage (∅, []) = .ok (keys, images) ∧
      next = images.foldl Dataset.put d ∧ (images.map Mutation.key).Nodup ∧
      List.Forall₂ (Resolves s) images entries := by
  obtain ⟨images, described, rfl⟩ := Dataset.apply_ok applied
  have each := described.imp fun m image ok => (Dataset.resolve_eq (by
    rw [← Dataset.collection_live s.clock, ← same]
    exact Dataset.collection_dataset s m.key)).symm.trans ok
  obtain ⟨keys, collected⟩ : ∃ keys, record.foldlM s.collectImage (∅, []) = .ok (keys, [] ++ images) :=
    collectImage_ok each nodup fun _ _ => by simp
  have distinct : (images.map Mutation.key).Nodup := images_keys each ▸ nodup
  obtain ⟨entries, resolved⟩ : ∃ entries, List.Forall₂ (Resolves s) images entries := by
    refine forall₂_of_exists fun image member => ?_
    have placed : images.foldl Dataset.put d image.key = image.image :=
      Dataset.foldl_put_of_mem distinct member
    cases image with
    | delete key => exact ⟨_, .delete key⟩
    | put key value expiresAtUnixMs =>
      cases past : elapsed s.clock value expiresAtUnixMs with
      | true => exact ⟨_, .elapsed past⟩
      | false =>
        obtain ⟨checked, inhabited, representable⟩ := restorable key value expiresAtUnixMs (by
          change images.foldl Dataset.put d key = some (value, expiresAtUnixMs) at placed
          simp [Dataset.live, placed, past])
        obtain ⟨_, _, resolves⟩ := exists_resolved s checked inhabited representable past
        exact ⟨_, resolves⟩
  exact ⟨images, entries, keys, collected, rfl, distinct, resolved⟩

theorem dataset_apply_described (nodup : (images.map Mutation.key).Nodup)
    (resolved : List.Forall₂ (Resolves s) images p.entries) :
    (s.apply p).dataset = (images.foldl Dataset.put d).live s.clock := by
  have distinct : (p.entries.map Prod.fst).Nodup := resolved_keys resolved ▸ nodup
  funext key
  by_cases own : key ∈ images.map Mutation.key
  · obtain ⟨image, member, rfl⟩ := List.mem_map.mp own
    exact dataset_apply_image distinct resolved member
  · rw [dataset_apply_of_not_mem distinct (resolved_keys resolved ▸ own), same]
    unfold Dataset.live
    rw [Dataset.foldl_put_of_not_mem own]

/-- A store is charged for no more than what is described. -/
theorem held_le_bytes (key : Bytes) : s.held key ≤ d.bytes key := by
  have at_ := congrFun same key
  unfold dataset Dataset.live at at_
  unfold held Dataset.bytes
  cases found : s.image? key with
  | none => exact Nat.zero_le _
  | some image =>
    rw [found, Option.map_some] at at_
    rw [(Option.filter_eq_some_iff.mp at_.symm).1]
    exact le_refl _

end Described

/-! ### Snapshots -/

theorem snapshot_sorted (s : Store) : (s.snapshot.map Mutation.key).Pairwise (· < ·) := by
  unfold snapshot
  rw [List.map_map]
  exact s.values.sorted

end Store

end Sider
