/-
**Replaying a log of record version 2.**

Generic commands, batches and cleanup rounds are logged as guarded deltas of the images before them,
memory operations as their own mutation. On a store related to the live one, every such mutation is
turned back into the one that was applied (`Decodes`), so that the version 1 argument carries over:
`memory_replay_step` for one batch, `recover_memory_log` for a whole run.
-/

import Sider.Storage.MemoryEffect

namespace Sider

namespace Store

variable {rest : Nat} {s live replayed : Store} {recovery : Clock}
  {mutations batch : List MemoryMutation} {key : Bytes}

/-! ### Guarded deltas -/

/-- A memory image among the entries is what its key held, less some members. -/
def Rooted (s : Store) (entries : List (Bytes × Option Image)) : Prop :=
  ∀ key image after, (key, some image) ∈ entries → image.value = .memory after →
    ∃ old before ids, s.image? key = some old ∧ old.value = .memory before ∧
      before.Without ids key after

theorem EntriesInherit.rooted {entries : List (Bytes × Option Image)} (holds : Sound rest s)
    (inherit : EntriesInherit s entries) : Rooted s entries := by
  intro key image after member memory
  obtain ⟨old, found, same⟩ := inherit key image after member memory
  obtain ⟨entry, stored, rfl⟩ := image?_eq_some.mp found
  have quota := (holds.good key entry stored).quotas after same
  exact ⟨entry.toImage, after, [], found, same, List.Pairwise.nil, Nat.zero_le _,
    fun _ => nofun, Collection.applyEdits_nil quota, rfl, rfl, le_refl _⟩

theorem prepareExpiration_rooted (holds : Sound rest s) (budget : Nat) :
    Rooted s (s.prepareExpiration budget).entries := by
  intro key image after member memory
  rcases mem_prepareExpiration holds member with ⟨_, none⟩ | ⟨found, shape, cleaned⟩
  · cases none
  · cases shape
    obtain ⟨old, before, ids, candidate, held, stored, without, rfl⟩ := cleaned
    obtain rfl := Value.memory.inj memory
    exact ⟨old, before, ids, held, stored, without⟩

/-- **The guarded form of an entry decodes to its mutation.** -/
theorem resolveMutation_decodes {image : Option Image} (rooted : Rooted s [(key, image)]) :
    Decodes s (s.resolveMutation (Mutation.ofEntry (key, image))) (Mutation.ofEntry (key, image)) := by
  cases image with
  | none => exact ⟨rfl, fun _ _ => rfl, fun _ _ brings => brings, trivial⟩
  | some image =>
    cases memory : image.value with
    | memory after =>
      obtain ⟨old, before, ids, found, stored, without⟩ :=
        rooted key image after (List.mem_singleton.mpr rfl) memory
      have held : s.collection? key = some before := by
        unfold collection?
        rw [found, Option.bind_some, stored]
        rfl
      have put : Mutation.ofEntry (key, some image) =
          .put key (.memory after) image.expiresAtUnixMs := by
        rw [← memory]
        rfl
      have shape : s.resolveMutation (.put key (.memory after) image.expiresAtUnixMs) =
          .delta key before.descriptor (ids.map Edit.remove) image.expiresAtUnixMs := by
        unfold resolveMutation
        change s.collection? (Mutation.key (.put key (.memory after) image.expiresAtUnixMs)) =
          some before at held
        unfold collection? at held
        rw [held]
        simp only [without.descriptor, if_pos, without.memberEdits]
      rw [put, shape]
      refine ⟨rfl, fun replayed same => memoryReplayImage_delta (same.trans held) without.accepted _,
        fun recovery deadlines brings => ⟨brings.1, fun id absolute due => ?_⟩, ?_, ?_⟩
      · rcases memberDeadline_applyEdits without.accepted due with old | ⟨member, inside, _⟩
        · exact (deadlines before held).2 id absolute old
        · obtain ⟨_, _, same⟩ := List.mem_map.mp inside
          cases same
      · rw [List.length_map]
        exact without.few
      · rw [List.map_map]
        exact (List.map_id ids).symm ▸ without.sorted
    | _ =>
      have legacy : s.resolveMutation (Mutation.ofEntry (key, some image)) =
          .legacy (Mutation.ofEntry (key, some image)) := by
        unfold resolveMutation Mutation.ofEntry
        simp only [memory]
        rfl
      rw [legacy]
      exact ⟨rfl, fun _ _ => rfl, fun _ _ brings => brings, trivial⟩

/-! ### One batch -/

/-- The two stores hold the same memory collections. -/
theorem Recovered.collection? (recovered : Recovered recovery live replayed) (key : Bytes) :
    replayed.collection? key = live.collection? key := by
  have images := recovered.images key
  unfold Store.collection?
  cases before : live.image? key with
  | none =>
    rw [before] at images
    rw [Option.map_eq_none_iff.mp images]
  | some image =>
    rw [before] at images
    cases memory : image.value.asMemory with
    | none =>
      cases after : replayed.image? key with
      | none => exact memory.symm
      | some found =>
        obtain ⟨old, held, same⟩ := recovered.value after
        rw [before] at held
        cases held
        rw [Option.bind_some, Option.bind_some, ← same]
    | some collection =>
      have kept : elapsed recovery image.value image.expiresAtUnixMs = false := by
        unfold elapsed
        rw [memory]
        rfl
      have found : (replayed.image? key).map lasting = some (lasting image) := by
        rw [images]
        simp [recoverable, kept]
      obtain ⟨after, hit, same⟩ := Option.map_eq_some_iff.mp found
      rw [hit, Option.bind_some, Option.bind_some]
      exact congrArg (Value.asMemory ∘ Prod.fst) same

theorem memoryReplayImage_key {m : MemoryMutation} {image : Mutation}
    (ok : s.memoryReplayImage m = .ok image) : image.key = m.key := by
  cases m with
  | legacy mutation => exact congrArg Mutation.key (Except.ok.inj ok).symm
  | image key collection keyDeadline =>
    unfold memoryReplayImage at ok
    dsimp only at ok
    split at ok
    · cases ok
    · exact congrArg Mutation.key (Except.ok.inj ok).symm
  | delta key descriptor edits keyDeadline =>
    unfold memoryReplayImage at ok
    dsimp only at ok
    split at ok
    · cases ok
    · split at ok
      · cases ok
      · exact congrArg Mutation.key (Except.ok.inj ok).symm

theorem images_keys {images : List Mutation}
    (each : List.Forall₂ (fun m image => s.memoryReplayImage m = .ok image) mutations images) :
    images.map Mutation.key = mutations.map MemoryMutation.key := by
  induction each with
  | nil => rfl
  | cons head _ ih => rw [List.map_cons, List.map_cons, memoryReplayImage_key head, ih]

/-- The images of a record-2 batch are collected one by one. -/
theorem collectImage_ok {images : List Mutation}
    (each : List.Forall₂ (fun m image => s.memoryReplayImage m = .ok image) mutations images)
    (nodup : (mutations.map MemoryMutation.key).Nodup) {state : OrdSet Bytes × List Mutation}
    (fresh : ∀ m ∈ mutations, m.key ∉ state.1) :
    ∃ keys, mutations.foldlM s.collectImage state = .ok (keys, state.2 ++ images) := by
  induction each generalizing state with
  | nil => exact ⟨state.1, by rw [List.append_nil]; rfl⟩
  | @cons m image others images head _ ih =>
    obtain ⟨apart, tail⟩ := List.nodup_cons.mp nodup
    have step : s.collectImage state m = .ok (state.1.add m.key, state.2 ++ [image]) := by
      unfold collectImage
      rw [if_neg (fresh m List.mem_cons_self), head]
      rfl
    have later : ∀ other ∈ others, other.key ∉ state.1.add m.key := by
      intro other member seen
      rcases OrdMap.mem_add.mp seen with equal | old
      · exact apart (equal ▸ List.mem_map.mpr ⟨other, member, rfl⟩)
      · exact fresh other (List.mem_cons_of_mem _ member) old
    obtain ⟨keys, rest⟩ : ∃ keys, others.foldlM s.collectImage
        (state.1.add m.key, state.2 ++ [image]) = .ok (keys, state.2 ++ [image] ++ images) :=
      ih tail later
    refine ⟨keys, ?_⟩
    rw [List.foldlM_cons, step, List.append_cons state.2 image images]
    exact rest

/-- The recovery clock can represent every deadline of the store. -/
def AllRepresentable (recovery : Clock) (s : Store) : Prop :=
  ∀ key image, s.image? key = some image →
    Representable recovery image.value image.expiresAtUnixMs

theorem AllRepresentable.collection (all : AllRepresentable recovery s) {collection : Collection}
    (held : s.collection? key = some collection) :
    Representable recovery (.memory collection) none := by
  obtain ⟨image, found, memory⟩ := Option.bind_eq_some_iff.mp held
  have image := all key image found
  rw [asMemory_eq memory] at image
  exact ⟨nofun, image.2⟩

/-- **Replaying a record-2 batch** is accepted and keeps the two stores related. -/
theorem memory_replay_step (recovered : Recovered recovery live replayed)
    (all : AllRepresentable recovery live) {p : Prepared} (admissible : Admissible live p)
    (decodes : List.Forall₂ (Decodes live) mutations (p.entries.map Mutation.ofEntry))
    (representable : ∀ m ∈ mutations, m.Representable recovery) (origin : MutationOrigin) :
    AllRepresentable recovery (live.apply p) ∧
      ∃ q, replayed.prepareMemoryReplay mutations origin = .ok q ∧
        Recovered recovery (live.apply p) (replayed.apply q) := by
  have each : ∀ mutation ∈ p.entries.map Mutation.ofEntry, mutation.Representable recovery := by
    intro mutation member
    obtain ⟨m, inside, decoded⟩ := exists_of_forall₂ decodes member
    exact decoded.representable recovery (fun _ held => all.collection held) (representable m inside)
  have entries : ∀ entry ∈ p.entries, ∀ image, entry.2 = some image →
      Representable recovery image.value image.expiresAtUnixMs := by
    intro entry member image same
    have holds := each _ (List.mem_map.mpr ⟨entry, member, rfl⟩)
    unfold Mutation.ofEntry at holds
    rw [same] at holds
    exact holds
  refine ⟨fun key image found => ?_, ?_⟩
  · rw [image?_apply _ _ admissible.nodup] at found
    cases hit : OrdMap.find p.entries key with
    | none =>
      rw [hit] at found
      exact all key image found
    | some after =>
      rw [hit] at found
      exact entries (key, after) (OrdMap.mem_of_find_eq_some hit) image found
  · obtain ⟨q, accepted, stores⟩ := replay_step recovered admissible entries origin
    have images := decodes.imp fun m image decoded => decoded.image replayed (recovered.collection? _)
    have nodup : (mutations.map MemoryMutation.key).Nodup := by
      rw [← images_keys images, mutations_keys]
      exact admissible.nodup
    obtain ⟨keys, collected⟩ : ∃ keys, mutations.foldlM replayed.collectImage (∅, []) =
        .ok (keys, [] ++ p.entries.map Mutation.ofEntry) :=
      collectImage_ok images nodup fun _ _ => by simp
    refine ⟨q, ?_, stores⟩
    unfold prepareMemoryReplay
    rw [collected]
    exact accepted

end Store

/-! ### A logging owner, record version 2 -/

/-- A step of an owner in the memory profile. -/
inductive MemoryStep where
  | tick (clock : Clock)
  | command (command : Command)
  | batch (commands : List Command) (time : Clock)
  | expiration (budget : Nat)
  | memory (key : Bytes) (operation : Operation) (recordLimit : Nat)

variable {step : MemoryStep}

namespace Store

/-- Log resolved mutations, if any, and apply the result they stand for. -/
def commitResolved (s : Store) (p : Prepared) (mutations : List MemoryMutation) :
    Store × Option (List MemoryMutation) :=
  (s.apply p, if mutations.isEmpty then none else some mutations)

/-- Commit a generic preparation, with its mutations resolved against the images before it. -/
def commitGeneric (s : Store) (p : Prepared) : Store × Option (List MemoryMutation) :=
  s.commitResolved p (s.resolvedMemoryMutations p)

def memoryStep (s : Store) : MemoryStep → Store × Option (List MemoryMutation)
  | .tick clock => (s.atClock clock, none)
  | .command command => s.commitGeneric (s.prepare command)
  | .batch commands time => s.commitGeneric (s.prepareBatchAt commands time)
  | .expiration budget => s.commitGeneric (s.prepareExpiration budget)
  | .memory key operation recordLimit =>
    let candidate := s.prepareMemoryWithLimit key operation recordLimit
    s.commitResolved candidate.prepared candidate.resolved.toList

/-- The live store and the record-2 log of a run from empty. -/
def memoryOwnerRun (config : StoreConfig) (clock : Clock) (registry : Nat) (steps : List MemoryStep) :
    Store × List (List MemoryMutation) :=
  Journal.run memoryStep (withConfig config clock registry) steps

/-- Replay logged record-2 batches, in order, into an empty store. -/
def recoverMemory (config : StoreConfig) (recovery : Clock) (registry : Nat)
    (log : List (List MemoryMutation)) : Except ReplayError Store :=
  log.foldlM replayMemory (withConfig config recovery registry)

/-- Every step but the clock's commits an admissible result with mutations that decode to it. -/
theorem memoryStep_cases (holds : Sound 0 s) (step : MemoryStep) :
    (∃ clock, s.memoryStep step = (s.atClock clock, none)) ∨
      ∃ p mutations, s.memoryStep step = s.commitResolved p mutations ∧ Admissible s p ∧
        List.Forall₂ (Decodes s) mutations (p.entries.map Mutation.ofEntry) := by
  have generic : ∀ request p, s.preparation request = some p → Rooted s p.entries →
      ∃ p' mutations, s.commitGeneric p = s.commitResolved p' mutations ∧ Admissible s p' ∧
        List.Forall₂ (Decodes s) mutations (p'.entries.map Mutation.ofEntry) := by
    intro request p prepared rooted
    refine ⟨p, _, rfl, preparation_admissible holds prepared, ?_⟩
    unfold resolvedMemoryMutations
    rw [preparation_mutations prepared, List.map_map, List.forall₂_map_left_iff,
      List.forall₂_map_right_iff]
    refine List.forall₂_same.mpr fun entry member => resolveMutation_decodes ?_
    intro key image after inside memory
    exact rooted key image after (List.mem_singleton.mp inside ▸ member) memory
  cases step with
  | tick clock => exact .inl ⟨clock, rfl⟩
  | command command =>
    exact .inr (generic (.command command) _ rfl ((prepare_inherit s command).rooted holds))
  | batch commands time =>
    exact .inr (generic (.batch commands time) _ rfl
      ((prepareBatchAt_inherit holds commands time).rooted holds))
  | expiration budget =>
    exact .inr (generic (.expiration budget) _ rfl (prepareExpiration_rooted holds budget))
  | memory key operation recordLimit =>
    refine .inr ⟨_, _, rfl, prepareMemoryWithLimit_admissible holds key operation recordLimit, ?_⟩
    rcases prepareMemory_decodes holds key operation recordLimit with
      ⟨none, empty⟩ | ⟨m, image, some, single, decodes⟩
    · rw [none, empty]
      exact .nil
    · rw [some, single]
      exact .cons decodes .nil

/-- A live store whose deadlines can be represented at recovery, and its replayed counterpart. -/
structure RecoveredMemory (recovery : Clock) (live replayed : Store) : Prop where
  stores : Recovered recovery live replayed
  representable : AllRepresentable recovery live

theorem silent_recoveredMemory (holds : RecoveredMemory recovery live replayed)
    (none : (live.memoryStep step).2 = none) :
    RecoveredMemory recovery (live.memoryStep step).1 replayed := by
  rcases memoryStep_cases holds.stores.live step with
    ⟨clock, same⟩ | ⟨p, mutations, same, admissible, decodes⟩
  · rw [same]
    exact ⟨holds.stores.atClock clock, holds.representable⟩
  · rw [same] at none ⊢
    have silent : mutations = [] := by
      change (if mutations.isEmpty then Option.none else _) = _ at none
      split_ifs at none with empty
      simpa using empty
    have empty : p.entries = [] := by
      rw [silent] at decodes
      simpa using decodes
    refine ⟨holds.stores.apply_nil admissible empty, fun key image found => ?_⟩
    change (live.apply p).image? key = some image at found
    rw [image?_apply _ _ admissible.nodup, empty] at found
    exact holds.representable key image found

theorem logged_recoveredMemory (holds : RecoveredMemory recovery live replayed)
    (logged : (live.memoryStep step).2 = some batch)
    (representable : ∀ m ∈ batch, m.Representable recovery) :
    ∃ next, replayed.replayMemory batch = .ok next ∧
      RecoveredMemory recovery (live.memoryStep step).1 next := by
  rcases memoryStep_cases holds.stores.live step with
    ⟨clock, same⟩ | ⟨p, mutations, same, admissible, decodes⟩
  · rw [same] at logged
    cases logged
  · rw [same] at logged ⊢
    obtain rfl : mutations = batch := by
      change (if mutations.isEmpty then Option.none else _) = _ at logged
      split_ifs at logged
      exact Option.some.inj logged
    obtain ⟨all, q, accepted, stores⟩ :=
      memory_replay_step holds.stores holds.representable admissible decodes representable .client
    refine ⟨replayed.apply q, ?_, stores, all⟩
    unfold replayMemory
    rw [accepted]
    rfl

/-- A logged delta is bounded, whatever the state it was logged in. -/
theorem memoryStep_bounded (holds : Sound 0 s) (logged : (s.memoryStep step).2 = some batch) :
    ∀ m ∈ batch, m.Bounded := by
  rcases memoryStep_cases holds step with ⟨clock, same⟩ | ⟨p, mutations, same, _, decodes⟩
  · rw [same] at logged
    cases logged
  · rw [same] at logged
    obtain rfl : mutations = batch := by
      change (if mutations.isEmpty then Option.none else _) = _ at logged
      split_ifs at logged
      exact Option.some.inj logged
    intro m member
    obtain ⟨mutation, _, decoded⟩ := exists_of_forall₂ decodes.flip member
    exact decoded.bounded

theorem memoryStep_sound (holds : Sound 0 s) (step : MemoryStep) :
    Sound 0 (s.memoryStep step).1 := by
  rcases memoryStep_cases holds step with ⟨clock, same⟩ | ⟨p, mutations, same, admissible, _⟩
  · rw [same]
    exact holds.atClock clock
  · rw [same]
    exact (admissible.sound holds).1

/-- **The record-2 log of any run rebuilds the live map**: no guard fails, and the result holds every
memory collection of the live store with its members, their deadlines, its schema and its key deadline,
and every ordinary value whose deadline is later than the recovery wall clock. Each logged delta
carries at most 64 edits in strictly increasing id order. -/
theorem recover_memory_log (config : StoreConfig) (clock recovery : Clock) (registry other : Nat)
    (steps : List MemoryStep)
    (representable : ∀ batch ∈ (memoryOwnerRun config clock registry steps).2, ∀ m ∈ batch,
      m.Representable recovery) :
    (∃ replayed, recoverMemory config recovery other (memoryOwnerRun config clock registry steps).2 =
        .ok replayed ∧
      ∀ key, (replayed.image? key).map (fun image => (image.value, image.expiresAtUnixMs)) =
        (((memoryOwnerRun config clock registry steps).1.image? key).filter fun image =>
          image.value.asMemory.isSome || image.expiresAtUnixMs.all (recovery.unixMs < ·)).map
          fun image => (image.value, image.expiresAtUnixMs)) ∧
      ∀ batch ∈ (memoryOwnerRun config clock registry steps).2,
        ∀ key descriptor edits keyDeadline, .delta key descriptor edits keyDeadline ∈ batch →
          edits.length ≤ 64 ∧ (edits.map Edit.id).Pairwise (· < ·) := by
  have start : RecoveredMemory recovery (withConfig config clock registry)
      (withConfig config recovery other) :=
    ⟨recovered_empty config clock recovery registry other, nofun⟩
  constructor
  · obtain ⟨replayed, ok, final⟩ := Journal.run_replay memoryStep replayMemory
      (RecoveredMemory recovery) (fun batch => ∀ m ∈ batch, m.Representable recovery)
      (fun _ _ _ holds none => silent_recoveredMemory holds none)
      (fun _ _ _ _ holds logged good => logged_recoveredMemory holds logged good) start steps
      representable
    refine ⟨replayed, ok, fun key => (final.stores.images key).trans ?_⟩
    refine congrArg (Option.map lasting) ?_
    change ((memoryOwnerRun config clock registry steps).1.image? key).filter _ = _
    cases (memoryOwnerRun config clock registry steps).1.image? key with
    | none => rfl
    | some image =>
      simp only [Option.filter_some, elapsed]
      cases image.value.asMemory <;> cases image.expiresAtUnixMs <;>
        simp [← decide_not, not_le]
  · have bounded := (Journal.run_invariant memoryStep (Sound 0)
      (fun batch => ∀ m ∈ batch, m.Bounded) (fun _ step holds => memoryStep_sound holds step)
      (fun _ _ _ holds logged => memoryStep_bounded holds logged)
      (valid_withConfig config clock registry).sound steps).2
    intro batch member key descriptor edits keyDeadline inside
    exact bounded batch member _ inside

/-- An empty collection of dimension 1. -/
def smallCollection : Collection :=
  ⟨⟨1, [112], [109], [114], [116]⟩, ∅, 260, 34, Collection.valid_new (by decide)⟩

def smallMember (deadline : Option Int) : Member := ⟨[97], [], [], [0, 0, 0, 0], deadline, ∅, ∅⟩

/-- A key set for 10 ms, a collection created and a member put for 30 ms, in 1 KiB at the epoch. -/
def mixedRun : Store × List (List MemoryMutation) :=
  memoryOwnerRun .kibibyte ⟨0, 0, 1000000000⟩ 0
    [.command (.setWithOptions [107] [49] ⟨.always, .after 10000000, false⟩),
      .memory [109] (.create smallCollection.descriptor) maxRecordBytes,
      .memory [109] (.put smallCollection.descriptor (smallMember none) (.after 30) .always) maxRecordBytes]

theorem mixedRun_log : mixedRun.2 =
    [[.legacy (.put [107] (.string [49]) (some 10))], [.image [109] smallCollection none],
      [.delta [109] smallCollection.descriptor [.upsert (smallMember (some 30))] none]] := by
  decide +kernel

/-- Recovered 20 ms after the epoch, the collection is back with its member. -/
theorem recover_memory_log_mixed :
    (mixedRun.1.collection? [109]).map (fun collection => collection.members.entries) =
        some [([97], smallMember (some 30))] ∧
      ∃ replayed, recoverMemory ⟨1024, by decide, by decide⟩ ⟨7, 20, 1000000000⟩ 1 mixedRun.2 =
        .ok replayed ∧
      (replayed.image? [109]).map (fun image => (image.value, image.expiresAtUnixMs)) =
        (mixedRun.1.image? [109]).map fun image => (image.value, image.expiresAtUnixMs) := by
  have representable : ∀ batch ∈ mixedRun.2, ∀ m ∈ batch,
      m.Representable ⟨7, 20, 1000000000⟩ := by
    rw [mixedRun_log]
    simp only [List.forall_mem_cons, List.not_mem_nil, false_implies, implies_true, and_true]
    refine ⟨⟨fun absolute same => ?_, nofun⟩, ⟨nofun, nofun⟩, nofun, fun member absolute inside same => ?_⟩
    · cases same
      decide
    · cases List.mem_singleton.mp inside
      cases same
      decide
  obtain ⟨⟨replayed, ok, images⟩, _⟩ := recover_memory_log ⟨1024, by decide, by decide⟩
    ⟨0, 0, 1000000000⟩ ⟨7, 20, 1000000000⟩ 0 1 _ representable
  exact ⟨by decide +kernel, replayed, ok, (images _).trans (by decide +kernel)⟩

/-- An ordinary key past its deadline is in the live map and not in the recovered one; and a recovery
clock that cannot represent a deadline refuses the log. -/
theorem recover_memory_log_drops_elapsed :
    (mixedRun.1.image? [107]).map (fun image => (image.value, image.expiresAtUnixMs)) =
        some (.string [49], some 10) ∧
      (recoverMemory ⟨1024, by decide, by decide⟩ ⟨7, 20, 1000000000⟩ 1 mixedRun.2).toOption.map
        (fun replayed => replayed.image? [107]) = some none ∧
      (recoverMemory ⟨1024, by decide, by decide⟩ ⟨0, 0, 5⟩ 1 mixedRun.2).toOption.isNone := by
  decide +kernel

end Store

end Sider
