/-
**Preparing on a shadow is executing on the store.**

A command is prepared on a shadow of its keys. Since a command uses only its own keys, the shadow run
is a twin of the run on the whole store (`prepare_twin`), and laying its changes over the store gives
the store that direct execution leaves (`prepare_apply_eq_execute`).
-/

import Sider.Storage.Apply

namespace Sider

open StateProgram

variable {keys more : List Bytes} {command : Command} {clock : Clock} {t : Store} {plain : Prop}

theorem Local.mono (subset : ∀ key ∈ keys, key ∈ more) {α : Type} {program : StoreM α}
    (isLocal : Local plain keys α program) : Local plain more α program := by
  induction isLocal with
  | pure value => exact Local.pure value
  | bind _ _ head tail => exact Local.bind head tail
  | lookup own => exact Local.lookup (subset _ own)
  | remove own => exact Local.remove (subset _ own)
  | insert own value expiry allowed => exact Local.insert (subset _ own) value expiry allowed
  | canReplace own value => exact Local.canReplace (subset _ own) value
  | resolve own value => exact Local.resolve (subset _ own) value
  | clock => exact Local.clock
  | usedBytes => exact Local.usedBytes
  | maxDatasetBytes => exact Local.maxDatasetBytes
  | raiseWhen condition => exact Local.raiseWhen condition

namespace Store

variable {rest : Nat} {s : Store}

/-! ### Shadows -/

/-- What copying entries leaves alone. -/
structure Copied (s : Store) (keys : List Bytes) (clock : Clock) (t : Store) : Prop where
  entries : ∀ key, t.values.get? key = if key ∈ keys then s.values.get? key else none
  generation : t.generation = s.generation
  clock : t.clock = clock
  config : t.config = s.config
  usedBytes : t.usedBytes = s.usedBytes
  fault : t.fault = false

theorem copied_blank (s : Store) (clock : Clock) : Copied s [] clock (s.blank clock) :=
  ⟨fun _ => rfl, rfl, rfl, rfl, rfl, rfl⟩

theorem copied_copyEntry (copied : Copied s keys clock t) (key : Bytes) :
    Copied s (keys ++ [key]) clock (s.copyEntry t key) := by
  unfold copyEntry
  cases found : s.values.get? key with
  | none =>
    refine ⟨fun probe => ?_, copied.generation, copied.clock, copied.config, copied.usedBytes,
      copied.fault⟩
    rw [copied.entries]
    by_cases same : probe = key
    · simp [same, found]
    · simp [same]
  | some entry =>
    refine ⟨fun probe => ?_, copied.generation, copied.clock, copied.config, copied.usedBytes,
      copied.fault⟩
    rw [OrdMap.get?_insert, copied.entries]
    by_cases same : probe = key
    · simp [same, found]
    · simp [same]

theorem copied_copyMembers (copied : Copied s keys clock t) (key : Bytes) :
    Copied s keys clock (s.copyMembers t key) := by
  unfold copyMembers
  split
  · exact copied
  · exact ⟨copied.entries, copied.generation, copied.clock, copied.config, copied.usedBytes,
      copied.fault⟩

theorem copied_shadow (s : Store) (keys : List Bytes) : Copied s keys s.clock (s.shadow keys) := by
  have all : ∀ (done more : List Bytes) (t : Store), Copied s done s.clock t →
      Copied s (done ++ more) s.clock (more.foldl s.copyEntry t) := by
    intro done more
    induction more generalizing done with
    | nil =>
      intro t copied
      rw [List.append_nil]
      exact copied
    | cons key others ih =>
      intro t copied
      have next := ih (done ++ [key]) _ (copied_copyEntry copied key)
      rw [List.append_assoc] at next
      exact next
  exact all [] keys _ (copied_blank s s.clock)

theorem copied_memoryShadow (s : Store) (key : Bytes) :
    Copied s [key] s.clock (s.memoryShadow key) :=
  copied_copyMembers (copied_copyEntry (copied_blank s s.clock) key) key

section Copies

theorem Copied.twin (copied : Copied s keys s.clock t) (sound : s.fault = false) :
    Twin keys s t where
  entries := fun key own => by rw [copied.entries, if_pos own]
  generation := copied.generation.symm
  clock := copied.clock.symm
  config := copied.config.symm
  usedBytes := copied.usedBytes.symm
  fault := sound.trans copied.fault.symm

variable (copied : Copied s keys clock t)

include copied

theorem Copied.image? (key : Bytes) : t.image? key = if key ∈ keys then s.image? key else none := by
  unfold Store.image?
  rw [copied.entries]
  split_ifs <;> rfl

theorem Copied.covers (key : Bytes) (member : key ∈ t.values) : key ∈ keys := by
  obtain ⟨entry, found⟩ := OrdMap.mem_iff.mp member
  rw [copied.entries] at found
  split_ifs at found with own
  exact own

theorem Copied.inherits : Inherits s t := by
  intro key image collection found same
  rw [copied.image?] at found
  split_ifs at found
  exact ⟨image, found, same⟩

/-- A copy of some keys is a tentative store. -/
theorem Copied.tentative (nodup : keys.Nodup) (holds : Sound rest s) : Tentative keys s t := by
  have held : heldAll t keys = heldAll s keys := heldAll_congr fun key own => by
    rw [copied.image?, if_pos own]
  have covered := (foldl_dropKey_sound nodup holds).2
  have entry : ∀ key found, t.values.get? key = some found → s.values.get? key = some found := by
    intro key found stored
    rw [copied.entries] at stored
    split_ifs at stored
    exact stored
  refine ⟨nodup, ⟨?_, ?_, fun key found stored => ?_, fun key found stored => ?_, copied.fault⟩,
    copied.covers, copied.config⟩
  · rw [charged_eq_heldAll nodup copied.covers, held, copied.usedBytes]
    omega
  · rw [copied.usedBytes, copied.config]
    exact holds.quota
  · exact holds.good key found (entry key found stored)
  · rw [copied.generation]
    exact holds.stamped key found (entry key found stored)

end Copies

/-! ### A local program on a copy -/

/-- The keys of a copy whose stamp changed. -/
def restamped (s after : Store) (key : Bytes) : Bool :=
  s.stamp key ≠ after.stamp key

theorem changes_eq (s after : Store) (keys : List Bytes) :
    s.changes after keys = after.imagesOf (keys.filter (s.restamped after)) := rfl

section LocalRuns

variable {α : Type} {program : StoreM α}

/-- After a local program that keeps soundness, a copy is still a tentative store, and the keys
that were not restamped are as in `s`. -/
theorem Copied.run (copied : Copied s keys clock t) (nodup : keys.Nodup) (holds : Sound rest s)
    (isLocal : Local plain keys α program) (keeps : ∀ rest, Keeps rest program) :
    Tentative keys s (program.run t).2 ∧
      ∀ key ∈ keys, s.restamped (program.run t).2 key = false →
        (program.run t).2.values.get? key = s.values.get? key := by
  have before := copied.tentative nodup holds
  have framed := isLocal.keeps (framed_kept plain keys t) t (framed_self keys t)
  refine ⟨⟨nodup, keeps _ t before.sound, fun key member => ?_, framed.config.trans copied.config⟩,
    fun key own same => ?_⟩
  · by_contra other
    obtain ⟨entry, found⟩ := OrdMap.mem_iff.mp member
    rw [framed.outside key other, copied.entries, if_neg other] at found
    cases found
  · have entries := copied.entries key
    rw [if_pos own] at entries
    rw [← entries]
    refine framed.entry_of_stamp before.sound ?_
    have stamps : t.stamp key = s.stamp key := by
      unfold stamp
      rw [entries]
    rw [stamps]
    simpa [restamped] using same

end LocalRuns

/-! ### Preparation of a command -/

/-- The keys of a command, once each and in byte order. -/
def commandKeys (command : Command) : List Bytes :=
  (OrdMap.ofKeys command.visitKeys).keys

theorem commandKeys_sorted (command : Command) : (commandKeys command).Pairwise (· < ·) :=
  (OrdMap.ofKeys command.visitKeys).sorted

theorem commandKeys_nodup (command : Command) : (commandKeys command).Nodup :=
  (OrdMap.ofKeys command.visitKeys).nodup_keys

theorem commandKeys_local (command : Command) :
    Local (command.rewrites = false) (commandKeys command) Reply (executeInner command) :=
  (executeInner_local command).mono fun _ own =>
    OrdMap.mem_keys.mpr (OrdMap.mem_ofKeys.mpr own)

/-- The run of a command on its shadow. -/
def shadowRun (s : Store) (command : Command) : Reply × Store :=
  (executeInner command).run (s.shadow (commandKeys command))

theorem prepare_eq (s : Store) (ordinary : command.isMemory = false) :
    s.prepare command =
      s.prepared (s.shadowRun command).1
        ((s.shadowRun command).2.imagesOf
          ((commandKeys command).filter (s.restamped (s.shadowRun command).2)))
        (if command.readsOnly then .expiration else .client) (s.shadowRun command).2.fault := by
  cases command with
  | memory key operation => cases ordinary
  | _ => rfl

theorem prepare_memory_entries (s : Store) (memory : command.isMemory = true) :
    (s.prepare command).entries = [] ∧ (s.prepare command).fault = false := by
  cases command with
  | memory key operation => exact ⟨rfl, rfl⟩
  | _ => cases memory

@[simp] theorem prepare_generation (s : Store) (command : Command) :
    (s.prepare command).generation = s.generation := by
  unfold prepare
  split <;> rfl

/-- A prepared command creates no memory collection. -/
theorem prepare_inherit (s : Store) (command : Command) :
    EntriesInherit s (s.prepare command).entries := by
  by_cases memory : command.isMemory = true
  · rw [(prepare_memory_entries s memory).1]
    exact nofun
  · rw [prepare_eq s (by simpa using memory)]
    exact imagesOf_inherit
      (executeInner_inherits command _ (copied_shadow s (commandKeys command)).inherits) _

/-- The keys of a prepared batch are in strictly increasing order. -/
theorem prepare_keys_sorted (s : Store) (command : Command) :
    ((s.prepare command).entries.map Prod.fst).Pairwise (· < ·) := by
  by_cases memory : command.isMemory = true
  · rw [(prepare_memory_entries s memory).1]
    exact List.Pairwise.nil
  · rw [prepare_eq s (by simpa using memory)]
    show ((imagesOf _ _).map Prod.fst).Pairwise (· < ·)
    rw [imagesOf_keys]
    exact (commandKeys_sorted command).filter _

/-- A mutation names the key of the entry it was made from. -/
theorem mutations_keys (entries : List (Bytes × Option Image)) :
    (entries.map Mutation.ofEntry).map Mutation.key = entries.map Prod.fst := by
  rw [List.map_map]
  refine List.map_congr_left fun entry _ => ?_
  show (Mutation.ofEntry entry).key = entry.1
  unfold Mutation.ofEntry
  split <;> rfl

/-- Direct execution removed or rewrote the entry: an entry written anew has a fresh stamp. -/
def rewritten (s after : Store) (key : Bytes) : Prop :=
  after.values.get? key ≠ s.values.get? key

instance (s after : Store) (key : Bytes) : Decidable (rewritten s after key) :=
  inferInstanceAs (Decidable (_ ≠ _))

/-- A store of 1 KiB at the epoch that holds `k` with a time to live of 10 ms. -/
def volatileStore : Store :=
  let empty := withConfig .kibibyte ⟨0, 0, 1000000000⟩ 0
  empty.apply (empty.prepare (.setWithOptions [107] [49] ⟨.always, .after 10000000, false⟩))

section

variable (holds : Sound rest s)

include holds

/-- A prepared command overlays its shadow run. -/
theorem prepare_overlay (ordinary : command.isMemory = false) :
    Overlay (commandKeys command) (s.restamped (s.shadowRun command).2) s (s.shadowRun command).2
      (s.prepare command) := by
  obtain ⟨tentative, untouched⟩ := (copied_shadow s (commandKeys command)).run
    (commandKeys_nodup command) holds (commandKeys_local command)
    fun _ => executeInner_sound command
  have shape := prepare_eq s ordinary
  refine ⟨tentative, ?_, prepare_generation s command, ?_,
    fun key own same => congrArg (Option.map Entry.toImage) (untouched key own same)⟩
  · rw [shape]
    exact tentative.sound.sound
  · rw [shape]
    rfl

theorem prepare_admissible (command : Command) : Admissible s (s.prepare command) := by
  by_cases memory : command.isMemory = true
  · obtain ⟨entries, calm⟩ := prepare_memory_entries s memory
    exact admissible_nil holds entries calm (prepare_generation s command)
  · exact (prepare_overlay holds (by simpa using memory)).admissible holds

/-- The shadow run is a twin of the run on the whole store. -/
theorem prepare_twin (command : Command) :
    (s.shadowRun command).1 = ((executeInner command).run s).1 ∧
      Twin (commandKeys command) ((executeInner command).run s).2 (s.shadowRun command).2 := by
  have twin := (copied_shadow s (commandKeys command)).twin holds.sound
  have related := (commandKeys_local command).related (twin_respected _) s _ twin
  exact ⟨related.1.symm, related.2⟩

/-- Applying a prepared command leaves what direct execution leaves. -/
theorem apply_prepare (ordinary : command.isMemory = false) :
    (s.apply (s.prepare command)).usedBytes = ((executeInner command).run s).2.usedBytes ∧
      ∀ key, (s.apply (s.prepare command)).image? key =
        ((executeInner command).run s).2.image? key := by
  obtain ⟨_, twin⟩ := prepare_twin holds command
  obtain ⟨used, images⟩ := (prepare_overlay holds ordinary).apply holds
  have framed := (commandKeys_local command).keeps (framed_kept _ _ s) s (framed_self _ s)
  refine ⟨used.trans twin.usedBytes.symm, fun key => ?_⟩
  rw [images key]
  split_ifs with own
  · exact (twin.image? own).symm
  · exact congrArg (Option.map Entry.toImage) (framed.outside key own).symm

/-- A prepared command names the keys that direct execution removes or rewrites. -/
theorem mem_prepare_keys (ordinary : command.isMemory = false) (key : Bytes) :
    key ∈ (s.prepare command).entries.map Prod.fst ↔
      rewritten s ((executeInner command).run s).2 key := by
  obtain ⟨_, twin⟩ := prepare_twin holds command
  have framed := (commandKeys_local command).keeps (framed_kept _ _ s) s (framed_self _ s)
  have stamps : ∀ own : key ∈ commandKeys command,
      (s.shadowRun command).2.stamp key = ((executeInner command).run s).2.stamp key := by
    intro own
    unfold stamp
    rw [twin.entries key own]
  rw [(prepare_overlay holds ordinary).names, List.mem_filter]
  constructor
  · rintro ⟨own, changed⟩ same
    have different : s.stamp key ≠ (s.shadowRun command).2.stamp key := by
      simpa [restamped] using changed
    refine different ?_
    rw [stamps own]
    exact (congrArg (Option.map Entry.generation) same).symm
  · intro changed
    have own : key ∈ commandKeys command := by
      by_contra other
      exact changed (framed.outside key other)
    refine ⟨own, ?_⟩
    unfold restamped
    rw [decide_eq_true_eq, stamps own]
    exact fun same => changed (framed.entry_of_stamp holds same)

end

/-- **Prepare then apply is direct execution.** Preparation reads the store and does not change it,
so that its result is current and applies without a panic. At the store's clock reading: the reply
is that of direct execution; the map and the byte count after applying are those direct execution
leaves; and the batch names exactly the keys direct execution removed or rewrote, once each, in
increasing byte order. -/
theorem prepare_apply_eq_execute (s : Store) (holds : s.Valid) (command : Command)
    (ordinary : command.isMemory = false) :
    (s.prepare command).generation = s.generation ∧
      (s.apply (s.prepare command)).fault = false ∧
      (s.prepare command).reply = ((executeInner command).run s).1 ∧
      (∀ key, (s.apply (s.prepare command)).image? key =
        ((executeInner command).run s).2.image? key) ∧
      (s.apply (s.prepare command)).usedBytes = ((executeInner command).run s).2.usedBytes ∧
      (((s.prepare command).batch.mutations.map Mutation.key).Pairwise (· < ·)) ∧
      ∀ key, key ∈ (s.prepare command).batch.mutations.map Mutation.key ↔
        rewritten s ((executeInner command).run s).2 key := by
  obtain ⟨used, images⟩ := apply_prepare holds.sound ordinary
  have names : (s.prepare command).batch.mutations.map Mutation.key =
      (s.prepare command).entries.map Prod.fst := by
    rw [prepare_eq s ordinary]
    exact mutations_keys _
  refine ⟨prepare_generation s command,
    ((prepare_admissible holds.sound command).sound holds.sound).1.sound, ?_, images, used, ?_,
    fun key => ?_⟩
  · rw [prepare_eq s ordinary]
    exact (prepare_twin holds.sound command).1
  · rw [names]
    exact prepare_keys_sorted s command
  · rw [names]
    exact mem_prepare_keys holds.sound ordinary key

theorem volatileStore_valid : volatileStore.Valid :=
  have empty := valid_withConfig ..
  (prepare_admissible empty.sound _).valid empty

/-- Reading `k` after its deadline: the batch names the key that direct execution removes. -/
theorem prepare_apply_eq_execute_elapsed :
    let s := volatileStore.atClock ⟨10000000, 10, 1000000000⟩
    s.image? [107] ≠ none ∧
      [107] ∈ (s.prepare (.get [107])).batch.mutations.map Mutation.key ∧
      (s.apply (s.prepare (.get [107]))).image? [107] =
        ((executeInner (.get [107])).run s).2.image? [107] := by
  have valid := volatileStore_valid.atClock ⟨10000000, 10, 1000000000⟩
  obtain ⟨_, _, _, images, _, _, names⟩ :=
    prepare_apply_eq_execute _ valid (.get [107]) rfl
  exact ⟨by decide, (names _).mpr (by decide), images _⟩

/-! ### Preparation of a memory operation -/

/-- The run of a memory operation on the shadow of its key. -/
def memoryRun (s : Store) (key : Bytes) (operation : Operation) : MemoryOutcome × Store :=
  (memoryInner key operation).run (s.memoryShadow key)

/-- The record-2 mutation of a memory operation: its own, or the tombstone of an expired key. -/
def memoryResolved (s : Store) (key : Bytes) (operation : Operation) : Option MemoryMutation :=
  (s.memoryRun key operation).1.resolved.or
    (if (s.changes (s.memoryRun key operation).2 [key]).isEmpty then none
    else some (.legacy (.delete key)))

theorem prepareMemoryWithLimit_eq (s : Store) (key : Bytes) (operation : Operation)
    (recordLimit : Nat) :
    s.prepareMemoryWithLimit key operation recordLimit =
      if (s.memoryResolved key operation).all
          (memoryFits recordLimit key ((s.memoryRun key operation).2.image? key)) then
        ⟨s.prepared (s.memoryRun key operation).1.reply
          (s.changes (s.memoryRun key operation).2 [key])
          (if operation.writesDataset then .client else .expiration)
          (s.memoryRun key operation).2.fault, s.memoryResolved key operation,
          (s.memoryRun key operation).1.searchStats⟩
      else
        ⟨s.prepared (.error .aofRecordLimit) []
          (if operation.writesDataset then .client else .expiration)
          (s.memoryRun key operation).2.fault, none, none⟩ := rfl

theorem memoryRun_spec (holds : Sound rest s) (key : Bytes) (operation : Operation) :
    Tentative [key] s (s.memoryRun key operation).2 ∧
      ∀ own ∈ [key], s.restamped (s.memoryRun key operation).2 own = false →
        (s.memoryRun key operation).2.values.get? own = s.values.get? own :=
  (copied_memoryShadow s key).run (List.nodup_singleton key) holds (memoryInner_local key operation)
    fun _ => memoryInner_sound operation

/-- What a memory operation leaves at its key, laid over the store. -/
theorem memory_overlay (holds : Sound rest s) (key : Bytes) (operation : Operation)
    (origin : MutationOrigin) :
    Overlay [key] (s.restamped (s.memoryRun key operation).2) s (s.memoryRun key operation).2
      (s.prepared (s.memoryRun key operation).1.reply (s.changes (s.memoryRun key operation).2 [key])
        origin (s.memoryRun key operation).2.fault) :=
  have ⟨tentative, untouched⟩ := memoryRun_spec holds key operation
  ⟨tentative, tentative.sound.sound, rfl, rfl,
    fun own inside same => congrArg (Option.map Entry.toImage) (untouched own inside same)⟩

/-- **A prepared memory operation is admissible.** -/
theorem prepareMemoryWithLimit_admissible (holds : Sound rest s) (key : Bytes)
    (operation : Operation) (recordLimit : Nat) :
    Admissible s (s.prepareMemoryWithLimit key operation recordLimit).prepared := by
  rw [prepareMemoryWithLimit_eq]
  split
  · exact (memory_overlay holds key operation _).admissible holds
  · exact admissible_nil holds rfl (memoryRun_spec holds key operation).1.sound.sound rfl

end Store

end Sider
