/-
**An EXEC batch is sequential execution at one instant.**

`sequential` executes a queue one command after another. A batch is prepared on two nested shadows,
whose entries carry other stamps than the entries of a direct run, so the two runs are compared by
`Mirror`: equal images and counters, and the same keys rewritten since two starting points.
`Follows` carries that comparison along a queue, and `prepareBatchAt_eq_sequential` reads the result
off its last state.
-/

import Mathlib.Data.List.Induction
import Sider.Storage.Batch

namespace Sider

open StateProgram StoreM Store

variable {rest : Nat} {commands : List Command} {keys : List Bytes}

/-! ### The sequential run -/

/-- One queued command, executed directly; the connection answers UNWATCH. -/
def executeQueued : Command → StoreM Reply
  | .unwatch => pure .ok
  | command => executeInner command

/-- Replies and store after executing a queue in order. -/
def sequentialStep (state : Store × List Reply) (command : Command) : Store × List Reply :=
  let run := (executeQueued command).run state.1
  (run.2, state.2 ++ [run.1])

def sequential (s : Store) (commands : List Command) : Store × List Reply :=
  commands.foldl sequentialStep (s, [])

theorem sequential_append (s : Store) (commands : List Command) (command : Command) :
    sequential s (commands ++ [command]) = sequentialStep (sequential s commands) command := by
  unfold sequential
  rw [List.foldl_append]
  rfl

/-- Some command of the queue removes or rewrites the key. -/
def ChangedBy (s : Store) (commands : List Command) (key : Bytes) : Prop :=
  ∃ before command after, commands = before ++ command :: after ∧
    rewritten (sequential s before).1 (sequential s (before ++ [command])).1 key

theorem changedBy_nil (s : Store) (key : Bytes) : ¬ ChangedBy s [] key := by
  rintro ⟨before, command, after, split, _⟩
  cases before <;> cases split

/-- The last command changes the key, or an earlier one does. -/
theorem changedBy_append (s : Store) (commands : List Command) (command : Command) (key : Bytes) :
    ChangedBy s (commands ++ [command]) key ↔ ChangedBy s commands key ∨
      rewritten (sequential s commands).1 (sequential s (commands ++ [command])).1 key := by
  constructor
  · rintro ⟨before, changing, after, split, changed⟩
    rcases List.eq_nil_or_concat after with rfl | ⟨shorter, last, rfl⟩
    · obtain ⟨rfl, same⟩ := List.append_inj' split rfl
      obtain rfl := List.singleton_inj.mp same
      exact .inr changed
    · rw [List.concat_eq_append, ← List.cons_append, ← List.append_assoc] at split
      exact .inl ⟨before, changing, shorter, (List.append_inj' split rfl).1, changed⟩
  · rintro (⟨before, changing, after, rfl, changed⟩ | changed)
    · exact ⟨before, changing, after ++ [command], by simp, changed⟩
    · exact ⟨commands, command, [], rfl, changed⟩

theorem executeQueued_local (command : Command) :
    Local (command.rewrites = false) command.visitKeys Reply (executeQueued command) := by
  cases command with
  | unwatch => exact Local.pure _
  | _ => exact executeInner_local _

theorem executeQueued_sound (command : Command) : Keeps rest (executeQueued command) := by
  cases command with
  | unwatch => exact keeps_pure _
  | _ => exact executeInner_sound _

theorem sequential_sound {s : Store} (holds : Store.Sound rest s) (commands : List Command) :
    Store.Sound rest (sequential s commands).1 := by
  induction commands using List.reverseRecOn with
  | nil => exact holds
  | append_singleton commands command ih =>
    rw [sequential_append]
    exact executeQueued_sound command _ ih

/-! ### Two runs side by side -/

/-- Equal images and counters at `keys`, and the same of them rewritten since `s₀` and `t₀`. -/
structure Mirror (keys : List Bytes) (s₀ t₀ s t : Store) : Prop where
  images : ∀ key ∈ keys, s.image? key = t.image? key
  clock : s.clock = t.clock
  config : s.config = t.config
  usedBytes : s.usedBytes = t.usedBytes
  fault : s.fault = t.fault
  start : ∀ key ∈ keys, s₀.image? key = t₀.image? key
  same : ∀ key ∈ keys,
    (s.values.get? key = s₀.values.get? key ↔ t.values.get? key = t₀.values.get? key)
  left : ∀ key entry, s₀.values.get? key = some entry → entry.generation ≤ s.generation
  right : ∀ key entry, t₀.values.get? key = some entry → entry.generation ≤ t.generation

section Mirrors

variable {s₀ t₀ s t : Store} {key : Bytes}

theorem mirror_removed (mirror : Mirror keys s₀ t₀ s t) (own : key ∈ keys) :
    Mirror keys s₀ t₀ (s.removed key) (t.removed key) := by
  have image := mirror.images key own
  cases found : s.values.get? key with
  | none =>
    have missing : t.values.get? key = none := by
      rw [← image?_eq_none, ← image, image?_eq_none]
      exact found
    have first : s.removed key = s := by unfold removed; rw [found]
    have second : t.removed key = t := by unfold removed; rw [missing]
    rw [first, second]
    exact mirror
  | some entry =>
    obtain ⟨other, hit, twin⟩ : ∃ other, t.values.get? key = some other ∧
        other.toImage = entry.toImage := by
      refine image?_eq_some.mp (image.symm.trans ?_)
      exact image?_eq_some.mpr ⟨entry, found, rfl⟩
    have value : other.value = entry.value := congrArg Image.value twin
    have first : s.removed key = s.removeEntry key entry := by unfold removed; rw [found]
    have second : t.removed key = t.removeEntry key other := by unfold removed; rw [hit]
    refine ⟨fun probe member => ?_, ?_, ?_, ?_, ?_, mirror.start, fun probe member => ?_,
      fun probe old stored => (mirror.left probe old stored).trans (generation_le_removed s key),
      fun probe old stored => (mirror.right probe old stored).trans (generation_le_removed t key)⟩
    · rw [image?_removed, image?_removed, mirror.images probe member]
    · rw [removed_clock, removed_clock, mirror.clock]
    · rw [removed_config, removed_config, mirror.config]
    · rw [first, second]
      show s.usedBytes - charge key entry.value = t.usedBytes - charge key other.value
      rw [value, mirror.usedBytes]
    · rw [first, second]
      show (s.fault || _) = (t.fault || _)
      rw [value, mirror.fault, mirror.usedBytes]
    · rw [removed_values, removed_values, OrdMap.get?_erase, OrdMap.get?_erase]
      split_ifs
      · rw [eq_comm, ← image?_eq_none, mirror.start probe member, image?_eq_none, eq_comm]
      · exact mirror.same probe member

theorem mirror_installEntry (mirror : Mirror keys s₀ t₀ s t) (image : Image) (own : key ∈ keys) :
    Mirror keys s₀ t₀ (s.installEntry key image) (t.installEntry key image) := by
  have watched : Mirror keys s₀ t₀ { s with watches := s.watches.invalidate key }
      { t with watches := t.watches.invalidate key } :=
    ⟨mirror.images, mirror.clock, mirror.config, mirror.usedBytes, mirror.fault, mirror.start,
      mirror.same, mirror.left, mirror.right⟩
  have dropped := mirror_removed watched own
  refine ⟨fun probe member => ?_, dropped.clock, dropped.config, ?_, ?_, mirror.start,
    fun probe member => ?_, fun probe old stored => (dropped.left probe old stored).trans (Nat.le_succ _),
    fun probe old stored => (dropped.right probe old stored).trans (Nat.le_succ _)⟩
  · rw [image?_installEntry, image?_installEntry, mirror.images probe member]
  · exact congrArg (· + charge key image.value) dropped.usedBytes
  · show (_ || _) = (_ || _)
    rw [dropped.fault, dropped.usedBytes]
  · show (OrdMap.insert _ key _).get? probe = _ ↔ (OrdMap.insert _ key _).get? probe = _
    rw [OrdMap.get?_insert, OrdMap.get?_insert]
    split_ifs with here
    · -- A new entry is stamped later than every entry of its starting point.
      refine iff_of_false (fun same => ?_) fun same => ?_
      · exact absurd (dropped.left probe _ same.symm) (Nat.not_succ_le_self _)
      · exact absurd (dropped.right probe _ same.symm) (Nat.not_succ_le_self _)
    · exact dropped.same probe member

theorem mirror_respected (keys : List Bytes) (s₀ t₀ : Store) : Respected keys (Mirror keys s₀ t₀) where
  image := fun mirror own => mirror.images _ own
  clock := fun mirror => mirror.clock
  config := fun mirror => mirror.config
  usedBytes := fun mirror => mirror.usedBytes
  removed := fun mirror own => mirror_removed mirror own
  installed := fun image mirror own => mirror_installEntry mirror image own
  raised := fun condition mirror =>
    ⟨mirror.images, mirror.clock, mirror.config, mirror.usedBytes,
      congrArg (· || condition) mirror.fault, mirror.start, mirror.same, mirror.left, mirror.right⟩

/-- A local program on two stores with equal images returns the same result on both, and rewrites
the same keys. -/
theorem mirror_run {plain : Prop} {α : Type} {program : StoreM α} {rest' : Nat}
    (isLocal : Local plain keys α program) (first : Sound rest s) (second : Sound rest' t)
    (images : ∀ key ∈ keys, s.image? key = t.image? key) (clock : s.clock = t.clock)
    (config : s.config = t.config) (usedBytes : s.usedBytes = t.usedBytes) :
    (program.run s).1 = (program.run t).1 ∧ Mirror keys s t (program.run s).2 (program.run t).2 :=
  isLocal.related (mirror_respected keys s t) s t
    ⟨images, clock, config, usedBytes, first.sound.trans second.sound.symm, images,
      fun _ _ => iff_of_true rfl rfl, first.stamped, second.stamped⟩

end Mirrors

/-! ### A transaction follows the sequential run -/

/-- The tentative store mirrors the store of a sequential run, and the raised trace tokens name the
keys the run has changed. -/
structure Follows (rest : Nat) (owner : Store) (keys : List Bytes) (time : Clock)
    (run : Store × List Reply) (changed : Bytes → Prop) (state : OwnerTransaction × List Reply) :
    Prop where
  running : OwnerTransaction.Running owner keys time state.1
  images : ∀ key ∈ keys, run.1.image? key = state.1.shadow.image? key
  outside : ∀ key ∉ keys, run.1.values.get? key = owner.values.get? key
  clock : run.1.clock = time
  config : run.1.config = owner.config
  usedBytes : run.1.usedBytes = state.1.shadow.usedBytes
  sound : Sound rest run.1
  replies : state.2 = run.2
  raised : ∀ token ∈ state.1.trace,
    state.1.shadow.watches.invalidated token = true ↔ changed token.key
  unchanged : ∀ key ∉ keys, ¬ changed key

section Queues

variable {rest : Nat} {owner : Store} {time : Clock} {run : Store × List Reply}
  {changed : Bytes → Prop} {state : OwnerTransaction × List Reply}

theorem follows_start (holds : Sound rest owner) (nodup : keys.Nodup) :
    Follows rest owner keys time (owner.atClock time, []) (fun _ => False)
      (OwnerTransaction.start owner keys time, []) := by
  have running := OwnerTransaction.start_running holds nodup time
  obtain ⟨used, calm⟩ := OwnerTransaction.start_calm owner keys time
  refine ⟨running, fun key own => ?_, fun _ _ => rfl, rfl, rfl, used.symm, holds.atClock time, rfl,
    fun token member => ?_, fun _ _ => not_false⟩
  · rw [← running.names] at own
    obtain ⟨token, member, rfl⟩ := List.mem_map.mp own
    exact (running.untouched token member (calm token member)).symm
  · rw [calm token member]
    exact iff_of_false Bool.false_ne_true not_false

section

variable (follows : Follows rest owner keys time run changed state)

include follows

theorem Follows.congr {other : Bytes → Prop} (same : ∀ key, changed key ↔ other key) :
    Follows rest owner keys time run other state :=
  { follows with
    raised := fun token member => (follows.raised token member).trans (same _)
    unchanged := fun key outside => (not_congr (same key)).mp (follows.unchanged key outside) }

/-- **One command of the queue.** -/
theorem follows_step {command : Command} (ordinary : command.isMemory = false)
    (own : ∀ key ∈ command.visitKeys, key ∈ keys) :
    Follows rest owner keys time (sequentialStep run command)
      (fun key => changed key ∨ rewritten run.1 (sequentialStep run command).1 key)
      (OwnerTransaction.step state command) := by
  by_cases answered : command = .unwatch
  · subst answered
    have unwatched : Follows rest owner keys time (run.1, run.2 ++ [.ok]) changed
        (state.1, state.2 ++ [.ok]) :=
      { follows with replies := congrArg (· ++ [Reply.ok]) follows.replies }
    exact unwatched.congr fun _ => (or_iff_left fun rewritten => rewritten rfl).symm
  have direct : sequentialStep run command = (((executeInner command).run run.1).2,
      run.2 ++ [((executeInner command).run run.1).1]) := by
    cases command with
    | unwatch => exact absurd rfl answered
    | _ => rfl
  have step : OwnerTransaction.step state command =
      (state.1.acceptCandidate (state.1.prepareCandidate command),
        state.2 ++ [(state.1.prepareCandidate command).reply]) := by
    cases command with
    | unwatch => exact absurd rfl answered
    | _ => rfl
  have running := follows.running
  have shadowSound := running.tentative.sound
  have isLocal : Local (command.rewrites = false) keys Reply (executeInner command) :=
    (executeInner_local command).mono own
  obtain ⟨reply, mirror⟩ := mirror_run isLocal follows.sound shadowSound follows.images
    (follows.clock.trans running.clock.symm) (follows.config.trans running.tentative.config.symm)
    follows.usedBytes
  obtain ⟨applied, laid⟩ := apply_prepare shadowSound ordinary
  have framed := isLocal.keeps (framed_kept _ keys run.1) run.1 (framed_self keys run.1)
  have answer : (state.1.prepareCandidate command).reply = ((executeInner command).run run.1).1 := by
    rw [reply, ← (prepare_twin shadowSound command).1]
    show (state.1.shadow.prepare command).reply = _
    rw [prepare_eq _ ordinary]
    rfl
  rw [step, direct]
  refine ⟨OwnerTransaction.step_running running own, fun key inside => ?_, fun key other => ?_,
    framed.clock.trans follows.clock, framed.config.trans follows.config,
    mirror.usedBytes.trans applied.symm, executeInner_sound command _ follows.sound, ?_,
    fun token member => ?_, fun key other => ?_⟩
  · exact (mirror.images key inside).trans (laid key).symm
  · exact (framed.outside key other).trans (follows.outside key other)
  · rw [follows.replies, answer]
  · have inside : token.key ∈ keys := running.names ▸ List.mem_map.mpr ⟨token, member, rfl⟩
    have raises := (raises_apply state.1.shadow (state.1.shadow.prepare command)).invalidated token
      (running.tracks token member)
    show (state.1.shadow.apply (state.1.shadow.prepare command)).watches.invalidated token = true ↔ _
    rw [raises, mem_prepare_keys shadowSound ordinary, follows.raised token member]
    exact or_congr_right (not_congr (mirror.same token.key inside).symm)
  · rintro (early | late)
    · exact follows.unchanged key other early
    · exact late (framed.outside key other)

/-- The keys of the sealed batch are those the run has changed. -/
theorem Follows.touched (key : Bytes) : key ∈ keys.filter state.1.touches ↔ changed key := by
  have names := follows.running.names
  rw [List.mem_filter, OwnerTransaction.touches, List.any_eq_true]
  constructor
  · rintro ⟨_, token, member, raised⟩
    obtain ⟨rfl, flag⟩ : token.key = key ∧ state.1.shadow.watches.invalidated token = true := by
      simpa using raised
    exact (follows.raised token member).mp flag
  · intro hit
    have own : key ∈ keys := by
      by_contra other
      exact follows.unchanged key other hit
    obtain ⟨token, member, rfl⟩ := List.mem_map.mp (names ▸ own)
    exact ⟨own, token, member, by simpa using (follows.raised token member).mpr hit⟩

end

/-- **A whole queue**, by induction over its last command. -/
theorem follows_queue (holds : Sound rest owner) (nodup : keys.Nodup)
    (ordinary : ∀ command ∈ commands, command.isMemory = false)
    (own : ∀ command ∈ commands, ∀ key ∈ command.visitKeys, key ∈ keys) :
    Follows rest owner keys time (sequential (owner.atClock time) commands)
      (ChangedBy (owner.atClock time) commands)
      (commands.foldl OwnerTransaction.step (OwnerTransaction.start owner keys time, [])) := by
  induction commands using List.reverseRecOn with
  | nil => exact (follows_start holds nodup).congr fun key => (iff_of_false not_false (changedBy_nil _ key))
  | append_singleton commands command ih =>
    have before := ih (fun other member => ordinary other (List.mem_append_left _ member))
      fun other member => own other (List.mem_append_left _ member)
    have after := follows_step before (ordinary command (by simp)) (own command (by simp))
    rw [List.foldl_append, sequential_append]
    refine after.congr fun key => ?_
    rw [changedBy_append, sequential_append]

end Queues

namespace Store

/-- Applying a prepared batch leaves what executing its commands in order leaves. -/
theorem image?_apply_prepareBatchAt {s : Store} (holds : Sound rest s)
    (ordinary : ∀ command ∈ commands, command.isMemory = false) (time : Clock) (key : Bytes) :
    (s.apply (s.prepareBatchAt commands time)).image? key =
      (sequential (s.atClock time) commands).1.image? key := by
  have plain : commands.any Command.isMemory = false :=
    List.any_eq_false.mpr fun command member => by simp [ordinary command member]
  have follows : Follows rest s (batchKeys commands) time (sequential (s.atClock time) commands)
      (ChangedBy (s.atClock time) commands) (s.tentativeRun commands time) :=
    follows_queue holds (batchKeys_nodup commands) ordinary
      fun _ member _ own => mem_batchKeys member own
  rw [prepareBatchAt_eq s plain, ((OwnerTransaction.sealed_overlay follows.running
    (s.tentativeRun commands time).2).apply holds).2 key]
  split_ifs with own
  · exact (follows.images key own).symm
  · exact congrArg (Option.map Entry.toImage) (follows.outside key own).symm

/-- **An EXEC batch is sequential execution at one instant.** Its replies, and the images, deadlines
and byte count after applying it, are those of executing the commands in order at that time. It has
one mutation for each key that some command changed, in increasing key order and giving the key's
final state, a tombstone if it is gone; applying it raises the tokens of exactly those keys. -/
theorem prepareBatchAt_eq_sequential (s : Store) (holds : s.Valid) (commands : List Command)
    (ordinary : ∀ command ∈ commands, command.isMemory = false) (time : Clock) :
    (s.prepareBatchAt commands time).reply = .array (sequential (s.atClock time) commands).2 ∧
      (∀ key, (s.apply (s.prepareBatchAt commands time)).image? key =
        (sequential (s.atClock time) commands).1.image? key) ∧
      (s.apply (s.prepareBatchAt commands time)).usedBytes =
        (sequential (s.atClock time) commands).1.usedBytes ∧
      ((s.prepareBatchAt commands time).batch.mutations.map Mutation.key).Pairwise (· < ·) ∧
      (∀ key, key ∈ (s.prepareBatchAt commands time).batch.mutations.map Mutation.key ↔
        ChangedBy (s.atClock time) commands key) ∧
      (∀ mutation ∈ (s.prepareBatchAt commands time).batch.mutations,
        mutation = Mutation.ofEntry
          (mutation.key, (sequential (s.atClock time) commands).1.image? mutation.key)) ∧
      ∀ token, s.watches.Tracks token →
        ((s.apply (s.prepareBatchAt commands time)).watches.invalidated token = true ↔
          s.watches.invalidated token = true ∨ ChangedBy (s.atClock time) commands token.key) := by
  have plain : commands.any Command.isMemory = false :=
    List.any_eq_false.mpr fun command member => by simp [ordinary command member]
  have follows : Follows 0 s (batchKeys commands) time (sequential (s.atClock time) commands)
      (ChangedBy (s.atClock time) commands) (s.tentativeRun commands time) :=
    follows_queue holds.sound (batchKeys_nodup commands) ordinary
      fun _ member _ own => mem_batchKeys member own
  have final := image?_apply_prepareBatchAt holds.sound ordinary time
  rw [prepareBatchAt_eq s plain] at final ⊢
  have overlay := OwnerTransaction.sealed_overlay follows.running (s.tentativeRun commands time).2
  generalize s.tentativeRun commands time = state at follows overlay final ⊢
  obtain ⟨used, _⟩ := overlay.apply holds.sound
  have names : (state.1.sealed s state.2).batch.mutations.map Mutation.key =
      (batchKeys commands).filter state.1.touches :=
    (mutations_keys _).trans overlay.names
  refine ⟨congrArg Reply.array follows.replies, final, used.trans follows.usedBytes.symm, ?_,
    fun key => ?_, fun mutation member => ?_, fun token tracks => ?_⟩
  · rw [names]
    exact (batchKeys_sorted commands).filter _
  · rw [names]
    exact follows.touched key
  · obtain ⟨entry, inside, rfl⟩ := List.mem_map.mp member
    have shape : entry ∈ state.1.shadow.imagesOf ((batchKeys commands).filter state.1.touches) :=
      overlay.entries ▸ inside
    obtain ⟨key, touched, rfl⟩ := List.mem_map.mp shape
    have own := (List.mem_filter.mp touched).1
    have named : (Mutation.ofEntry (key, state.1.shadow.image? key)).key = key := by
      unfold Mutation.ofEntry
      split <;> rfl
    rw [named, follows.images key own]
  · rw [(raises_apply s _).invalidated token tracks, overlay.names, follows.touched]

/-- In a store holding `k`, a queue that creates `j`, deletes it again and reads `k` logs one
tombstone for `j` and nothing for `k`. -/
theorem prepareBatchAt_eq_sequential_undone :
    let s := volatileStore
    let commands : List Command := [.set [106] [49], .del [[106]], .get [107]]
    (s.prepareBatchAt commands ⟨0, 0, 1000000000⟩).batch.mutations = [.delete [106]] ∧
      ChangedBy (s.atClock ⟨0, 0, 1000000000⟩) commands [106] ∧
      (s.apply (s.prepareBatchAt commands ⟨0, 0, 1000000000⟩)).usedBytes =
        (sequential (s.atClock ⟨0, 0, 1000000000⟩) commands).1.usedBytes := by
  have mutations : (volatileStore.prepareBatchAt [.set [106] [49], .del [[106]], .get [107]]
      ⟨0, 0, 1000000000⟩).batch.mutations = [.delete [106]] := by decide
  obtain ⟨_, _, used, _, names, _⟩ := prepareBatchAt_eq_sequential volatileStore volatileStore_valid
    [.set [106] [49], .del [[106]], .get [107]] (by decide) ⟨0, 0, 1000000000⟩
  refine ⟨mutations, (names [106]).mp ?_, used⟩
  exact List.mem_singleton_self _

end Store

end Sider
