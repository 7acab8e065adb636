/-
**A whole EXEC prepared on one owner.**

`Running` holds of a transaction between commands: its shadow is a tentative store of the owner's
keys, and a key whose trace token is calm still holds the owner's image. Sealing it therefore gives a
batch that lays the tentative store over the owner (`sealed_overlay`, `prepareBatchAt_admissible`).
-/

import Sider.Storage.Prepare
import Sider.Storage.WatchSound

namespace Sider

variable {commands : List Command} {command : Command} {key : Bytes}

namespace OwnerTransaction

open Store

variable {owner : Store} {rest : Nat} {keys : List Bytes} {time : Clock} {t : OwnerTransaction}

/-- A transaction of `owner` over `keys` between two commands. -/
structure Running (owner : Store) (keys : List Bytes) (time : Clock) (t : OwnerTransaction) :
    Prop where
  tentative : Tentative keys owner t.shadow
  clock : t.shadow.clock = time
  names : t.trace.map WatchToken.key = keys
  sane : t.shadow.watches.Sane
  tracks : ∀ token ∈ t.trace, t.shadow.watches.Tracks token
  untouched : ∀ token ∈ t.trace, t.shadow.watches.invalidated token = false →
    t.shadow.image? token.key = owner.image? token.key
  inherits : Inherits owner t.shadow

/-- The copy a transaction starts from, before the trace tokens are taken. -/
theorem copied_start (owner : Store) (keys : List Bytes) (time : Clock) :
    Copied owner keys time (keys.foldl
      (fun shadow key => owner.copyMembers (owner.copyEntry shadow key) key) (owner.blank time)) := by
  have all : ∀ (done more : List Bytes) (shadow : Store), Copied owner done time shadow →
      Copied owner (done ++ more) time (more.foldl
        (fun shadow key => owner.copyMembers (owner.copyEntry shadow key) key) shadow) := by
    intro done more
    induction more generalizing done with
    | nil =>
      intro shadow copied
      rw [List.append_nil]
      exact copied
    | cons key others ih =>
      intro shadow copied
      have next := ih (done ++ [key]) _ (copied_copyMembers (copied_copyEntry copied key) key)
      rw [List.append_assoc] at next
      exact next
  exact all [] keys _ (copied_blank owner time)

theorem watches_blank (owner : Store) (keys : List Bytes) (time : Clock) :
    (keys.foldl (fun shadow key => owner.copyMembers (owner.copyEntry shadow key) key)
      (owner.blank time)).watches = Registry.new 0 := by
  have step : ∀ (shadow : Store) (key : Bytes),
      (owner.copyMembers (owner.copyEntry shadow key) key).watches = shadow.watches := by
    intro shadow key
    unfold copyMembers copyEntry
    split <;> rfl
  have all : ∀ shadow : Store, (keys.foldl
      (fun shadow key => owner.copyMembers (owner.copyEntry shadow key) key) shadow).watches =
      shadow.watches := by
    induction keys with
    | nil => exact fun _ => rfl
    | cons key others ih => exact fun shadow => (ih _).trans (step shadow key)
  exact all _

/-- A transaction starts as a copy of its owner's keys, with one trace token per key. -/
theorem start_eq (owner : Store) (keys : List Bytes) (time : Clock) :
    ∃ shadow, Copied owner keys time shadow ∧ shadow.watches.Sane ∧
      start owner keys time = ⟨(shadow.watch keys).2, (shadow.watch keys).1⟩ :=
  ⟨_, copied_start owner keys time, watches_blank owner keys time ▸ Registry.sane_new 0, rfl⟩

/-- A transaction starts with every key as its owner holds it. -/
theorem start_running (holds : Sound rest owner) (nodup : keys.Nodup) (time : Clock) :
    Running owner keys time (start owner keys time) := by
  obtain ⟨shadow, copied, sane, shape⟩ := start_eq owner keys time
  rw [shape]
  have watched := watch_spec sane keys
  have tentative := copied.tentative nodup holds
  have image : ∀ key, (shadow.watch keys).2.image? key = shadow.image? key := fun key => by
    rw [watched.store]
    rfl
  refine ⟨?_, ?_, watched.keys, watched.raises.sane sane, watched.tracks, fun token member _ => ?_,
    fun key found collection hit same => ?_⟩
  · rw [watched.store]
    exact ⟨nodup, tentative.sound.withWatches _, tentative.covers, tentative.config⟩
  · rw [watched.store]
    exact copied.clock
  · have own : token.key ∈ keys := watched.keys ▸ List.mem_map.mpr ⟨token, member, rfl⟩
    rw [image, copied.image?, if_pos own]
  · rw [image] at hit
    exact copied.inherits key found collection hit same

/-- No trace token is raised at the start, and the owner's bytes are counted. -/
theorem start_calm (owner : Store) (keys : List Bytes) (time : Clock) :
    (start owner keys time).shadow.usedBytes = owner.usedBytes ∧
      ∀ token ∈ (start owner keys time).trace,
        (start owner keys time).shadow.watches.invalidated token = false := by
  obtain ⟨shadow, copied, sane, shape⟩ := start_eq owner keys time
  have watched := watch_spec sane keys
  rw [shape]
  refine ⟨?_, watched.calm⟩
  rw [watched.store]
  exact copied.usedBytes

/-- The keys of a prepared command are among its own. -/
theorem prepare_keys_subset (s : Store) (command : Command) (key : Bytes)
    (member : key ∈ (s.prepare command).entries.map Prod.fst) : key ∈ command.visitKeys := by
  by_cases memory : command.isMemory = true
  · rw [(prepare_memory_entries s memory).1] at member
    cases member
  · rw [prepare_eq s (by simpa using memory)] at member
    change key ∈ (imagesOf _ _).map Prod.fst at member
    rw [imagesOf_keys] at member
    exact OrdMap.mem_ofKeys.mp (OrdMap.mem_keys.mp (List.mem_filter.mp member).1)

/-- A key of the transaction was touched. -/
def touches (t : OwnerTransaction) (key : Bytes) : Bool :=
  t.trace.any fun token => token.key = key && t.shadow.watches.invalidated token

/-- The sealed entries are the tentative images of the touched keys. -/
theorem sealed_entries (names : t.trace.map WatchToken.key = keys) (nodup : keys.Nodup)
    (owner : Store) (replies : List Reply) :
    (t.sealed owner replies).entries = t.shadow.imagesOf (keys.filter t.touches) := by
  show (t.trace.filter _).map _ = (keys.filter t.touches).map _
  rw [← names, List.filter_map, List.map_map]
  have same : t.trace.filter (fun token => t.shadow.watches.invalidated token) =
      t.trace.filter (t.touches ∘ WatchToken.key) := by
    refine List.filter_congr fun token member => ?_
    have unique : ∀ other ∈ t.trace, other.key = token.key → other = token :=
      fun other inside => List.inj_on_of_nodup_map (names ▸ nodup) inside member
    cases flag : t.shadow.watches.invalidated token with
    | true => exact (List.any_eq_true.mpr ⟨token, member, by simp [flag]⟩).symm
    | false =>
      refine (List.any_eq_false.mpr fun other inside raised => ?_).symm
      obtain ⟨equal, hit⟩ : other.key = token.key ∧ t.shadow.watches.invalidated other = true := by
        simpa using raised
      rw [unique other inside equal, flag] at hit
      cases hit
  rw [same]
  rfl

variable (running : Running owner keys time t)

include running

/-- **One tentative command.** -/
theorem step_running (own : ∀ key ∈ command.visitKeys, key ∈ keys) :
    Running owner keys time (t.acceptCandidate (t.prepareCandidate command)) := by
  have sound := ((prepare_admissible running.tentative.sound command).sound running.tentative.sound).1
  have sorted := prepare_keys_sorted t.shadow command
  have nodup : ((t.shadow.prepare command).entries.map Prod.fst).Nodup :=
    sorted.imp fun less => ne_of_lt less
  have raises := raises_apply t.shadow (t.shadow.prepare command)
  have outside : ∀ key, key ∉ (t.shadow.prepare command).entries.map Prod.fst →
      (t.shadow.apply (t.shadow.prepare command)).image? key = t.shadow.image? key :=
    fun _ absent => image?_apply_of_not_mem nodup absent
  refine ⟨⟨running.tentative.nodup, sound, fun key member => ?_, ?_⟩, ?_, running.names,
    raises.sane running.sane, fun token member => raises.tracks token (running.tracks token member),
    fun token member calm => ?_,
    running.inherits.trans (apply_inherits nodup (prepare_inherit t.shadow command))⟩
  · by_contra other
    have absent : key ∉ (t.shadow.prepare command).entries.map Prod.fst := fun inside =>
      other (own key (prepare_keys_subset _ _ key inside))
    obtain ⟨entry, found⟩ := OrdMap.mem_iff.mp member
    have image := outside key absent
    change (t.shadow.apply (t.shadow.prepare command)).values.get? key = some entry at found
    rw [image?_eq_some.mpr ⟨entry, found, rfl⟩] at image
    obtain ⟨before, held, _⟩ := image?_eq_some.mp image.symm
    exact other (running.tentative.covers key (OrdMap.mem_iff.mpr ⟨before, held⟩))
  · exact (config_apply _ _).trans running.tentative.config
  · exact (clock_apply _ _).trans running.clock
  · have flag := raises.invalidated token (running.tracks token member)
    change Registry.invalidated (t.shadow.apply (t.shadow.prepare command)).watches token = false
      at calm
    rw [calm] at flag
    have neither : ¬(t.shadow.watches.invalidated token = true ∨ _) := fun raised => by
      cases flag.mpr raised
    show (t.shadow.apply (t.shadow.prepare command)).image? token.key = _
    rw [outside _ fun inside => neither (.inr inside)]
    exact running.untouched token member (by simpa using fun raised => neither (.inl raised))

/-- **A whole queue.** -/
theorem run_running {replies : List Reply}
    (own : ∀ command ∈ commands, ∀ key ∈ command.visitKeys, key ∈ keys) :
    Running owner keys time (commands.foldl OwnerTransaction.step (t, replies)).1 := by
  induction commands generalizing t replies with
  | nil => exact running
  | cons command others ih =>
    have tail : ∀ command ∈ others, ∀ key ∈ command.visitKeys, key ∈ keys :=
      fun other member => own other (List.mem_cons_of_mem _ member)
    cases command with
    | unwatch => exact ih running tail
    | _ => exact ih (step_running running (own _ List.mem_cons_self)) tail

theorem untouched_image (own : key ∈ keys) (calm : t.touches key = false) :
    t.shadow.image? key = owner.image? key := by
  rw [← running.names] at own
  obtain ⟨token, member, rfl⟩ := List.mem_map.mp own
  refine running.untouched token member ?_
  simpa using List.any_eq_false.mp calm token member

/-- **Sealing lays the tentative store over the owner.** -/
theorem sealed_overlay (replies : List Reply) :
    Overlay keys t.touches owner t.shadow (t.sealed owner replies) where
  tentative := running.tentative
  calm := running.tentative.sound.sound
  current := rfl
  entries := sealed_entries running.names running.tentative.nodup owner replies
  untouched := fun _ own calm => untouched_image running own calm

end OwnerTransaction

namespace Store

variable {rest : Nat} {s : Store}

/-- The keys of a queue, once each and in byte order. -/
def batchKeys (commands : List Command) : List Bytes :=
  (OrdMap.ofKeys (commands.flatMap Command.visitKeys)).keys

theorem batchKeys_nodup (commands : List Command) : (batchKeys commands).Nodup :=
  (OrdMap.ofKeys (commands.flatMap Command.visitKeys)).nodup_keys

theorem batchKeys_sorted (commands : List Command) : (batchKeys commands).Pairwise (· < ·) :=
  (OrdMap.ofKeys (commands.flatMap Command.visitKeys)).sorted

theorem mem_batchKeys (member : command ∈ commands) (own : key ∈ command.visitKeys) :
    key ∈ batchKeys commands :=
  OrdMap.mem_keys.mpr (OrdMap.mem_ofKeys.mpr (List.mem_flatMap.mpr ⟨command, member, own⟩))

/-- The transaction of a queue after its last command. -/
def tentativeRun (s : Store) (commands : List Command) (time : Clock) :
    OwnerTransaction × List Reply :=
  commands.foldl OwnerTransaction.step (OwnerTransaction.start s (batchKeys commands) time, [])

theorem tentativeRun_running (holds : Sound rest s) (commands : List Command) (time : Clock) :
    OwnerTransaction.Running s (batchKeys commands) time (s.tentativeRun commands time).1 :=
  OwnerTransaction.run_running (OwnerTransaction.start_running holds (batchKeys_nodup commands) time)
    fun _ member _ own => mem_batchKeys member own

theorem prepareBatchAt_eq (s : Store) (ordinary : commands.any Command.isMemory = false)
    (time : Clock) :
    s.prepareBatchAt commands time =
      (s.tentativeRun commands time).1.sealed s (s.tentativeRun commands time).2 := by
  unfold prepareBatchAt
  rw [if_neg (by simp [ordinary])]
  rfl

theorem prepareBatchAt_memory (s : Store) (memory : commands.any Command.isMemory = true)
    (time : Clock) :
    s.prepareBatchAt commands time =
      s.prepared (.error (.memory "ERR memory commands are not supported in MULTI")) [] .client
        false := by
  unfold prepareBatchAt
  rw [if_pos memory]

/-- A batch creates no memory collection. -/
theorem prepareBatchAt_inherit (holds : Sound rest s) (commands : List Command) (time : Clock) :
    EntriesInherit s (s.prepareBatchAt commands time).entries := by
  cases memory : commands.any Command.isMemory with
  | true =>
    rw [prepareBatchAt_memory s memory]
    exact nofun
  | false =>
    have running := tentativeRun_running holds commands time
    rw [prepareBatchAt_eq s memory,
      OwnerTransaction.sealed_entries running.names running.tentative.nodup]
    exact imagesOf_inherit running.inherits _

/-- **A prepared batch is admissible.** -/
theorem prepareBatchAt_admissible (holds : Sound rest s) (commands : List Command) (time : Clock) :
    Admissible s (s.prepareBatchAt commands time) := by
  cases memory : commands.any Command.isMemory with
  | true =>
    rw [prepareBatchAt_memory s memory]
    exact admissible_nil holds rfl rfl rfl
  | false =>
    rw [prepareBatchAt_eq s memory]
    exact (OwnerTransaction.sealed_overlay (tentativeRun_running holds commands time) _).admissible
      holds

end Store

end Sider
