/-
**Every command keeps a store sound.**

`executeInner_sound`: whatever the command, a run from a sound store ends in a sound store, so no
charge underflows, no `expect` fires and the quota holds. For commands on one key the argument is per
action (`Acts.sound`): a value the quota test admits, or one no larger than the one it replaces. For MSET
it is one sum over the whole batch.
-/

import Sider.Storage.Invariant
import Sider.Storage.Visits

namespace Sider

open StateProgram StoreM Store

variable {α β : Type} {value stored : Value} {keys : List Bytes} {pairs : List (Bytes × Bytes)}
  {program : StoreM Reply} {plain : Prop}

variable {rest : Nat} {key : Bytes}

/-- A program that keeps soundness. -/
def Keeps {α : Type} (rest : Nat) (program : StoreM α) : Prop :=
  Triple (Sound rest) program fun _ => Sound rest

/-! ### Primitive programs -/

theorem lookup_triple (pre : Store → Prop) (key : Bytes) :
    Triple pre (lookup key) fun image s => pre s ∧ s.image? key = image :=
  fun _ holds => ⟨holds, rfl⟩

theorem clock_triple (pre : Store → Prop) :
    Triple pre clock fun reading s => pre s ∧ s.clock = reading :=
  fun _ holds => ⟨holds, rfl⟩

theorem canReplace_triple (pre : Store → Prop) (key : Bytes) (value : Value) :
    Triple pre (canReplace key value) fun admitted s =>
      pre s ∧ s.canReplace key value = admitted :=
  fun _ holds => ⟨holds, rfl⟩

theorem keeps_pure (value : α) : Keeps rest (pure value : StoreM α) :=
  Triple.pure fun _ holds => holds

theorem keeps_lookup (key : Bytes) : Keeps rest (lookup key) :=
  fun _ holds => holds

theorem keeps_clock : Keeps rest clock :=
  fun _ holds => holds

theorem keeps_remove (key : Bytes) : Keeps rest (remove key) :=
  fun _ holds => sound_removed holds key

theorem Keeps.bind {first : StoreM α} {next : α → StoreM β} (head : Keeps rest first)
    (tail : ∀ value, Keeps rest (next value)) : Keeps rest (first >>= next) :=
  Triple.bind head tail

theorem Keeps.foldlM {step : β → α → StoreM β} {items : List α}
    (keeps : ∀ acc item, Keeps rest (step acc item)) (acc : β) :
    Keeps rest (items.foldlM step acc) :=
  Triple.foldlM (fun _ => Sound rest) (fun acc item _ => keeps acc item) acc

theorem keeps_expireKey (key : Bytes) (now : Nat) : Keeps rest (expireKey key now) := by
  refine (keeps_lookup key).bind fun image => ?_
  split_ifs
  · exact (keeps_remove key).bind fun _ => keeps_pure _
  · exact keeps_pure _

/-! ### Writing back -/

theorem storeWithinQuota_sound (other : value.asMemory = none) (expiry : Option (Nat × Int))
    (reply : Reply) : Keeps rest (storeWithinQuota key value expiry reply) := by
  refine Triple.bind (canReplace_triple (Sound rest) key value) fun admitted => ?_
  cases admitted with
  | false => exact Triple.pure fun _ holds => holds.1
  | true =>
    rintro s ⟨holds, test⟩
    obtain ⟨inhabited, fits⟩ := canReplace_fits holds test
    exact sound_inserted_of_not_memory holds other inhabited fits expiry

/-- **What a command does to its key keeps the store sound.** -/
theorem Acts.sound {entry : Option Image} (acts : Acts plain key entry program) :
    Triple (fun s => Sound rest s ∧ s.image? key = entry) program fun _ => Sound rest := by
  cases acts with
  | answer reply => exact Triple.pure fun _ holds => holds.1
  | write other expiry reply =>
    exact Triple.weaken (storeWithinQuota_sound other expiry reply) (fun _ holds => holds.1)
      fun _ _ sound => sound
  | @shrink value image found other inhabited smaller expiry =>
    rintro s ⟨holds, read⟩
    have quota := holds.quota
    have held : s.held key = entrySize key image.value := by
      unfold held
      rw [read, found]
    refine sound_inserted_of_not_memory holds other inhabited ?_ expiry
    unfold entrySize at held ⊢
    omega
  | restamp found _ expiry =>
    exact fun _ holds => sound_inserted_same holds.1 (holds.2.trans found) expiry
  | remove => exact fun _ holds => sound_removed holds.1 key

theorem Visits.sound {now : Nat} (visits : Visits plain key now program) : Keeps rest program := by
  induction visits with
  | answer reply => exact keeps_pure _
  | clock _ bodies => exact keeps_clock.bind bodies
  | read bodies =>
    exact (keeps_expireKey key now).bind fun _ =>
      Triple.bind (lookup_triple (Sound rest) key) fun entry => (bodies entry).sound

/-! ### MSET -/

section Mset

variable {s : Store}

/-- The charge of what a list of keys holds. -/
def heldAll (s : Store) (keys : List Bytes) : Nat :=
  (keys.map s.held).sum

theorem held_removed_of_ne {probe : Bytes} (different : probe ≠ key) :
    (s.removed key).held probe = s.held probe := by
  unfold held
  rw [image?_removed, if_neg different]

theorem heldAll_removed (absent : key ∉ keys) : heldAll (s.removed key) keys = heldAll s keys := by
  refine congrArg List.sum (List.map_congr_left fun probe member => ?_)
  exact held_removed_of_ne fun same => absent (same ▸ member)

theorem foldl_removed_sound (nodup : keys.Nodup) (holds : Sound rest s) :
    Sound rest (keys.foldl removed s) ∧
      (keys.foldl removed s).usedBytes + heldAll s keys = s.usedBytes := by
  induction keys generalizing s with
  | nil => exact ⟨holds, rfl⟩
  | cons key others ih =>
    obtain ⟨absent, tail⟩ := List.nodup_cons.mp nodup
    obtain ⟨sound, used⟩ := ih tail (sound_removed holds key)
    have head := usedBytes_removed holds key
    rw [heldAll_removed absent] at used
    have split : heldAll s (key :: others) = s.held key + heldAll s others := rfl
    refine ⟨sound, ?_⟩
    rw [List.foldl_cons, split]
    omega

theorem settings_foldl_removed (keys : List Bytes) (s : Store) :
    (keys.foldl removed s).config = s.config ∧ (keys.foldl removed s).clock = s.clock := by
  induction keys generalizing s with
  | nil => exact ⟨rfl, rfl⟩
  | cons key others ih => exact ⟨(ih _).1.trans (removed_config s key), (ih _).2.trans (removed_clock s key)⟩

theorem image?_foldl_removed (keys : List Bytes) (s : Store) (probe : Bytes) :
    (keys.foldl removed s).image? probe = if probe ∈ keys then none else s.image? probe := by
  induction keys generalizing s with
  | nil => simp
  | cons key others ih =>
    rw [List.foldl_cons, ih, image?_removed]
    by_cases here : probe = key <;> by_cases there : probe ∈ others <;> simp [here, there]

/-- Releasing the old charges subtracts their sum and raises nothing. -/
theorem run_msetRelease (holds : Sound rest s) {base : Nat} (covered : heldAll s keys ≤ base) :
    (keys.foldlM msetRelease base).run s = (base - heldAll s keys, s) := by
  induction keys generalizing base with
  | nil => rfl
  | cons key others ih =>
    have split : heldAll s (key :: others) = s.held key + heldAll s others := rfl
    rw [split] at covered
    have head : (msetRelease base key).run s = (base - s.held key, s) := by
      have read : (lookup key).run s = (s.image? key, s) := rfl
      rw [msetRelease, run_bind, read]
      cases found : s.values.get? key with
      | none =>
        rw [image?_eq_none.mpr found, held_of_none found]
        rfl
      | some entry =>
        rw [image?_eq_some.mpr ⟨entry, found, rfl⟩]
        rw [held_of_some found] at covered ⊢
        show (base - charge key entry.value, { s with fault := s.fault || _ }) = _
        have small : ¬ base < entrySize key entry.value := by omega
        rw [charge, holds.entryBytes_eq found]
        simp [small]
    show (others.foldlM msetRelease ((msetRelease base key).run s).1).run
      ((msetRelease base key).run s).2 = _
    rw [head, ih (by omega), split]
    congr 1
    omega

/-- The charge of the new pairs. -/
def pairsSize (pairs : List (Bytes × Bytes)) : Nat :=
  (pairs.map fun pair => entrySize pair.1 (.string pair.2)).sum

theorem msetCharge_sum {base usage : Nat} (sum : pairs.foldlM msetCharge base = some usage) :
    usage = base + pairsSize pairs := by
  induction pairs generalizing base with
  | nil => exact (Option.some.inj sum).symm
  | cons pair others ih =>
    obtain ⟨next, head, sum⟩ := Option.bind_eq_some_iff.mp sum
    obtain ⟨bytes, charge, add⟩ := Option.bind_eq_some_iff.mp head
    obtain ⟨_, _, size⟩ := entryBytes_eq_some.mp charge
    obtain ⟨_, add⟩ := Machine.checkedAdd_eq_some.mp add
    have split : pairsSize (pair :: others) =
        entrySize pair.1 (.string pair.2) + pairsSize others := rfl
    rw [ih sum, split]
    omega

theorem insertPairs_sound (nodup : (pairs.map Prod.fst).Nodup) (holds : Sound rest s)
    (absent : ∀ pair ∈ pairs, s.image? pair.1 = none)
    (fits : s.usedBytes + pairsSize pairs ≤ s.config.maxDatasetBytes) :
    Sound rest ((insertPairs pairs).run s).2 := by
  induction pairs generalizing s with
  | nil => exact holds
  | cons pair others ih =>
    obtain ⟨fresh, tail⟩ := List.nodup_cons.mp nodup
    have split : pairsSize (pair :: others) =
        entrySize pair.1 (.string pair.2) + pairsSize others := rfl
    have word := quota_lt_word s.config
    have resolved := resolveMemberDeadlines_of_not_memory
      (show (Value.string pair.2).asMemory = none from rfl) s pair.1
    have good := insertedImage_good resolved none rfl nofun
    have sound : Sound rest (s.inserted pair.1 (.string pair.2) none) :=
      sound_inserted_of_not_memory holds rfl rfl (by omega) none
    have used := usedBytes_installEntry holds good
      (show entrySize pair.1 (.string pair.2) < Machine.word by omega)
    have step := inserted_eq resolved none
    refine ih tail sound (fun later member => ?_) ?_
    · have different : later.1 ≠ pair.1 := fun same =>
        fresh (same ▸ List.mem_map.mpr ⟨later, member, rfl⟩)
      rw [step, image?_installEntry, if_neg different]
      exact absent later (List.mem_cons_of_mem _ member)
    · rw [step, config_installEntry]
      change _ + _ = _ + entrySize pair.1 (.string pair.2) at used
      omega

theorem run_removeKeys (keys : List Bytes) (s : Store) :
    (removeKeys keys).run s = ((), keys.foldl removed s) := by
  induction keys generalizing s with
  | nil => rfl
  | cons key others ih => exact ih (s.removed key)

theorem mset_sound (pairs : List (Bytes × Bytes)) (now : Nat) : Keeps rest (mset pairs now) := by
  unfold mset
  generalize OrdMap.ofList pairs = entries
  refine (Keeps.foldlM (fun _ key => keeps_expireKey key now) ()).bind fun _ => ?_
  intro s holds
  have nodup : entries.keys.Nodup := entries.nodup_keys
  obtain ⟨cleared, used⟩ := foldl_removed_sound nodup holds
  have released := run_msetRelease holds (show heldAll s entries.keys ≤ s.usedBytes by omega)
  -- The three reads leave the store as it is; what follows is one test and two loops.
  have run : ∀ admitted, ((entries.entries.foldlM msetCharge
        (s.usedBytes - heldAll s entries.keys)).any fun usage =>
          usage ≤ s.config.maxDatasetBytes || usage ≤ s.usedBytes) = admitted →
      Sound rest (((if admitted = true then do
        removeKeys entries.keys
        insertPairs entries.entries
        pure .ok
      else pure (.error .outOfMemory) : StoreM Reply)).run s).2 := by
    intro admitted test
    cases admitted with
    | false => exact holds
    | true =>
      obtain ⟨usage, sum, small⟩ := Option.any_eq_true .. |>.mp test
      have total := msetCharge_sum sum
      have quota := holds.quota
      simp only [Bool.or_eq_true, decide_eq_true_eq] at small
      show Sound rest ((insertPairs entries.entries).run ((removeKeys entries.keys).run s).2).2
      rw [run_removeKeys]
      refine insertPairs_sound nodup cleared (fun pair member => ?_) ?_
      · rw [image?_foldl_removed, if_pos]
        exact List.mem_map.mpr ⟨pair, member, rfl⟩
      · show (entries.keys.foldl removed s).usedBytes + _ ≤
          (entries.keys.foldl removed s).config.maxDatasetBytes
        rw [(settings_foldl_removed entries.keys s).1]
        omega
  show Sound rest (((if ((entries.entries.foldlM msetCharge
      ((entries.keys.foldlM msetRelease s.usedBytes).run s).1).any fun usage =>
        usage ≤ ((entries.keys.foldlM msetRelease s.usedBytes).run s).2.config.maxDatasetBytes ||
          usage ≤ s.usedBytes) = true then _ else _ : StoreM Reply)).run
    ((entries.keys.foldlM msetRelease s.usedBytes).run s).2).2
  rw [released]
  exact run _ rfl

end Mset

/-! ### Every command -/

/-- **A command run keeps the store sound.** -/
theorem executeInner_sound (command : Command) : Keeps rest (executeInner command) := by
  have onKey : ∀ {key}, command.onKey key → Keeps rest (executeInner command) := by
    intro key own
    obtain ⟨body, same, visits⟩ := executeInner_visits own
    rw [same]
    exact keeps_clock.bind fun clock => (visits clock).sound
  cases command with
  | hash | list | setCollection | sortedSet | get | set | setWithOptions | incr | decr | expire | ttl
  | persist => exact onKey rfl
  | ping message => cases message <;> exact keeps_clock.bind fun _ => keeps_pure _
  | del keys =>
    refine keeps_clock.bind fun clock =>
      (Keeps.foldlM (fun count key => ?_) 0).bind fun _ => keeps_pure _
    exact (keeps_expireKey key clock.now).bind fun _ => (keeps_remove key).bind fun _ => keeps_pure _
  | «exists» keys =>
    refine keeps_clock.bind fun clock =>
      (Keeps.foldlM (fun count key => ?_) 0).bind fun _ => keeps_pure _
    exact (keeps_expireKey key clock.now).bind fun _ => (keeps_lookup key).bind fun _ => keeps_pure _
  | mGet keys =>
    refine keeps_clock.bind fun clock =>
      (Keeps.foldlM (fun replies key => ?_) []).bind fun _ => keeps_pure _
    exact (keeps_expireKey key clock.now).bind fun _ => (keeps_lookup key).bind fun _ => keeps_pure _
  | mSet entries => exact keeps_clock.bind fun clock => mset_sound entries clock.now
  | _ => exact keeps_clock.bind fun _ => keeps_pure _

end Sider
