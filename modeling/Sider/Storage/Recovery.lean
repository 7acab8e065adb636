/-
**Replaying a log gives the live map back.**

`Recovered recovery live replayed` relates a live store with one rebuilt from its log at one reading
of the recovery clock: they hold the same values and absolute deadlines, except that an ordinary value
whose deadline has elapsed is dropped. Replaying the mutations of an admissible result preserves it
(`replay_step`), whatever the two clocks read, and so does a whole log of commands, batches and
cleanup rounds (`recover_log`).
-/

import Sider.Lib.Journal
import Sider.Storage.Run

namespace Sider

/-- The recovery clock can represent the deadlines of an image. -/
def Store.Representable (recovery : Clock) (value : Value) (expiresAtUnixMs : Option Int) : Prop :=
  (∀ absolute, expiresAtUnixMs = some absolute → (recovery.monotonic absolute).isSome) ∧
    ∀ id absolute, value.memberDeadline? id = some absolute → (recovery.monotonic absolute).isSome

/-- The recovery clock can represent the deadlines of a logged mutation. -/
def Mutation.Representable (recovery : Clock) : Mutation → Prop
  | .put _ value expiresAtUnixMs => Store.Representable recovery value expiresAtUnixMs
  | .delete _ => True

/-- A step of an owner that logs before it applies. -/
inductive OwnerStep where
  | tick (clock : Clock)
  | command (command : Command)
  | batch (commands : List Command) (time : Clock)
  | expiration (budget : Nat)

namespace Store

variable {live replayed : Store} {recovery clock : Clock} {p : Prepared}

/-! ### The relation -/

/-- What outlives the process: the value and its absolute deadline. -/
def lasting (image : Image) : Value × Option Int :=
  (image.value, image.expiresAtUnixMs)

/-- What recovery keeps of an image. -/
def recoverable (recovery : Clock) (image : Option Image) : Option (Value × Option Int) :=
  (image.filter fun image => !elapsed recovery image.value image.expiresAtUnixMs).map lasting

/-- The replayed store holds what recovery keeps of the live one. -/
structure Recovered (recovery : Clock) (live replayed : Store) : Prop where
  images : ∀ key, (replayed.image? key).map lasting = recoverable recovery (live.image? key)
  clock : replayed.clock = recovery
  config : replayed.config = live.config
  live : Sound 0 live
  replayed : Sound 0 replayed

theorem Recovered.value {key : Bytes} {image : Image} (recovered : Recovered recovery live replayed)
    (found : replayed.image? key = some image) :
    ∃ old, live.image? key = some old ∧ old.value = image.value := by
  have same := recovered.images key
  rw [found] at same
  obtain ⟨old, kept, equal⟩ := Option.map_eq_some_iff.mp same.symm
  exact ⟨old, (Option.filter_eq_some_iff.mp kept).1, congrArg Prod.fst equal⟩

/-! ### Accounting -/

theorem charged_le {first second : Store} (covers : ∀ key, key ∈ first.values → key ∈ second.values)
    (held : ∀ key, first.held key ≤ second.held key) : first.charged ≤ second.charged := by
  have nodup := second.values.nodup_keys
  rw [charged_eq_heldAll nodup fun key member => OrdMap.mem_keys.mpr (covers key member),
    charged_eq_heldAll nodup fun key member => OrdMap.mem_keys.mpr member]
  exact List.sum_le_sum fun key _ => held key

/-- Away from some keys, the replayed store is charged for no more than the live one. -/
theorem Recovered.usedBytes_le (recovered : Recovered recovery live replayed) {keys : List Bytes}
    (nodup : keys.Nodup) :
    replayed.usedBytes + heldAll live keys ≤ live.usedBytes + heldAll replayed keys := by
  obtain ⟨soundL, usedL⟩ := foldl_dropKey_sound nodup recovered.live
  obtain ⟨soundR, usedR⟩ := foldl_dropKey_sound nodup recovered.replayed
  have less : (keys.foldl dropKey replayed).charged ≤ (keys.foldl dropKey live).charged := by
    have image : ∀ key image, (keys.foldl dropKey replayed).image? key = some image →
        ∃ old, (keys.foldl dropKey live).image? key = some old ∧ old.value = image.value := by
      intro key image found
      rw [image?_foldl_dropKey] at found ⊢
      split_ifs at found with own
      rw [if_neg own]
      exact recovered.value found
    refine charged_le (fun key member => ?_) fun key => ?_
    · obtain ⟨entry, found⟩ := OrdMap.mem_iff.mp member
      obtain ⟨old, found, _⟩ := image key _ (image?_eq_some.mpr ⟨entry, found, rfl⟩)
      obtain ⟨entry, found, _⟩ := image?_eq_some.mp found
      exact OrdMap.mem_iff.mpr ⟨entry, found⟩
    · cases found : (keys.foldl dropKey replayed).image? key with
      | none =>
        unfold held
        rw [found]
        exact Nat.zero_le _
      | some after =>
        obtain ⟨old, before, same⟩ := image key after found
        unfold held
        rw [found, before]
        simp only [same]
        exact le_refl _
  have left := soundL.used
  have right := soundR.used
  omega

/-! ### One batch -/

/-- A prepared entry and what replaying its mutation leaves. -/
structure Restores (replayed : Store) (entry restored : Bytes × Option Image) : Prop where
  key : restored.1 = entry.1
  resolves : Resolves replayed (Mutation.ofEntry entry) restored
  images : restored.2.map lasting = recoverable replayed.clock entry.2
  smaller : entryCharge restored ≤ entryCharge entry

theorem resolvedDeadline_isSome {previous : Option Image} {id : Bytes} {absolute : Int}
    (representable : (clock.monotonic absolute).isSome) :
    (resolvedDeadline clock previous id absolute).isSome := by
  unfold resolvedDeadline
  rw [Option.isSome_or, representable, Bool.or_true]

theorem replayDeadline_ok {expiresAtUnixMs : Option Int}
    (representable : ∀ absolute, expiresAtUnixMs = some absolute →
      (clock.monotonic absolute).isSome) :
    ∃ expiresAt, replayDeadline clock expiresAtUnixMs = .ok expiresAt := by
  cases expiresAtUnixMs with
  | none => exact ⟨none, rfl⟩
  | some absolute =>
    obtain ⟨deadline, found⟩ := Option.isSome_iff_exists.mp (representable absolute rfl)
    refine ⟨some deadline, ?_⟩
    simp only [replayDeadline, found]

/-- **A value with representable deadlines resolves**, unless it has elapsed. -/
theorem exists_resolved (s : Store) {key : Bytes} {value : Value} {expiresAtUnixMs : Option Int}
    (checked : replayCheck key value = .ok ()) (inhabited : value.inhabited = true)
    (representable : Representable s.clock value expiresAtUnixMs)
    (kept : elapsed s.clock value expiresAtUnixMs = false) :
    ∃ expiresAt deadlines, Resolves s (.put key value expiresAtUnixMs)
      (key, some ⟨value, expiresAt, expiresAtUnixMs, deadlines⟩) := by
  obtain ⟨expiresAt, expiry⟩ := replayDeadline_ok representable.1
  obtain ⟨deadlines, members⟩ := resolveMemberDeadlines_ok s key value
    fun id absolute due => resolvedDeadline_isSome (representable.2 id absolute due)
  exact ⟨expiresAt, deadlines, .put kept checked expiry inhabited members⟩

/-- **A good entry with representable deadlines can be restored.** -/
theorem exists_restored (replayed : Store) {key : Bytes} {image : Option Image}
    (good : ∀ found, image = some found → found.Good key)
    (representable : ∀ found, image = some found →
      Representable replayed.clock found.value found.expiresAtUnixMs) :
    ∃ restored, Restores replayed (key, image) restored := by
  cases image with
  | none => exact ⟨(key, none), rfl, .delete key, rfl, le_refl _⟩
  | some image =>
    have sound := good image rfl
    cases past : elapsed replayed.clock image.value image.expiresAtUnixMs with
    | true =>
      refine ⟨(key, none), rfl, .elapsed past, ?_, Nat.zero_le _⟩
      simp [recoverable, past]
    | false =>
      have checked : replayCheck key image.value = .ok () := by
        unfold replayCheck
        split
        · rename_i collection memory
          rw [sound.quotas collection memory]
        · rfl
      obtain ⟨expiresAt, deadlines, resolves⟩ :=
        exists_resolved replayed checked sound.inhabited (representable image rfl) past
      refine ⟨(key, some ⟨image.value, expiresAt, image.expiresAtUnixMs, deadlines⟩), rfl, resolves, ?_,
        le_refl _⟩
      simp [recoverable, past, lasting]

/-- Entries and what replaying them leaves, key by key. -/
theorem find_restored {entries restored : List (Bytes × Option Image)}
    (all : List.Forall₂ (Restores replayed) entries restored) (key : Bytes) :
    (OrdMap.find entries key = none ∧ OrdMap.find restored key = none) ∨
      ∃ before after, OrdMap.find entries key = some before ∧
        OrdMap.find restored key = some after ∧
        after.map lasting = recoverable replayed.clock before := by
  induction all with
  | nil => exact .inl ⟨rfl, rfl⟩
  | @cons entry other entries restored restores _ ih =>
    obtain ⟨name, before⟩ := entry
    obtain ⟨name', after⟩ := other
    obtain rfl : name' = name := restores.key
    rw [OrdMap.find_cons, OrdMap.find_cons]
    by_cases same : key = name'
    · rw [if_pos same, if_pos same]
      exact .inr ⟨before, after, rfl, rfl, restores.images⟩
    · rw [if_neg same, if_neg same]
      exact ih

theorem restored_spec {entries restored : List (Bytes × Option Image)}
    (all : List.Forall₂ (Restores replayed) entries restored) :
    restored.map Prod.fst = entries.map Prod.fst ∧
      List.Forall₂ (Resolves replayed) (entries.map Mutation.ofEntry) restored ∧
      entriesCharge restored ≤ entriesCharge entries := by
  induction all with
  | nil => exact ⟨rfl, .nil, le_refl _⟩
  | cons restores _ ih =>
    obtain ⟨names, resolved, smaller⟩ := ih
    refine ⟨?_, .cons restores.resolves resolved, Nat.add_le_add restores.smaller smaller⟩
    rw [List.map_cons, List.map_cons, names, restores.key]

theorem forall₂_of_exists {α β : Type} {relation : α → β → Prop} {list : List α}
    (each : ∀ item ∈ list, ∃ image, relation item image) : ∃ images, List.Forall₂ relation list images := by
  induction list with
  | nil => exact ⟨[], .nil⟩
  | cons item others ih =>
    obtain ⟨image, head⟩ := each item List.mem_cons_self
    obtain ⟨images, tail⟩ := ih fun later member => each later (List.mem_cons_of_mem _ member)
    exact ⟨image :: images, .cons head tail⟩

section

variable (recovered : Recovered recovery live replayed)

include recovered

/-- **Replaying the mutations of an admissible result** is accepted and keeps the two stores
related. -/
theorem replay_step (admissible : Admissible live p)
    (representable : ∀ entry ∈ p.entries, ∀ image, entry.2 = some image →
      Representable recovery image.value image.expiresAtUnixMs) (origin : MutationOrigin) :
    ∃ q, replayed.prepareReplay (p.entries.map Mutation.ofEntry) origin = .ok q ∧
      Recovered recovery (live.apply p) (replayed.apply q) := by
  obtain ⟨restored, all⟩ : ∃ restored, List.Forall₂ (Restores replayed) p.entries restored := by
    refine forall₂_of_exists fun entry member => ?_
    refine exists_restored replayed (fun image same => admissible.good entry member image same)
      fun image same => ?_
    rw [recovered.clock]
    exact representable entry member image same
  obtain ⟨names, resolved, smaller⟩ := restored_spec all
  have keys := mutations_keys p.entries
  -- Room: what replay keeps elsewhere is at most what the live store keeps.
  have fits : replayed.usedBytes + entriesCharge restored ≤ replayed.config.maxDatasetBytes +
      heldAll replayed ((p.entries.map Mutation.ofEntry).map Mutation.key) := by
    have less := recovered.usedBytes_le admissible.nodup
    have room := admissible.fits
    rw [recovered.config, keys]
    omega
  have accepted := prepareReplay_eq_ok recovered.replayed (by rw [keys]; exact admissible.nodup)
    resolved fits origin
  refine ⟨_, accepted, ?_⟩
  have replay := (prepareReplay_ok recovered.replayed accepted).1
  refine ⟨fun key => ?_, ?_, ?_, (admissible.sound recovered.live).1, (replay.sound recovered.replayed).1⟩
  · rw [image?_apply _ _ admissible.nodup, image?_apply _ _ replay.nodup]
    show ((OrdMap.find restored key).getD _).map lasting = _
    rcases find_restored all key with ⟨none, none'⟩ | ⟨before, after, some, some', images⟩
    · rw [none, none']
      exact recovered.images key
    · rw [some, some', ← recovered.clock]
      exact images
  · rw [clock_apply]
    exact recovered.clock
  · rw [config_apply, config_apply]
    exact recovered.config

/-- A result with no entries leaves the relation as it is. -/
theorem Recovered.apply_nil (admissible : Admissible live p) (none : p.entries = []) :
    Recovered recovery (live.apply p) replayed := by
  refine ⟨fun key => ?_, recovered.clock, ?_, (admissible.sound recovered.live).1,
    recovered.replayed⟩
  · rw [image?_apply _ _ admissible.nodup, none]
    exact recovered.images key
  · rw [config_apply]
    exact recovered.config

theorem Recovered.atClock (clock : Clock) : Recovered recovery (live.atClock clock) replayed :=
  ⟨recovered.images, recovered.clock, recovered.config, recovered.live.atClock clock,
    recovered.replayed⟩

end

theorem recovered_empty (config : StoreConfig) (clock recovery : Clock) (registry other : Nat) :
    Recovered recovery (withConfig config clock registry) (withConfig config recovery other) :=
  ⟨fun _ => rfl, rfl, rfl, (valid_withConfig ..).sound, (valid_withConfig ..).sound⟩

/-! ### Stores without memory collections -/

/-- The store holds no memory collection. -/
def Ordinary (s : Store) : Prop :=
  ∀ key image, s.image? key = some image → image.value.asMemory = none

theorem Ordinary.of_inherits {s t : Store} (ordinary : Ordinary s) (inherits : Inherits s t) :
    Ordinary t := by
  intro key image found
  cases memory : image.value.asMemory with
  | none => rfl
  | some collection =>
    obtain ⟨old, before, same⟩ := inherits key image collection found (asMemory_eq memory)
    have none := ordinary key old before
    rw [same] at none
    cases none

/-- A cleanup round edits memory collections only. -/
theorem prepareExpiration_inherit {s : Store} {rest : Nat} (holds : Sound rest s)
    (ordinary : Ordinary s) (budget : Nat) : EntriesInherit s (s.prepareExpiration budget).entries := by
  intro key image collection member _
  rcases mem_prepareExpiration holds member with ⟨_, none⟩ | ⟨_, _, cleaned⟩
  · cases none
  · obtain ⟨old, collection, ids, candidate, found, memory, _⟩ := cleaned
    have none := ordinary key old found
    rw [memory] at none
    cases none

/-! ### A logging owner, record version 1 -/

/-- Log the mutations of a prepared result, if any, and apply it. -/
def commit (s : Store) (p : Prepared) : Store × Option (List Mutation) :=
  (s.apply p, if p.batch.mutations.isEmpty then none else some p.batch.mutations)

def ownerStep (s : Store) : OwnerStep → Store × Option (List Mutation)
  | .tick clock => (s.atClock clock, none)
  | .command command => s.commit (s.prepare command)
  | .batch commands time => s.commit (s.prepareBatchAt commands time)
  | .expiration budget => s.commit (s.prepareExpiration budget)

/-- The live store and the log of a run from empty. -/
def ownerRun (config : StoreConfig) (clock : Clock) (registry : Nat) (steps : List OwnerStep) :
    Store × List (List Mutation) :=
  Journal.run ownerStep (withConfig config clock registry) steps

/-- Replay logged batches, in order, into an empty store. -/
def recover (config : StoreConfig) (recovery : Clock) (registry : Nat) (log : List (List Mutation)) :
    Except ReplayError Store :=
  log.foldlM replay (withConfig config recovery registry)

variable {step : OwnerStep}

/-- Every step but the clock's commits a preparation that creates no memory collection. -/
theorem ownerStep_cases (s : Store) (step : OwnerStep) :
    (∃ clock, s.ownerStep step = (s.atClock clock, none)) ∨
      ∃ request p, s.preparation request = some p ∧ s.ownerStep step = s.commit p ∧
        (Sound 0 s → Ordinary s → EntriesInherit s p.entries) := by
  cases step with
  | tick clock => exact .inl ⟨clock, rfl⟩
  | command command =>
    exact .inr ⟨.command command, _, rfl, rfl, fun _ _ => prepare_inherit s command⟩
  | batch commands time =>
    exact .inr ⟨.batch commands time, _, rfl, rfl,
      fun holds _ => prepareBatchAt_inherit holds commands time⟩
  | expiration budget =>
    exact .inr ⟨.expiration budget, _, rfl, rfl,
      fun holds ordinary => prepareExpiration_inherit holds ordinary budget⟩

/-- A live store without memory collections, and its replayed counterpart. -/
structure RecoveredOrdinary (recovery : Clock) (live replayed : Store) : Prop where
  stores : Recovered recovery live replayed
  ordinary : Ordinary live

/-- A step that logs nothing changes no image. -/
theorem silent_recovered (holds : RecoveredOrdinary recovery live replayed)
    (none : (live.ownerStep step).2 = none) :
    RecoveredOrdinary recovery (live.ownerStep step).1 replayed := by
  rcases ownerStep_cases live step with ⟨clock, same⟩ | ⟨request, p, prepared, same, inherit⟩
  · rw [same]
    exact ⟨holds.stores.atClock clock, holds.ordinary⟩
  · rw [same] at none ⊢
    have admissible := preparation_admissible holds.stores.live prepared
    have empty : p.entries = [] := by
      change (if p.batch.mutations.isEmpty then Option.none else _) = _ at none
      rw [preparation_mutations prepared] at none
      split_ifs at none with empty
      simpa using empty
    exact ⟨holds.stores.apply_nil admissible empty, holds.ordinary.of_inherits
      (apply_inherits admissible.nodup (inherit holds.stores.live holds.ordinary))⟩

/-- The batch that a step logs is accepted by replay. -/
theorem logged_recovered (holds : RecoveredOrdinary recovery live replayed) {batch : List Mutation}
    (logged : (live.ownerStep step).2 = some batch)
    (representable : ∀ mutation ∈ batch, mutation.Representable recovery) :
    ∃ next, replayed.replay batch = .ok next ∧
      RecoveredOrdinary recovery (live.ownerStep step).1 next := by
  rcases ownerStep_cases live step with ⟨clock, same⟩ | ⟨request, p, prepared, same, inherit⟩
  · rw [same] at logged
    cases logged
  · rw [same] at logged ⊢
    have admissible := preparation_admissible holds.stores.live prepared
    obtain rfl : p.entries.map Mutation.ofEntry = batch := by
      change (if p.batch.mutations.isEmpty then Option.none else _) = _ at logged
      rw [preparation_mutations prepared] at logged
      split_ifs at logged
      exact Option.some.inj logged
    obtain ⟨q, accepted, stores⟩ := replay_step holds.stores admissible
      (fun entry member image shape => by
        have holds := representable _ (List.mem_map.mpr ⟨entry, member, rfl⟩)
        unfold Mutation.ofEntry at holds
        rw [shape] at holds
        exact holds) .client
    refine ⟨replayed.apply q, ?_, stores, holds.ordinary.of_inherits
      (apply_inherits admissible.nodup (inherit holds.stores.live holds.ordinary))⟩
    unfold replay
    rw [accepted]
    rfl

/-- **The log of any run of commands, batches and cleanup rounds rebuilds the live map.** Replayed
into an empty store with the same quota, at a recovery reading whose monotonic clock can represent the
logged deadlines, every batch is accepted, and the result holds exactly the live values and absolute
deadlines of the entries whose deadline is later than the recovery wall clock. -/
theorem recover_log (config : StoreConfig) (clock recovery : Clock) (registry other : Nat)
    (steps : List OwnerStep)
    (representable : ∀ batch ∈ (ownerRun config clock registry steps).2, ∀ mutation ∈ batch,
      mutation.Representable recovery) :
    ∃ replayed, recover config recovery other (ownerRun config clock registry steps).2 =
        .ok replayed ∧
      ∀ key, (replayed.image? key).map (fun image => (image.value, image.expiresAtUnixMs)) =
        (((ownerRun config clock registry steps).1.image? key).filter fun image =>
          image.expiresAtUnixMs.all (recovery.unixMs < ·)).map
          fun image => (image.value, image.expiresAtUnixMs) := by
  have start : RecoveredOrdinary recovery (withConfig config clock registry)
      (withConfig config recovery other) :=
    ⟨recovered_empty config clock recovery registry other, nofun⟩
  obtain ⟨replayed, ok, final⟩ := Journal.run_replay ownerStep replay (RecoveredOrdinary recovery)
    (fun batch => ∀ mutation ∈ batch, mutation.Representable recovery)
    (fun _ _ _ holds none => silent_recovered holds none)
    (fun _ _ _ _ holds logged good => logged_recovered holds logged good) start steps representable
  refine ⟨replayed, ok, fun key => (final.stores.images key).trans ?_⟩
  refine congrArg (Option.map lasting) ?_
  change ((ownerRun config clock registry steps).1.image? key).filter _ = _
  cases found : (ownerRun config clock registry steps).1.image? key with
  | none => rfl
  | some image =>
    have memory := final.ordinary key image found
    simp only [Option.filter_some, elapsed, memory, Option.isNone_none, Bool.true_and]
    cases image.expiresAtUnixMs with
    | none => rfl
    | some absolute => simp only [Option.any_some, Option.all_some, ← decide_not, not_le]

/-- Two keys set at the epoch, one of them for 10 ms, in a store of 1 KiB. -/
def volatileRun : Store × List (List Mutation) :=
  ownerRun .kibibyte ⟨0, 0, 1000000000⟩ 0
    [.command (.setWithOptions [107] [49] ⟨.always, .after 10000000, false⟩),
      .command (.set [106] [50])]

/-- Recovered 20 ms after the epoch, the volatile key is gone and the other one is back. -/
theorem recover_log_volatile :
    ∃ replayed, recover ⟨1024, by decide, by decide⟩ ⟨7, 20, 1000000000⟩ 1 volatileRun.2 =
        .ok replayed ∧
      (replayed.image? [107]).map (fun image => (image.value, image.expiresAtUnixMs)) = none ∧
      (replayed.image? [106]).map (fun image => (image.value, image.expiresAtUnixMs)) =
        some (.string [50], none) := by
  have log : volatileRun.2 =
      [[.put [107] (.string [49]) (some 10)], [.put [106] (.string [50]) none]] := by decide
  have representable : ∀ batch ∈ volatileRun.2, ∀ mutation ∈ batch,
      mutation.Representable ⟨7, 20, 1000000000⟩ := by
    rw [log]
    simp only [List.forall_mem_cons, List.not_mem_nil, false_implies, implies_true, and_true]
    refine ⟨⟨fun absolute same => ?_, nofun⟩,
      nofun, nofun⟩
    cases same
    decide
  obtain ⟨replayed, ok, images⟩ := recover_log ⟨1024, by decide, by decide⟩ ⟨0, 0, 1000000000⟩
    ⟨7, 20, 1000000000⟩ 0 1 _ representable
  refine ⟨replayed, ok, (images _).trans ?_, (images _).trans ?_⟩
  · decide
  · decide

end Store

end Sider
