/-
**The representation invariant of a store.**

* `Sound rest s` — the byte count is `rest` plus the charge of every entry, within the quota; every
  image is good for its key; stamps do not run ahead of the counter; nothing has faulted. A store
  that holds all of its entries has `rest = 0`; a shadow is charged for the entries it does not copy.
* `Indexed s` — both expiry indexes hold exactly the events of the entries.
* `Valid s` — both, for a complete store.

The primitives keep them: `sound_removed`, `sound_installEntry`, `indexed_removed`,
`indexed_installEntry`, and `sound_inserted` for a value that fits.
-/

import Sider.Storage.Transaction

namespace Sider

variable {image : Image} {id key : Bytes} {deadlines result next : OrdMap Bytes Nat} {value : Value}
  {rest : Nat} {s : Store} {list : List (Bytes × Member)}

/-! ### Good images -/

/-- The absolute deadline of a member of a value. -/
def Value.memberDeadline? (value : Value) (id : Bytes) : Option Int :=
  (value.asMemory.bind fun collection => collection.members.get? id).bind Member.deadline

/-- An image that a key may hold. -/
structure Image.Good (key : Bytes) (image : Image) : Prop where
  inhabited : image.value.inhabited = true
  deadlines : image.expiresAt.isSome = image.expiresAtUnixMs.isSome
  members : ∀ id, (image.memberDeadlines.get? id).isSome = (image.value.memberDeadline? id).isSome
  quotas : ∀ collection, image.value = .memory collection → collection.validateKey key = .ok ()

theorem Image.Good.expiry_eq (good : image.Good key) :
    image.expiry.map Prod.fst = image.expiresAt ∧ image.expiry.map Prod.snd = image.expiresAtUnixMs := by
  have both := good.deadlines
  unfold expiry
  cases first : image.expiresAt <;> cases second : image.expiresAtUnixMs <;> simp_all

namespace Store

/-! ### The invariant -/

/-- The charge of every entry. -/
def charged (s : Store) : Nat :=
  s.values.total fun key entry => entrySize key entry.value

/-- Accounting, quota, images and stamps, with `rest` bytes charged for entries elsewhere. -/
structure Sound (rest : Nat) (s : Store) : Prop where
  used : s.usedBytes = rest + s.charged
  quota : s.usedBytes ≤ s.config.maxDatasetBytes
  good : ∀ key entry, s.values.get? key = some entry → entry.toImage.Good key
  stamped : ∀ key entry, s.values.get? key = some entry → entry.generation ≤ s.generation
  sound : s.fault = false

/-- The expiry indexes hold exactly the events of the entries. -/
structure Indexed (s : Store) : Prop where
  expirations : ∀ deadline generation key,
    expiration deadline generation key ∈ s.expirations ↔
      ∃ entry, s.values.get? key = some entry ∧ entry.generation = generation ∧
        entry.expiresAt = some deadline
  memberExpirations : ∀ deadline key id,
    memberExpiration deadline key id ∈ s.memberExpirations ↔
      ∃ entry, s.values.get? key = some entry ∧ entry.memberDeadlines.get? id = some deadline

/-- The invariant of a complete store. -/
structure Valid (s : Store) : Prop where
  sound : Sound 0 s
  indexed : Indexed s

theorem quota_lt_word (config : StoreConfig) : config.maxDatasetBytes < Machine.word := by
  have bound := config.representable
  unfold Machine.isizeMax at bound
  unfold Machine.word
  omega

theorem valid_withConfig (config : StoreConfig) (clock : Clock) (registry : Nat) :
    Valid (withConfig config clock registry) where
  sound :=
    { used := rfl
      quota := Nat.zero_le _
      good := nofun
      stamped := nofun
      sound := rfl }
  indexed :=
    { expirations := fun deadline generation key => by simp [withConfig]
      memberExpirations := fun deadline key id => by simp [withConfig] }

section Accounting

variable {entry : Entry}

theorem Sound.entrySize_le (holds : Sound rest s) (found : s.values.get? key = some entry) :
    entrySize key entry.value ≤ s.usedBytes := by
  have part := OrdMap.le_total (fun key (entry : Entry) => entrySize key entry.value) found
  have used := holds.used
  unfold charged at used
  omega

/-- The charge of a stored entry never fails. -/
theorem Sound.entryBytes_eq (holds : Sound rest s) (found : s.values.get? key = some entry) :
    entryBytes key entry.value = some (entrySize key entry.value) := by
  have small := holds.entrySize_le found
  have quota := holds.quota
  have word := quota_lt_word s.config
  exact entryBytes_eq_some.mpr ⟨(holds.good key entry found).inhabited, by omega, rfl⟩

theorem image?_eq_some :
    s.image? key = some image ↔ ∃ entry, s.values.get? key = some entry ∧ entry.toImage = image := by
  exact Option.map_eq_some_iff

theorem image?_eq_none : s.image? key = none ↔ s.values.get? key = none := by
  exact Option.map_eq_none_iff

/-- The charge of whatever a key holds. -/
def held (s : Store) (key : Bytes) : Nat :=
  match s.image? key with
  | some image => entrySize key image.value
  | none => 0

theorem held_of_some (found : s.values.get? key = some entry) :
    s.held key = entrySize key entry.value := by
  unfold held image?
  rw [found]
  rfl

theorem held_of_none (absent : s.values.get? key = none) : s.held key = 0 := by
  unfold held image?
  rw [absent]
  rfl

theorem charged_erase (s : Store) (key : Bytes) :
    s.charged = s.held key +
      (s.values.erase key).total fun key entry => entrySize key entry.value := by
  cases found : s.values.get? key with
  | none => rw [held_of_none found, OrdMap.erase_of_get?_none found, Nat.zero_add, charged]
  | some entry => rw [held_of_some found, charged, OrdMap.total_erase_of_some _ found]

end Accounting

/-! ### Removal -/

section Removal

@[simp] theorem removed_values (s : Store) (key : Bytes) :
    (s.removed key).values = s.values.erase key := by
  unfold removed
  cases found : s.values.get? key with
  | none => exact (OrdMap.erase_of_get?_none found).symm
  | some entry => rfl

@[simp] theorem removed_config (s : Store) (key : Bytes) : (s.removed key).config = s.config := by
  unfold removed
  split <;> rfl

@[simp] theorem removed_clock (s : Store) (key : Bytes) : (s.removed key).clock = s.clock := by
  unfold removed
  split <;> rfl

theorem generation_le_removed (s : Store) (key : Bytes) :
    s.generation ≤ (s.removed key).generation := by
  unfold removed
  split
  · exact le_refl _
  · exact Nat.le_succ _

theorem image?_removed (s : Store) (key probe : Bytes) :
    (s.removed key).image? probe = if probe = key then none else s.image? probe := by
  unfold image?
  rw [removed_values, OrdMap.get?_erase]
  split_ifs <;> rfl

theorem usedBytes_removed (holds : Sound rest s) (key : Bytes) :
    (s.removed key).usedBytes + s.held key = s.usedBytes := by
  unfold removed
  cases found : s.values.get? key with
  | none => rw [held_of_none found, Nat.add_zero]
  | some entry =>
    have small := holds.entrySize_le found
    rw [held_of_some found]
    show s.usedBytes - charge key entry.value + _ = _
    rw [charge, holds.entryBytes_eq found, Option.getD_some]
    omega

theorem fault_removed (holds : Sound rest s) (key : Bytes) : (s.removed key).fault = false := by
  unfold removed
  cases found : s.values.get? key with
  | none => exact holds.sound
  | some entry =>
    have small := holds.entrySize_le found
    show (s.fault || (entryBytes key entry.value).all (s.usedBytes < ·)) = false
    rw [holds.sound, holds.entryBytes_eq found]
    simpa using small

theorem sound_removed (holds : Sound rest s) (key : Bytes) : Sound rest (s.removed key) where
  used := by
    have before := holds.used
    have after := usedBytes_removed holds key
    have split := charged_erase s key
    unfold charged
    rw [removed_values]
    omega
  quota := by
    have after := usedBytes_removed holds key
    have quota := holds.quota
    rw [removed_config]
    omega
  good := fun probe entry found => by
    rw [removed_values, OrdMap.get?_erase] at found
    split_ifs at found
    exact holds.good probe entry found
  stamped := fun probe entry found => by
    rw [removed_values, OrdMap.get?_erase] at found
    split_ifs at found
    exact le_trans (holds.stamped probe entry found) (generation_le_removed s key)
  sound := fault_removed holds key

theorem expiration_inj {d d' g g' : Nat} {k k' : Bytes} :
    expiration d g k = expiration d' g' k' ↔ d = d' ∧ g = g' ∧ k = k' := by
  unfold expiration
  rw [toLex_inj, Prod.mk.injEq, toLex_inj, Prod.mk.injEq]

theorem memberExpiration_inj {d d' : Nat} {k k' id' : Bytes} :
    memberExpiration d k id = memberExpiration d' k' id' ↔ d = d' ∧ k = k' ∧ id = id' := by
  unfold memberExpiration
  rw [toLex_inj, Prod.mk.injEq, toLex_inj, Prod.mk.injEq]

/-- The events of a key's members. -/
theorem mem_memberEvents {other : Bytes} {deadline : Nat} :
    memberExpiration deadline other id ∈
        (deadlines.entries.map fun (id, deadline) => memberExpiration deadline key id) ↔
      other = key ∧ deadlines.get? id = some deadline := by
  rw [List.mem_map]
  constructor
  · rintro ⟨⟨found, at_⟩, inside, same⟩
    obtain ⟨rfl, rfl, rfl⟩ := memberExpiration_inj.mp same
    exact ⟨rfl, OrdMap.get?_eq_some_iff.mpr inside⟩
  · rintro ⟨rfl, found⟩
    exact ⟨(id, deadline), OrdMap.get?_eq_some_iff.mp found, rfl⟩

theorem indexed_removed (holds : Indexed s) (key : Bytes) : Indexed (s.removed key) := by
  cases found : s.values.get? key with
  | none =>
    unfold removed
    rw [found]
    exact holds
  | some entry =>
    have step : s.removed key = s.removeEntry key entry := by
      unfold removed
      rw [found]
    have values : (s.removeEntry key entry).values = s.values.erase key := rfl
    rw [step]
    constructor
    · intro deadline generation probe
      rw [values, OrdMap.get?_erase]
      have member : expiration deadline generation probe ∈ (s.removeEntry key entry).expirations ↔
          probe ≠ key ∧ expiration deadline generation probe ∈ s.expirations := by
        unfold removeEntry
        -- An event of the removed key can only be the event of the removed entry.
        have own : expiration deadline generation key ∈ s.expirations →
            entry.generation = generation ∧ entry.expiresAt = some deadline := by
          intro inside
          obtain ⟨other, hit, stamp, at_⟩ := (holds.expirations _ _ _).mp inside
          rw [found, Option.some.injEq] at hit
          subst hit
          exact ⟨stamp, at_⟩
        cases at_ : entry.expiresAt with
        | none =>
          refine ⟨fun inside => ⟨?_, inside⟩, And.right⟩
          rintro rfl
          rw [at_] at own
          exact absurd (own inside).2 (by simp)
        | some moment =>
          rw [OrdMap.mem_erase, Ne, expiration_inj]
          constructor
          · rintro ⟨different, inside⟩
            refine ⟨?_, inside⟩
            rintro rfl
            obtain ⟨stamp, same⟩ := own inside
            rw [at_, Option.some.injEq] at same
            exact different ⟨same.symm, stamp.symm, rfl⟩
          · rintro ⟨different, inside⟩
            exact ⟨fun same => different same.2.2, inside⟩
      rw [member, holds.expirations]
      by_cases same : probe = key <;> simp [same]
    · intro deadline probe id
      rw [values, OrdMap.get?_erase]
      have member : memberExpiration deadline probe id ∈
          (s.removeEntry key entry).memberExpirations ↔
          probe ≠ key ∧ memberExpiration deadline probe id ∈ s.memberExpirations := by
        show memberExpiration deadline probe id ∈ List.foldl OrdMap.erase s.memberExpirations _ ↔ _
        rw [OrdMap.mem_foldl_erase, mem_memberEvents]
        constructor
        · rintro ⟨absent, inside⟩
          refine ⟨?_, inside⟩
          rintro rfl
          obtain ⟨other, hit, at_⟩ := (holds.memberExpirations _ _ _).mp inside
          rw [found, Option.some.injEq] at hit
          subst hit
          exact absent ⟨rfl, at_⟩
        · rintro ⟨different, inside⟩
          exact ⟨fun same => different same.1, inside⟩
      rw [member, holds.memberExpirations]
      by_cases same : probe = key <;> simp [same]

end Removal

/-! ### Installation -/

section Installation

theorem Sound.withWatches (holds : Sound rest s) (registry : Registry) :
    Sound rest { s with watches := registry } :=
  ⟨holds.used, holds.quota, holds.good, holds.stamped, holds.sound⟩

theorem Indexed.withWatches (holds : Indexed s) (registry : Registry) :
    Indexed { s with watches := registry } :=
  ⟨holds.expirations, holds.memberExpirations⟩

theorem Sound.atClock (holds : Sound rest s) (clock : Clock) : Sound rest (s.atClock clock) :=
  ⟨holds.used, holds.quota, holds.good, holds.stamped, holds.sound⟩

theorem Valid.atClock (holds : Valid s) (clock : Clock) : Valid (s.atClock clock) :=
  ⟨holds.sound.atClock clock, holds.indexed.expirations, holds.indexed.memberExpirations⟩

theorem sound_addEntry (holds : Sound rest s) (absent : s.values.get? key = none)
    (good : image.Good key)
    (fits : s.usedBytes + entrySize key image.value ≤ s.config.maxDatasetBytes) :
    Sound rest (s.addEntry key image) := by
  have word := quota_lt_word s.config
  have bytes : entryBytes key image.value = some (entrySize key image.value) :=
    entryBytes_eq_some.mpr ⟨good.inhabited, by omega, rfl⟩
  have usedBytes : (s.addEntry key image).usedBytes = s.usedBytes + entrySize key image.value := by
    show s.usedBytes + charge key image.value = _
    rw [charge, bytes, Option.getD_some]
  refine ⟨?_, ?_, fun probe entry found => ?_, fun probe entry found => ?_, ?_⟩
  · have before := holds.used
    have total : (s.addEntry key image).charged = entrySize key image.value + s.charged :=
      OrdMap.total_insert_of_none (fun key (entry : Entry) => entrySize key entry.value) _ absent
    omega
  · rw [usedBytes]
    exact fits
  · rw [show (s.addEntry key image).values = s.values.insert key _ from rfl,
      OrdMap.get?_insert] at found
    split_ifs at found with same
    · cases found
      rw [same]
      exact good
    · exact holds.good probe entry found
  · rw [show (s.addEntry key image).values = s.values.insert key _ from rfl,
      OrdMap.get?_insert] at found
    split_ifs at found with same
    · cases found
      exact le_refl _
    · exact le_trans (holds.stamped probe entry found) (Nat.le_succ _)
  · show (s.fault || (entryBytes key image.value).all _) = false
    rw [holds.sound, bytes]
    simp only [Option.all_some, Bool.false_or, decide_eq_false_iff_not, not_le]
    omega

theorem indexed_addEntry (holds : Indexed s) (absent : s.values.get? key = none) :
    Indexed (s.addEntry key image) := by
  have values : (s.addEntry key image).values =
      s.values.insert key { image with generation := s.generation + 1 } := rfl
  -- No event of the key is there before: it has no entry.
  have noEvent : ∀ deadline generation, expiration deadline generation key ∉ s.expirations := by
    intro deadline generation inside
    obtain ⟨entry, found, _⟩ := (holds.expirations _ _ _).mp inside
    rw [absent] at found
    cases found
  have noMember : ∀ deadline id, memberExpiration deadline key id ∉ s.memberExpirations := by
    intro deadline id inside
    obtain ⟨entry, found, _⟩ := (holds.memberExpirations _ _ _).mp inside
    rw [absent] at found
    cases found
  constructor
  · intro deadline generation probe
    rw [values, OrdMap.get?_insert]
    unfold addEntry
    by_cases same : probe = key
    · subst same
      cases at_ : image.expiresAt with
      | none => simp [noEvent, at_]
      | some moment => simp [noEvent, at_, OrdMap.mem_add, expiration_inj, eq_comm, and_comm]
    · rw [if_neg same, ← holds.expirations]
      cases image.expiresAt with
      | none => exact Iff.rfl
      | some moment => simp [OrdMap.mem_add, expiration_inj, same]
  · intro deadline probe id
    rw [values, OrdMap.get?_insert]
    show memberExpiration deadline probe id ∈ List.foldl OrdMap.add s.memberExpirations _ ↔ _
    rw [OrdMap.mem_foldl_add, mem_memberEvents]
    by_cases same : probe = key
    · subst same
      simp [noMember]
    · simp [same, holds.memberExpirations]

theorem installEntry_absent (s : Store) (key : Bytes) :
    ({ s with watches := s.watches.invalidate key }.removed key).values.get? key = none := by
  rw [removed_values, OrdMap.get?_erase_self]

theorem image?_installEntry (s : Store) (key probe : Bytes) (image : Image) :
    (s.installEntry key image).image? probe =
      if probe = key then some image else s.image? probe := by
  have values : (s.installEntry key image).values =
      ({ s with watches := s.watches.invalidate key }.removed key).values.insert key
        { image with generation := _ } := rfl
  unfold image?
  rw [values, removed_values, OrdMap.get?_insert, OrdMap.get?_erase]
  split_ifs <;> rfl

theorem sound_installEntry (holds : Sound rest s) (good : image.Good key)
    (fits : s.usedBytes + entrySize key image.value ≤ s.config.maxDatasetBytes + s.held key) :
    Sound rest (s.installEntry key image) := by
  have watched := holds.withWatches (s.watches.invalidate key)
  have released := usedBytes_removed watched key
  refine sound_addEntry (sound_removed watched key) (installEntry_absent s key) good ?_
  rw [removed_config]
  change _ + s.held key = s.usedBytes at released
  show _ ≤ s.config.maxDatasetBytes
  omega

@[simp] theorem config_installEntry (s : Store) (key : Bytes) (image : Image) :
    (s.installEntry key image).config = s.config :=
  removed_config _ key

@[simp] theorem clock_installEntry (s : Store) (key : Bytes) (image : Image) :
    (s.installEntry key image).clock = s.clock :=
  removed_clock _ key

theorem usedBytes_installEntry (holds : Sound rest s) (good : image.Good key)
    (small : entrySize key image.value < Machine.word) :
    (s.installEntry key image).usedBytes + s.held key = s.usedBytes + entrySize key image.value := by
  have released := usedBytes_removed (holds.withWatches (s.watches.invalidate key)) key
  have bytes : entryBytes key image.value = some (entrySize key image.value) :=
    entryBytes_eq_some.mpr ⟨good.inhabited, small, rfl⟩
  change _ + s.held key = s.usedBytes at released
  show _ + charge key image.value + _ = _
  rw [charge, bytes, Option.getD_some]
  omega

theorem indexed_installEntry (holds : Indexed s) (key : Bytes) (image : Image) :
    Indexed (s.installEntry key image) :=
  indexed_addEntry (indexed_removed (holds.withWatches _) key) (installEntry_absent s key)

end Installation

/-! ### Member deadlines -/

section MemberDeadlines

variable {clock : Clock} {previous : Option Image}

/-- The retained monotonic deadline, or a newly resolved one. -/
def resolvedDeadline (clock : Clock) (previous : Option Image) (id : Bytes) (absolute : Int) :
    Option Nat :=
  (retainedDeadline previous id absolute).or (clock.monotonic absolute)

theorem resolveMember_eq (deadlines : OrdMap Bytes Nat) (entry : Bytes × Member) :
    resolveMember clock previous deadlines entry =
      match entry.2.deadline with
      | none => .ok deadlines
      | some absolute =>
        match resolvedDeadline clock previous entry.1 absolute with
        | some deadline => .ok (deadlines.insert entry.1 deadline)
        | none => .error .deadline := by
  unfold resolveMember resolvedDeadline
  cases entry.2.deadline with
  | none => rfl
  | some absolute =>
    dsimp only
    cases retainedDeadline previous entry.1 absolute with
    | none => cases clock.monotonic absolute <;> rfl
    | some retained => rfl

theorem resolveMember_step {own : Bytes} {member : Member}
    (step : resolveMember clock previous deadlines (own, member) = .ok next) (id : Bytes) :
    next.get? id =
        (if id = own then member.deadline.bind (resolvedDeadline clock previous own) else none).or
          (deadlines.get? id) ∧
      (id = own → member.deadline.isSome → (next.get? id).isSome) := by
  rw [resolveMember_eq] at step
  cases due : member.deadline with
  | none =>
    rw [due] at step
    cases step
    simp
  | some absolute =>
    simp only [due] at step
    cases resolved : resolvedDeadline clock previous own absolute with
    | none =>
      rw [resolved] at step
      cases step
    | some deadline =>
      rw [resolved] at step
      cases step
      rw [OrdMap.get?_insert]
      by_cases same : id = own <;> simp [same, resolved]

theorem foldlM_resolveMember (nodup : (list.map Prod.fst).Nodup)
    (ok : list.foldlM (resolveMember clock previous) deadlines = .ok result) (id : Bytes) :
    result.get? id =
        (((OrdMap.find list id).bind Member.deadline).bind (resolvedDeadline clock previous id)).or
          (deadlines.get? id) ∧
      (((OrdMap.find list id).bind Member.deadline).isSome → (result.get? id).isSome) := by
  induction list generalizing deadlines with
  | nil =>
    cases ok
    exact ⟨rfl, nofun⟩
  | cons entry rest ih =>
    obtain ⟨own, member⟩ := entry
    obtain ⟨fresh, tail⟩ := List.nodup_cons.mp nodup
    obtain ⟨next, step, ok⟩ := bind_eq_ok ok
    obtain ⟨later, laterSome⟩ := ih tail ok
    obtain ⟨here, hereSome⟩ := resolveMember_step step id
    rw [OrdMap.find_cons]
    by_cases same : id = own
    · have gone : OrdMap.find rest id = none := by
        cases hit : OrdMap.find rest id with
        | none => rfl
        | some other =>
          have inside := OrdMap.mem_of_find_eq_some hit
          exact absurd (List.mem_map.mpr ⟨(id, other), inside, same⟩) fresh
      rw [gone, Option.bind_none, Option.bind_none, Option.none_or] at later
      rw [if_pos same, Option.bind_some, later]
      rw [if_pos same, ← same] at here
      exact ⟨here, hereSome same⟩
    · rw [if_neg same, Option.none_or] at here
      rw [if_neg same, later, here]
      refine ⟨rfl, fun due => ?_⟩
      rw [← here, ← later]
      exact laterSome due

theorem foldlM_resolveMember_ok (deadlines : OrdMap Bytes Nat)
    (resolves : ∀ entry ∈ list, ∀ absolute, entry.2.deadline = some absolute →
      (resolvedDeadline clock previous entry.1 absolute).isSome) :
    ∃ result, list.foldlM (resolveMember clock previous) deadlines = .ok result := by
  induction list generalizing deadlines with
  | nil => exact ⟨deadlines, rfl⟩
  | cons entry rest ih =>
    have tail := fun next member => resolves next (List.mem_cons_of_mem _ member)
    have head := resolves entry List.mem_cons_self
    rw [List.foldlM_cons, resolveMember_eq]
    cases due : entry.2.deadline with
    | none => exact ih deadlines tail
    | some absolute =>
      obtain ⟨deadline, resolved⟩ := Option.isSome_iff_exists.mp (head absolute due)
      simp only [resolved]
      exact ih _ tail

theorem memberDeadline?_memory (collection : Collection) (id : Bytes) :
    (Value.memory collection).memberDeadline? id =
      (collection.members.get? id).bind Member.deadline := rfl

theorem memberDeadline?_of_not_memory (other : value.asMemory = none) (id : Bytes) :
    value.memberDeadline? id = none := by
  unfold Value.memberDeadline?
  rw [other]
  rfl

theorem resolveMemberDeadlines_of_not_memory (other : value.asMemory = none) (s : Store)
    (key : Bytes) : s.resolveMemberDeadlines key value = .ok ∅ := by
  cases value with
  | memory collection => cases other
  | _ => rfl

/-- **What resolution gives**: one monotonic deadline for each member with an absolute one. -/
theorem get?_resolveMemberDeadlines (ok : s.resolveMemberDeadlines key value = .ok deadlines)
    (id : Bytes) :
    deadlines.get? id =
        (value.memberDeadline? id).bind (resolvedDeadline s.clock (s.image? key) id) ∧
      (deadlines.get? id).isSome = (value.memberDeadline? id).isSome := by
  cases value with
  | memory collection =>
    obtain ⟨equal, some⟩ := foldlM_resolveMember collection.members.nodup_keys ok id
    rw [OrdMap.get?_empty, Option.or_none] at equal
    refine ⟨equal, Bool.eq_iff_iff.mpr ⟨fun found => ?_, some⟩⟩
    rw [equal] at found
    exact Option.isSome_of_isSome_bind found
  | _ =>
    cases ok
    exact ⟨rfl, rfl⟩

theorem resolveMemberDeadlines_ok (s : Store) (key : Bytes) (value : Value)
    (resolves : ∀ id absolute, value.memberDeadline? id = some absolute →
      (resolvedDeadline s.clock (s.image? key) id absolute).isSome) :
    ∃ deadlines, s.resolveMemberDeadlines key value = .ok deadlines := by
  cases value with
  | memory collection =>
    refine foldlM_resolveMember_ok ∅ fun entry member absolute due => ?_
    refine resolves entry.1 absolute ?_
    rw [memberDeadline?_memory, OrdMap.get?_eq_some_iff.mpr member]
    exact due
  | _ => exact ⟨∅, rfl⟩

/-- A member that keeps its absolute deadline keeps its monotonic one. -/
theorem resolvedDeadline_kept (found : s.image? key = some image) (good : image.Good key)
    {absolute : Int} (due : image.value.memberDeadline? id = some absolute) :
    resolvedDeadline s.clock (s.image? key) id absolute = image.memberDeadlines.get? id ∧
      (image.memberDeadlines.get? id).isSome := by
  have present := good.members id
  rw [due, Option.isSome_some] at present
  obtain ⟨deadline, at_⟩ := Option.isSome_iff_exists.mp present
  obtain ⟨member, stored, same⟩ := Option.bind_eq_some_iff.mp due
  have retained : retainedDeadline (some image) id absolute = some deadline := by
    simp only [retainedDeadline, Option.bind_some]
    rw [stored]
    simp [same, at_]
  refine ⟨?_, present⟩
  rw [found, resolvedDeadline, retained, at_]
  rfl

/-- Storing the same value again keeps its monotonic deadlines. -/
theorem resolveMemberDeadlines_same (found : s.image? key = some image) (good : image.Good key) :
    s.resolveMemberDeadlines key image.value = .ok image.memberDeadlines := by
  obtain ⟨deadlines, ok⟩ := resolveMemberDeadlines_ok s key image.value
    fun id absolute due => by
      obtain ⟨kept, present⟩ := resolvedDeadline_kept found good due
      rw [kept]
      exact present
  rw [ok]
  congr 1
  refine OrdMap.ext_get? fun id => ?_
  rw [(get?_resolveMemberDeadlines ok id).1]
  cases due : image.value.memberDeadline? id with
  | none =>
    have absent := good.members id
    rw [due, Option.isSome_none, Option.isSome_eq_false_iff, Option.isNone_iff_eq_none] at absent
    rw [absent]
    rfl
  | some absolute => exact (resolvedDeadline_kept found good due).1

end MemberDeadlines

/-! ### Insertion -/

section Insertion

/-- The image that `inserted` stores. -/
def insertedImage (value : Value) (expiry : Option (Nat × Int)) (deadlines : OrdMap Bytes Nat) :
    Image :=
  ⟨value, expiry.map Prod.fst, expiry.map Prod.snd, deadlines⟩

theorem inserted_eq (ok : s.resolveMemberDeadlines key value = .ok deadlines)
    (expiry : Option (Nat × Int)) :
    s.inserted key value expiry = s.installEntry key (insertedImage value expiry deadlines) := by
  unfold inserted
  rw [ok]
  rfl

theorem insertedImage_good (ok : s.resolveMemberDeadlines key value = .ok deadlines)
    (expiry : Option (Nat × Int)) (inhabited : value.inhabited = true)
    (quotas : ∀ collection, value = .memory collection → collection.validateKey key = .ok ()) :
    (insertedImage value expiry deadlines).Good key where
  inhabited := inhabited
  deadlines := by
    cases expiry <;> rfl
  members := fun id => (get?_resolveMemberDeadlines ok id).2
  quotas := quotas

variable (holds : Sound rest s)

include holds

theorem sound_inserted (ok : s.resolveMemberDeadlines key value = .ok deadlines)
    (inhabited : value.inhabited = true)
    (quotas : ∀ collection, value = .memory collection → collection.validateKey key = .ok ())
    (fits : s.usedBytes + entrySize key value ≤ s.config.maxDatasetBytes + s.held key)
    (expiry : Option (Nat × Int)) : Sound rest (s.inserted key value expiry) := by
  rw [inserted_eq ok]
  exact sound_installEntry holds (insertedImage_good ok expiry inhabited quotas) fits

/-- A value that is not a collection of memories needs no deadline of its own. -/
theorem sound_inserted_of_not_memory (other : value.asMemory = none)
    (inhabited : value.inhabited = true)
    (fits : s.usedBytes + entrySize key value ≤ s.config.maxDatasetBytes + s.held key)
    (expiry : Option (Nat × Int)) : Sound rest (s.inserted key value expiry) := by
  refine sound_inserted holds (resolveMemberDeadlines_of_not_memory other s key) inhabited ?_ fits
    expiry
  rintro collection rfl
  cases other

/-- Storing the value a key already holds, under another expiry. -/
theorem sound_inserted_same (found : s.image? key = some image) (expiry : Option (Nat × Int)) :
    Sound rest (s.inserted key image.value expiry) := by
  obtain ⟨entry, at_, rfl⟩ := image?_eq_some.mp found
  have good := holds.good key entry at_
  refine sound_inserted holds (resolveMemberDeadlines_same found good) good.inhabited good.quotas ?_
    expiry
  have quota := holds.quota
  rw [held_of_some at_]
  omega

/-- The charge that the quota test releases. -/
theorem entryBytes_held (key : Bytes) :
    ((s.image? key).bind fun image => entryBytes key image.value).getD 0 = s.held key := by
  unfold held
  cases found : s.image? key with
  | none => rfl
  | some image =>
    obtain ⟨entry, at_, rfl⟩ := image?_eq_some.mp found
    rw [Option.bind_some, holds.entryBytes_eq at_]
    rfl

/-- **The quota test is exact**: a value it admits fits, and has a charge. -/
theorem canReplace_fits (admitted : s.canReplace key value = true) :
    value.inhabited = true ∧
      s.usedBytes + entrySize key value ≤ s.config.maxDatasetBytes + s.held key := by
  have quota := holds.quota
  unfold canReplace at admitted
  simp only [entryBytes_held holds, Option.any_eq_true] at admitted
  obtain ⟨usage, proposed, small⟩ := admitted
  obtain ⟨bytes, charge, proposed⟩ := Option.bind_eq_some_iff.mp proposed
  obtain ⟨left, without, proposed⟩ := Option.bind_eq_some_iff.mp proposed
  obtain ⟨inhabited, _, size⟩ := entryBytes_eq_some.mp charge
  obtain ⟨covered, without⟩ := Machine.checkedSub_eq_some.mp without
  obtain ⟨_, sum⟩ := Machine.checkedAdd_eq_some.mp proposed
  simp only [Bool.or_eq_true, decide_eq_true_eq] at small
  exact ⟨inhabited, by omega⟩

theorem canReplace_of_fits (inhabited : value.inhabited = true)
    (fits : s.usedBytes + entrySize key value ≤ s.config.maxDatasetBytes + s.held key) :
    s.canReplace key value = true := by
  have word := quota_lt_word s.config
  have covered := usedBytes_removed holds key
  have charge : entryBytes key value = some (entrySize key value) :=
    entryBytes_eq_some.mpr ⟨inhabited, by omega, rfl⟩
  have without : Machine.checkedSub s.usedBytes (s.held key) = some (s.usedBytes - s.held key) :=
    Machine.checkedSub_eq_some.mpr ⟨by omega, rfl⟩
  have sum : Machine.checkedAdd (s.usedBytes - s.held key) (entrySize key value) =
      some (s.usedBytes - s.held key + entrySize key value) :=
    Machine.checkedAdd_eq_some.mpr ⟨by omega, rfl⟩
  unfold canReplace
  simp only [entryBytes_held holds, charge, Option.bind_some, without, sum, Option.any_some,
    Bool.or_eq_true, decide_eq_true_eq]
  omega

end Insertion

end Store

end Sider
