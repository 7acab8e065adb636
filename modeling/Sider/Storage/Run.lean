/-
**Runs of a store.**

A store is driven by requests, each prepared and then applied, while the clock takes arbitrary
readings and connections take and drop watch tokens. Every preparation of a sound store is admissible
(`preparation_admissible`), so the representation invariant holds in every state a run can reach
(`run_representation`).
-/

import Sider.Storage.Batch
import Sider.Storage.Expiration
import Sider.Storage.Replay

namespace Sider

/-- What an owner prepares and applies. -/
inductive Request where
  | command (command : Command)
  | batch (commands : List Command) (time : Clock)
  | memory (key : Bytes) (operation : Operation) (recordLimit : Nat)
  | expiration (budget : Nat)
  | replay (mutations : List Mutation)
  | replayMemory (mutations : List MemoryMutation)

/-- What can happen to a store. -/
inductive Event where
  | tick (clock : Clock)
  | request (request : Request)
  | watch (keys : List Bytes)
  | drop (token : WatchToken)

namespace Store

variable {rest : Nat} {s : Store} {request : Request} {p : Prepared}

/-- The preparation of a request; a refused replay prepares nothing. -/
def preparation (s : Store) : Request → Option Prepared
  | .command command => some (s.prepare command)
  | .batch commands time => some (s.prepareBatchAt commands time)
  | .memory key operation recordLimit =>
    some (s.prepareMemoryWithLimit key operation recordLimit).prepared
  | .expiration budget => some (s.prepareExpiration budget)
  | .replay mutations => (s.prepareReplay mutations .client).toOption
  | .replayMemory mutations => (s.prepareMemoryReplay mutations .client).toOption

def perform (s : Store) : Event → Store
  | .tick clock => s.atClock clock
  | .request request =>
    match s.preparation request with
    | some p => s.apply p
    | none => s
  | .watch keys => (s.watch keys).2
  | .drop token => { s with watches := s.watches.drop token }

def run (s : Store) (events : List Event) : Store :=
  events.foldl perform s

theorem toOption_eq_some {ε α : Type} {result : Except ε α} {value : α}
    (ok : result.toOption = some value) : result = .ok value := by
  cases result with
  | error error => cases ok
  | ok found => exact congrArg Except.ok (Option.some.inj ok)

/-- **Every preparation of a sound store is admissible.** -/
theorem preparation_admissible (holds : Sound rest s) (prepared : s.preparation request = some p) :
    Admissible s p := by
  cases request with
  | command command =>
    cases prepared
    exact prepare_admissible holds command
  | batch commands time =>
    cases prepared
    exact prepareBatchAt_admissible holds commands time
  | memory key operation recordLimit =>
    cases prepared
    exact prepareMemoryWithLimit_admissible holds key operation recordLimit
  | expiration budget =>
    cases prepared
    exact prepareExpiration_admissible holds budget
  | replay mutations => exact (prepareReplay_ok holds (toOption_eq_some prepared)).1
  | replayMemory mutations => exact prepareMemoryReplay_ok holds (toOption_eq_some prepared)

/-- A prepared batch lists the mutations of its entries. -/
theorem preparation_mutations (prepared : s.preparation request = some p) :
    p.batch.mutations = p.entries.map Mutation.ofEntry := by
  cases request with
  | command command =>
    cases prepared
    unfold prepare
    split <;> rfl
  | batch commands time =>
    cases prepared
    unfold prepareBatchAt
    split <;> rfl
  | memory key operation recordLimit =>
    cases prepared
    rw [prepareMemoryWithLimit_eq]
    split <;> rfl
  | expiration budget =>
    cases prepared
    rfl
  | replay mutations =>
    obtain ⟨released, _, ok⟩ := bind_eq_ok (toOption_eq_some prepared)
    obtain ⟨_, _, ok⟩ := bind_eq_ok ok
    dsimp only at ok
    split_ifs at ok
    cases ok
    rfl
  | replayMemory mutations =>
    obtain ⟨_, _, ok⟩ := bind_eq_ok (toOption_eq_some prepared)
    obtain ⟨released, _, ok⟩ := bind_eq_ok ok
    obtain ⟨_, _, ok⟩ := bind_eq_ok ok
    dsimp only at ok
    split_ifs at ok
    cases ok
    rfl

/-- Taking tokens changes nothing but the registry. -/
theorem watch_store (s : Store) (keys : List Bytes) :
    (s.watch keys).2 = { s with watches := (s.watch keys).2.watches } := by
  have all : ∀ state : List WatchToken × Store, (keys.foldl watchKey state).2 =
      { state.2 with watches := (keys.foldl watchKey state).2.watches } := by
    induction keys with
    | nil => exact fun _ => rfl
    | cons key others ih => exact fun state => ih (watchKey state key)
  exact all ([], s)

theorem Valid.withWatches (holds : s.Valid) (registry : Registry) :
    Valid { s with watches := registry } :=
  ⟨holds.sound.withWatches registry, holds.indexed.withWatches registry⟩

/-- **One event keeps the representation invariant.** -/
theorem perform_valid (holds : s.Valid) (event : Event) : (s.perform event).Valid := by
  cases event with
  | tick clock => exact holds.atClock clock
  | request request =>
    unfold perform
    dsimp only
    split
    · rename_i p prepared
      exact (preparation_admissible holds.sound prepared).valid holds
    · exact holds
  | watch keys =>
    show (s.watch keys).2.Valid
    rw [watch_store]
    exact holds.withWatches _
  | drop token => exact holds.withWatches _

theorem run_valid (holds : s.Valid) (events : List Event) : (s.run events).Valid := by
  induction events generalizing s with
  | nil => exact holds
  | cons event others ih => exact ih (perform_valid holds event)

/-- **The representation invariant of every reachable store**: the byte count is the sum of the
entries' charges and within the quota, the two expiry indexes hold exactly the deadlines of the
entries and of their members, deadlines come in pairs, no collection is empty, and nothing has
panicked or will in the next preparation. -/
theorem run_representation (config : StoreConfig) (clock : Clock) (registry : Nat)
    (events : List Event) :
    let s := (withConfig config clock registry).run events
    s.usedBytes = s.values.total (fun key entry => key.length + entry.value.size + 128) ∧
      (∀ key entry, s.values.get? key = some entry →
        entryBytes key entry.value = some (key.length + entry.value.size + 128)) ∧
      (∀ deadline generation key, expiration deadline generation key ∈ s.expirations ↔
        ∃ entry, s.values.get? key = some entry ∧ entry.generation = generation ∧
          entry.expiresAt = some deadline) ∧
      (∀ deadline key id, memberExpiration deadline key id ∈ s.memberExpirations ↔
        ∃ entry, s.values.get? key = some entry ∧ entry.memberDeadlines.get? id = some deadline) ∧
      (∀ key entry, s.values.get? key = some entry → ∀ id,
        (entry.memberDeadlines.get? id).isSome ↔ ∃ collection member,
          entry.value = .memory collection ∧ collection.members.get? id = some member ∧
            member.deadline.isSome) ∧
      (∀ key entry, s.values.get? key = some entry →
        entry.expiresAt.isSome = entry.expiresAtUnixMs.isSome ∧ entry.value.inhabited = true) ∧
      s.usedBytes ≤ s.config.maxDatasetBytes ∧ s.fault = false ∧
      ∀ request p, s.preparation request = some p → p.fault = false := by
  intro s
  have valid : s.Valid := run_valid (valid_withConfig config clock registry) events
  refine ⟨?_, fun key entry found => valid.sound.entryBytes_eq found, valid.indexed.expirations,
    valid.indexed.memberExpirations, fun key entry found id => ?_, fun key entry found => ?_,
    valid.sound.quota, valid.sound.sound, fun request p prepared => ?_⟩
  · rw [valid.sound.used, Nat.zero_add]
    rfl
  · rw [(valid.sound.good key entry found).members id]
    constructor
    · intro some
      obtain ⟨deadline, held⟩ := Option.isSome_iff_exists.mp some
      obtain ⟨member, held, due⟩ := Option.bind_eq_some_iff.mp held
      obtain ⟨collection, memory, stored⟩ := Option.bind_eq_some_iff.mp held
      exact ⟨collection, member, asMemory_eq memory, stored, by rw [due]; rfl⟩
    · rintro ⟨collection, member, memory, stored, due⟩
      rw [memory, memberDeadline?_memory, stored]
      exact due
  · exact ⟨(valid.sound.good key entry found).deadlines, (valid.sound.good key entry found).inhabited⟩
  · exact (preparation_admissible valid.sound prepared).calm

end Store

end Sider
