/-
**The owner of a store: commit and WATCH.**

A worker appends a prepared batch to the log before it applies it; a read-only worker answers and
applies nothing. WATCH first resolves the expiries of its keys through `commit` and then takes tokens.
`Purged keys now s` says that no key has elapsed; `tokens_valid_iff` that fresh tokens are valid exactly
then. A read-only worker does not remove elapsed keys, so its fresh tokens need not be valid
(`watch_valid_iff`).
-/

import Sider.Storage.WatchSound
import Sider.Storage.Prepare

namespace Sider

open StateProgram StoreM Store

inductive DbError where
  | unavailable
  | timeout
  | shuttingDown
  | securityExpired
  deriving DecidableEq, Repr

/-- What appending one batch to the log ends in. -/
inductive Appended where
  | written
  | limit
  | failed
  deriving DecidableEq, Repr

/-- The owner of a store. -/
structure Worker where
  store : Store
  readonly : Bool
  durable : Bool
  valid : store.Valid
  sane : store.watches.Sane

variable {w : Worker} {keys : List Bytes}

namespace Worker

/-- Append a batch that changes something, if the worker has a log. -/
def persist (w : Worker) (p : Prepared) (outcome : Appended) : Except DbError (Option Reply) :=
  if w.durable && !p.batch.mutations.isEmpty then
    match outcome with
    | .written => .ok none
    | .limit => .ok (some (.error .aofRecordLimit))
    | .failed => .error .unavailable
  else .ok none

/-- The worker after applying an admissible result. -/
def applyPrepared (w : Worker) (p : Prepared) (admissible : Admissible w.store p) : Worker :=
  { w with
    store := w.store.apply p
    valid := admissible.valid w.valid
    sane := (raises_apply w.store p).sane w.sane }

/-- Persist, then apply; a read-only worker only answers. -/
def commit (w : Worker) (p : Prepared) (admissible : Admissible w.store p) (outcome : Appended) :
    Except DbError Reply × Worker :=
  if w.readonly then (.ok p.reply, w)
  else
    match w.persist p outcome with
    | .error error => (.error error, w)
    | .ok (some rejection) => (.ok rejection, w)
    | .ok none => (.ok p.reply, w.applyPrepared p admissible)

/-- The worker after taking tokens. -/
def takeTokens (w : Worker) (keys : List Bytes) : List WatchToken × Worker :=
  ((w.store.watch keys).1,
    { w with
      store := (w.store.watch keys).2
      valid := by
        rw [(watch_spec w.sane keys).store]
        exact ⟨w.valid.sound.withWatches _, w.valid.indexed.withWatches _⟩
      sane := (watch_spec w.sane keys).raises.sane w.sane })

/-- Resolve the expiries of the keys, then observe them. -/
def watch (w : Worker) (keys : List Bytes) (outcome : Appended) :
    Except DbError (Reply × List WatchToken) × Worker :=
  match w.commit (w.store.prepare (.exists keys)) (prepare_admissible w.valid.sound _) outcome with
  | (.error error, after) => (.error error, after)
  | (.ok (.error error), after) => (.ok (.error error, []), after)
  | (.ok _, after) => (.ok (.ok, (after.takeTokens keys).1), (after.takeTokens keys).2)

end Worker

/-! ### Elapsed keys -/

/-- At `now`, neither the key's deadline nor that of a member live at `since` has passed. -/
def Image.Outlives (image : Image) (since now : Nat) : Prop :=
  (∀ deadline, image.expiresAt = some deadline → now < deadline) ∧
    ∀ id deadline, image.memberDeadlines.get? id = some deadline → since < deadline → now < deadline

theorem Image.outlives_self {image : Image} : image.Outlives now now ↔ image.expired now = false := by
  unfold Outlives expired
  cases image.expiresAt <;> simp

namespace Store

variable {rest : Nat} {s : Store} {now : Nat}

/-- None of the keys is past its deadline. -/
def Purged (keys : List Bytes) (now : Nat) (s : Store) : Prop :=
  ∀ key ∈ keys, ∀ image, s.image? key = some image → image.expired now = false

theorem expireKey_purges (key : Bytes) :
    Triple (Purged keys now) (expireKey key now) fun _ => Purged (keys ++ [key]) now := by
  intro s purged
  show Purged _ _ ((if (s.image? key).any (Image.expired · now) then do
    let _ ← remove key
    pure () else pure () : StoreM Unit).run s).2
  split_ifs with expired
  · intro probe member image found
    change (s.removed key).image? probe = some image at found
    rw [image?_removed] at found
    split_ifs at found with same
    rcases List.mem_append.mp member with early | last
    · exact purged probe early image found
    · exact absurd (List.mem_singleton.mp last) same
  · intro probe member image found
    rcases List.mem_append.mp member with early | last
    · exact purged probe early image found
    · obtain rfl := List.mem_singleton.mp last
      change s.image? probe = some image at found
      rw [found] at expired
      simpa using expired

/-- EXISTS leaves none of its keys elapsed. -/
theorem exists_purges (keys : List Bytes) (s : Store) :
    Purged keys s.clock.now ((executeInner (.exists keys)).run s).2 := by
  have all : ∀ (more done : List Bytes) (count : Nat),
      Triple (Purged done s.clock.now) (more.foldlM (existsStep s.clock.now) count)
        fun _ => Purged (done ++ more) s.clock.now := by
    intro more
    induction more with
    | nil =>
      intro done count
      rw [List.append_nil]
      exact Triple.pure fun _ purged => purged
    | cons key others ih =>
      intro done count
      have step : Triple (Purged done s.clock.now) (existsStep s.clock.now count key)
          fun _ => Purged (done ++ [key]) s.clock.now := by
        refine Triple.bind (expireKey_purges key) fun _ => ?_
        exact fun _ purged => purged
      refine Triple.bind step fun next => ?_
      have tail := ih (done ++ [key]) next
      rw [List.append_assoc] at tail
      exact tail
  exact all keys [] 0 s nofun

/-- The earliest of some deadlines is still to come exactly when all of them are. -/
theorem min?_pending {deadlines : List Nat} :
    deadlines.min?.all (now < ·) = true ↔ ∀ deadline ∈ deadlines, now < deadline := by
  cases least : deadlines.min? with
  | none =>
    rw [List.min?_eq_none_iff.mp least]
    simp
  | some first =>
    obtain ⟨inside, below⟩ := List.min?_eq_some_iff.mp least
    rw [Option.all_some, decide_eq_true_eq]
    exact ⟨fun late deadline member => lt_of_lt_of_le late (below deadline member),
      fun all => all first inside⟩

/-- A token deadline is still to come exactly when everything it was made of is. -/
theorem watchDeadline_outlives (s : Store) (key : Bytes) (now : Nat) :
    (s.watchDeadline key).all (now < ·) = true ↔
      ∀ image, s.image? key = some image → image.Outlives s.clock.now now := by
  unfold watchDeadline
  cases found : s.values.get? key with
  | none => simp [image?_eq_none.mpr found]
  | some entry =>
    rw [image?_eq_some.mpr ⟨entry, found, rfl⟩, Option.bind_some, min?_pending]
    constructor
    · intro all image same
      cases same
      refine ⟨fun deadline own => all deadline (by simp [show entry.expiresAt = _ from own]),
        fun id deadline own later => all deadline (List.mem_append_right _ ?_)⟩
      refine List.mem_filter.mpr ⟨?_, by simpa using later⟩
      exact List.mem_map.mpr ⟨(id, deadline), OrdMap.get?_eq_some_iff.mp own, rfl⟩
    · intro fresh deadline member
      obtain ⟨key, members⟩ := fresh entry.toImage rfl
      rcases List.mem_append.mp member with own | later
      · exact key deadline (Option.mem_toList.mp own)
      · obtain ⟨inside, pending⟩ := List.mem_filter.mp later
        obtain ⟨⟨id, _⟩, stored, rfl⟩ := List.mem_map.mp inside
        exact members id _ (OrdMap.get?_eq_some_iff.mpr stored) (by simpa using pending)

/-- A token deadline is still to come exactly when the key has not elapsed. -/
theorem watchDeadline_pending (s : Store) (key : Bytes) :
    (s.watchDeadline key).all (s.clock.now < ·) = true ↔
      ∀ image, s.image? key = some image → image.expired s.clock.now = false := by
  simp only [watchDeadline_outlives, Image.outlives_self]

/-- **Fresh tokens are valid exactly when none of their keys has elapsed.** -/
theorem tokens_valid_iff (sane : s.watches.Sane) (keys : List Bytes) :
    (s.watch keys).2.watchesValidAt (s.watch keys).1 s.clock.now = true ↔
      Purged keys s.clock.now s := by
  have watched := watch_spec sane keys
  have each : ∀ token ∈ (s.watch keys).1,
      (((s.watch keys).2.watches.id = token.registry) &&
        !(s.watch keys).2.watches.changed token s.clock.now) = true ↔
      ∀ image, s.image? token.key = some image → image.expired s.clock.now = false := by
    intro token member
    rw [← watchDeadline_pending, ← watched.deadlines token member]
    unfold Registry.changed
    rw [watched.calm token member, (watched.tracks token member).registry]
    cases token.deadline <;> simp
  unfold watchesValidAt
  rw [List.all_eq_true]
  constructor
  · intro all key own
    obtain ⟨token, member, rfl⟩ := List.mem_map.mp (watched.keys.symm ▸ own)
    exact (each token member).mp (all token member)
  · intro purged token member
    refine (each token member).mpr (purged token.key ?_)
    rw [← watched.keys]
    exact List.mem_map.mpr ⟨token, member, rfl⟩

end Store

namespace Worker

/-- A writable worker that answers EXISTS without an error has removed the elapsed keys. -/
theorem commit_exists {outcome : Appended} {reply : Reply} {after : Worker}
    (answered : w.commit (w.store.prepare (.exists keys)) (prepare_admissible w.valid.sound _)
      outcome = (.ok reply, after)) (accepted : ∀ error, reply ≠ .error error) :
    after.store.clock = w.store.clock ∧
      (w.readonly = true → after.store = w.store) ∧
      (w.readonly = false → Purged keys w.store.clock.now after.store) := by
  unfold commit at answered
  split_ifs at answered with readonly
  · obtain ⟨_, rfl⟩ := Prod.mk.inj answered
    exact ⟨rfl, fun _ => rfl, fun writable => by rw [readonly] at writable; cases writable⟩
  · split at answered
    · cases answered
    · rename_i rejection persisted
      obtain ⟨same, _⟩ := Prod.mk.inj answered
      cases same
      unfold persist at persisted
      split_ifs at persisted
      · cases outcome with
        | limit =>
          cases persisted
          exact absurd rfl (accepted _)
        | _ => cases persisted
      · cases persisted
    · obtain ⟨_, rfl⟩ := Prod.mk.inj answered
      refine ⟨clock_apply .., fun writable => absurd writable readonly, fun _ key own image found => ?_⟩
      change (w.store.apply _).image? key = some image at found
      rw [(apply_prepare w.valid.sound rfl).2] at found
      exact exists_purges keys w.store key own image found

/-- **When a fresh observation is valid.** WATCH answered OK; its tokens are valid at the reading it
was taken at exactly when the worker is writable or holds none of the keys past its deadline. -/
theorem watch_valid_iff {keys : List Bytes} {outcome : Appended} {tokens : List WatchToken}
    {after : Worker} (answered : w.watch keys outcome = (.ok (.ok, tokens), after)) :
    after.store.watchesValidAt tokens w.store.clock.now = true ↔
      w.readonly = false ∨ Purged keys w.store.clock.now w.store := by
  unfold watch at answered
  split at answered
  · cases answered
  · cases answered
  · rename_i reply middle accepted committed
    obtain ⟨same, rfl⟩ := Prod.mk.inj answered
    obtain ⟨_, rfl⟩ := Prod.mk.inj (Except.ok.inj same)
    obtain ⟨clock, kept, purged⟩ := commit_exists committed fun error equal =>
      accepted error (by rw [equal])
    have valid := tokens_valid_iff middle.sane keys
    rw [clock] at valid
    refine valid.trans ?_
    cases readonly : w.readonly with
    | true =>
      rw [kept readonly]
      simp
    | false => exact iff_of_true (purged readonly) (.inl rfl)

/-- A worker whose store still holds `k` at its deadline. -/
def retaining (readonly : Bool) : Worker where
  store := volatileStore.atClock ⟨10000000, 10, 1000000000⟩
  readonly := readonly
  durable := true
  valid := volatileStore_valid.atClock _
  sane := (raises_apply _ _).sane (Registry.sane_new 0)

/-- The writable worker removes the key and observes its absence. -/
theorem watch_valid_iff_writable :
    ∃ tokens after, (retaining false).watch [[107]] .written = (.ok (.ok, tokens), after) ∧
      after.store.watchesValidAt tokens (retaining false).store.clock.now = true := by
  obtain ⟨tokens, after, answered⟩ : ∃ tokens after,
      (retaining false).watch [[107]] .written = (.ok (.ok, tokens), after) := ⟨_, _, rfl⟩
  exact ⟨tokens, after, answered, (watch_valid_iff answered).mpr (.inl rfl)⟩

/-- The read-only worker answers OK with a token that is already past its deadline. -/
theorem watch_replica_token_elapsed :
    ∃ tokens after, (retaining true).watch [[107]] .written = (.ok (.ok, tokens), after) ∧
      after.store.watchesValidAt tokens (retaining true).store.clock.now = false :=
  ⟨_, _, rfl, by decide⟩

end Worker

end Sider
