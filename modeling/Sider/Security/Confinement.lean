/-
**Authorization confines effects and information.**

Two stores are compared that agree on the keys of the scope a command was checked against, and have the
same clock reading, quota and byte count. A command uses only the keys it visits, so both runs take the
same steps (`mirror_run`): preparation gives the same reply and the same entries (`prepare_alike`,
`prepareMemory_alike`), and applying equal entries to stores that agree inside the scope leaves stores
that agree there and does not touch the rest (`apply_alike`).

`authorize_confines` puts that together with what the policy checks.
-/

import Sider.Security.Policy
import Sider.Storage.MemoryEffect
import Sider.Storage.Sequential

namespace Sider

open StateProgram StoreM Store

variable {inside fewer : Bytes → Prop} {command : Command}

namespace Store

variable {s t : Store}

/-- Prepare and apply one command, as the owner of the store does. -/
def execute (s : Store) (command : Command) : Reply × Store :=
  match command with
  | .memory key operation =>
    let p := (s.prepareMemory key operation).prepared
    (p.reply, s.apply p)
  | command =>
    let p := s.prepare command
    (p.reply, s.apply p)

/-- The same clock reading, quota and byte count, and the same images at the keys inside. -/
structure Alike (inside : Bytes → Prop) (s t : Store) : Prop where
  clock : s.clock = t.clock
  config : s.config = t.config
  usedBytes : s.usedBytes = t.usedBytes
  images : ∀ key, inside key → s.image? key = t.image? key

/-- Two results with the same reply and the same entries, all of them inside. -/
structure SamePrepared (inside : Bytes → Prop) (p q : Prepared) : Prop where
  reply : p.reply = q.reply
  entries : p.entries = q.entries
  nodup : (p.entries.map Prod.fst).Nodup
  keys : ∀ key ∈ p.entries.map Prod.fst, inside key

/-- **Applying equal entries** keeps two stores alike inside and leaves the rest of each alone. -/
theorem apply_alike (alike : Alike inside s t) {p q : Prepared} (same : SamePrepared inside p q) :
    (∀ key, ¬inside key → (s.apply p).image? key = s.image? key) ∧
      (∀ key, ¬inside key → (t.apply q).image? key = t.image? key) ∧
      ∀ key, inside key → (s.apply p).image? key = (t.apply q).image? key := by
  have nodup := same.entries ▸ same.nodup
  refine ⟨fun key outside => ?_, fun key outside => ?_, fun key within => ?_⟩
  · exact image?_apply_of_not_mem same.nodup fun member => outside (same.keys key member)
  · exact image?_apply_of_not_mem nodup fun member => outside (same.keys key (same.entries ▸ member))
  · rw [image?_apply s p same.nodup, image?_apply t q nodup, same.entries, alike.images key within]

/-- **A local program on copies of alike stores** returns the same result and makes the same changes. -/
theorem changes_alike {plain : Prop} {keys : List Bytes} {α : Type} {program : StoreM α}
    {s' t' : Store} (alike : Alike (· ∈ keys) s t) (nodup : keys.Nodup) (first : s.Valid)
    (second : t.Valid) (left : Copied s keys s.clock s') (right : Copied t keys t.clock t')
    (isLocal : Local plain keys α program) (keeps : ∀ rest, Keeps rest program) :
    (program.run s').1 = (program.run t').1 ∧
      (∀ key ∈ keys, (program.run s').2.image? key = (program.run t').2.image? key) ∧
      s.changes (program.run s').2 keys = t.changes (program.run t').2 keys := by
  have images : ∀ key ∈ keys, s'.image? key = t'.image? key := fun key own => by
    rw [left.image?, right.image?, if_pos own, if_pos own, alike.images key own]
  obtain ⟨reply, mirror⟩ := mirror_run isLocal (left.tentative nodup first.sound).sound
    (right.tentative nodup second.sound).sound images
    (left.clock.trans (alike.clock.trans right.clock.symm))
    (left.config.trans (alike.config.trans right.config.symm))
    (left.usedBytes.trans (alike.usedBytes.trans right.usedBytes.symm))
  have leftRun := (left.run nodup first.sound isLocal keeps).2
  have rightRun := (right.run nodup second.sound isLocal keeps).2
  -- an entry is restamped exactly when it is rewritten, and both runs rewrite the same ones
  have stamps : ∀ key ∈ keys,
      s.restamped (program.run s').2 key = t.restamped (program.run t').2 key := by
    intro key own
    have same := mirror.same key own
    rw [left.entries, right.entries, if_pos own, if_pos own] at same
    have still : ∀ {u u' : Store}, u'.values.get? key = u.values.get? key →
        u.restamped u' key = false := fun equal => by
      unfold restamped stamp
      simp [equal]
    cases here : s.restamped (program.run s').2 key with
    | false => exact (still (same.mp (leftRun key own here))).symm
    | true =>
      cases there : t.restamped (program.run t').2 key with
      | true => rfl
      | false => rw [still (same.mpr (rightRun key own there))] at here; cases here
  refine ⟨reply, mirror.images, ?_⟩
  rw [changes_eq, changes_eq, List.filter_congr stamps]
  exact List.map_congr_left fun key member =>
    Prod.ext rfl (mirror.images key (List.mem_filter.mp member).1)

theorem changes_keys (s after : Store) (keys : List Bytes) :
    (s.changes after keys).map Prod.fst = keys.filter (s.restamped after) :=
  imagesOf_keys ..

variable (alike : Alike inside s t)

include alike

theorem Alike.mono (subset : ∀ key, fewer key → inside key) : Alike fewer s t :=
  ⟨alike.clock, alike.config, alike.usedBytes, fun key own => alike.images key (subset key own)⟩

theorem prepare_alike (first : s.Valid) (second : t.Valid) (ordinary : command.isMemory = false)
    (own : ∀ key ∈ command.visitKeys, inside key) :
    SamePrepared inside (s.prepare command) (t.prepare command) := by
  have within : ∀ key ∈ commandKeys command, inside key := fun key member =>
    own key (OrdMap.mem_ofKeys.mp (OrdMap.mem_keys.mp member))
  obtain ⟨reply, _, changes⟩ := changes_alike (alike.mono within) (commandKeys_nodup command) first
    second (copied_shadow s _) (copied_shadow t _) (commandKeys_local command)
    fun _ => executeInner_sound command
  have keys : ∀ key ∈ (s.prepare command).entries.map Prod.fst, key ∈ commandKeys command := by
    intro key member
    rw [prepare_eq s ordinary] at member
    exact List.mem_of_mem_filter ((imagesOf_keys ..) ▸ member)
  refine ⟨?_, ?_, (prepare_keys_sorted s command).imp fun less => ne_of_lt less,
    fun key member => within key (keys key member)⟩
  · rw [prepare_eq s ordinary, prepare_eq t ordinary]
    exact reply
  · rw [prepare_eq s ordinary, prepare_eq t ordinary]
    exact changes

theorem prepareMemory_alike (first : s.Valid) (second : t.Valid) {key : Bytes}
    (operation : Operation) (own : inside key) :
    SamePrepared inside (s.prepareMemory key operation).prepared
      (t.prepareMemory key operation).prepared := by
  have within : ∀ other ∈ [key], inside other := fun other member =>
    List.mem_singleton.mp member ▸ own
  obtain ⟨outcome, images, changes⟩ := changes_alike (alike.mono within) (List.nodup_singleton key)
    first second (copied_memoryShadow s key) (copied_memoryShadow t key)
    (memoryInner_local key operation) fun _ => memoryInner_sound operation
  change (s.memoryRun key operation).1 = (t.memoryRun key operation).1 at outcome
  change s.changes (s.memoryRun key operation).2 [key] = t.changes (t.memoryRun key operation).2 [key]
    at changes
  have image : (s.memoryRun key operation).2.image? key = (t.memoryRun key operation).2.image? key :=
    images key (List.mem_singleton.mpr rfl)
  have resolved : s.memoryResolved key operation = t.memoryResolved key operation := by
    unfold memoryResolved
    rw [outcome, changes]
  have keys : ∀ other ∈ (t.changes (t.memoryRun key operation).2 [key]).map Prod.fst, inside other := by
    intro other member
    rw [changes_keys] at member
    exact within other (List.mem_of_mem_filter member)
  have nodup : ((t.changes (t.memoryRun key operation).2 [key]).map Prod.fst).Nodup := by
    rw [changes_keys]
    exact (List.nodup_singleton key).filter _
  unfold prepareMemory
  rw [prepareMemoryWithLimit_eq, prepareMemoryWithLimit_eq, resolved, image, outcome, changes]
  split
  · exact ⟨rfl, rfl, nodup, keys⟩
  · exact ⟨rfl, rfl, List.nodup_nil, fun _ => nofun⟩

/-- **A command whose keys lie inside** replies alike in alike stores, leaves them alike, and does not
touch what is outside. -/
theorem execute_alike (first : s.Valid) (second : t.Valid)
    (own : ∀ key ∈ command.visitKeys, inside key) :
    (s.execute command).1 = (t.execute command).1 ∧
      (∀ key, ¬inside key → (s.execute command).2.image? key = s.image? key) ∧
      (∀ key, ¬inside key → (t.execute command).2.image? key = t.image? key) ∧
      ∀ key, inside key → (s.execute command).2.image? key = (t.execute command).2.image? key := by
  cases command with
  | memory key operation =>
    have same := prepareMemory_alike alike first second operation
      (own key (List.mem_singleton.mpr rfl))
    exact ⟨same.reply, apply_alike alike same⟩
  | _ =>
    have same := prepare_alike alike first second rfl own
    exact ⟨same.reply, apply_alike alike same⟩

end Store

/-- **Authorization confines effects and information.** A command the policy authorizes for a user is
executed on two stores with the same clock reading, quota and byte count that agree on the keys in the
user's write scope, if the command is a write, or in its read scope otherwise. Both executions give the
same reply, change no key outside that scope, and leave stores that agree inside it. -/
theorem authorize_confines (decode : String → Option Bytes) (policy : ClientPolicy)
    (username : String) (name : Bytes) (command : Command)
    (authorized : policy.authorize decode username name command = .ok ()) :
    ∃ user, policy.find? username = some user ∧
      ∀ inside : Bytes → Prop,
        (∀ key, inside key ↔ (if command.writesDataset then user.writeKeys
          else user.readKeys).permits decode key = true) →
        ∀ s t : Store, s.Valid → t.Valid → s.clock = t.clock → s.config = t.config →
        s.usedBytes = t.usedBytes → (∀ key, inside key → s.image? key = t.image? key) →
        (s.execute command).1 = (t.execute command).1 ∧
          (∀ key, ¬inside key → (s.execute command).2.image? key = s.image? key) ∧
          (∀ key, ¬inside key → (t.execute command).2.image? key = t.image? key) ∧
          ∀ key, inside key → (s.execute command).2.image? key = (t.execute command).2.image? key := by
  obtain ⟨user, found, checked⟩ := ClientPolicy.authorize_ok authorized
  unfold User.scope at checked
  rw [writes_commandName] at checked
  refine ⟨user, found, fun inside scope s t first second clock config usedBytes images => ?_⟩
  exact Store.execute_alike ⟨clock, config, usedBytes, images⟩ first second
    fun key own => (scope key).mpr (checked key own)

/-- A user that may read the one key of its read scope. -/
def reader : User where
  name := "reader"
  commands := [.get]
  readKeys := ⟨["aw=="], [], false⟩
  writeKeys := ⟨[], [], false⟩
  publishChannels := ⟨[], [], false⟩
  subscribeChannels := ⟨[], [], false⟩
  infoSections := []

/-- A store of 1 KiB that holds one key. -/
def holding (key : Bytes) : Store :=
  let empty := Store.withConfig .kibibyte ⟨0, 0, 1000000000⟩ 0
  empty.apply (empty.prepare (.set key [49]))

theorem holding_valid (key : Bytes) : (holding key).Valid :=
  have empty := valid_withConfig ..
  (prepare_admissible empty.sound _).valid empty

/-- GET of the key in scope does not tell which other key the store holds. -/
theorem authorize_confines_get :
    ((holding [97]).execute (.get [107])).1 = ((holding [98]).execute (.get [107])).1 ∧
      ((holding [97]).execute (.get [107])).2.image? [97] = (holding [97]).image? [97] := by
  have granted : ClientPolicy.authorize (fun _ => some [107]) ⟨[reader]⟩ "reader"
      (Bytes.ascii "get") (.get [107]) = .ok () := by decide +kernel
  obtain ⟨user, found, confined⟩ := authorize_confines _ _ _ _ _ granted
  cases found
  have only : ∀ key, reader.readKeys.permits (fun _ => some [107]) key = true ↔ key = [107] := by
    intro key
    unfold Scope.permits reader
    simp [eq_comm]
  obtain ⟨reply, outside, _⟩ := confined _ (fun _ => Iff.rfl) (holding [97]) (holding [98])
    (holding_valid _) (holding_valid _) (by decide +kernel) (by decide +kernel) (by decide +kernel)
    fun key inside => by
      obtain rfl := (only key).mp inside
      decide +kernel
  exact ⟨reply, outside [97] fun inside => absurd ((only [97]).mp inside) (by decide)⟩

end Sider
