/-
**Cleanup rounds.**

A round collects the due keys and then the due members of other keys, up to its budget
(`Collected` is the invariant of the scan). Each collected key keeps a collection without its due
members (`Cleaned`), which is always accepted, so that a round never panics and is admissible
(`prepareExpiration_admissible`).
-/

import Mathlib.Data.List.TakeWhile
import Sider.Storage.Apply
import Sider.Storage.Edits

namespace Sider

variable {budget : Nat} {key : Bytes} {expired ids : List Bytes} {done more : List MemberExpiration}
  {state : OrdMap Bytes (List Edit) × Nat} {entry : Bytes × Option Image} {image : Image}

namespace Store

variable {rest : Nat} {s : Store}

/-! ### Due keys -/

theorem dueKeys_length (s : Store) (budget : Nat) : (s.dueKeys budget).length ≤ budget := by
  unfold dueKeys
  rw [List.length_map]
  refine (List.length_filter_le _ _).trans ((List.takeWhile_sublist _).length_le.trans ?_)
  exact (List.length_take ..).le.trans (min_le_left ..)

/-- A key has one current event, so it is due at most once. -/
theorem dueKeys_nodup (s : Store) (budget : Nat) : (s.dueKeys budget).Nodup := by
  refine List.Nodup.map_on (fun left inside right inside' same => ?_) ?_
  · obtain ⟨_, first⟩ := List.mem_filter.mp inside
    obtain ⟨_, second⟩ := List.mem_filter.mp inside'
    obtain ⟨entry, found, fields⟩ := Option.any_eq_true .. |>.mp first
    obtain ⟨other, found', fields'⟩ := Option.any_eq_true .. |>.mp second
    rw [same, found'] at found
    cases found
    simp only [Bool.and_eq_true, decide_eq_true_eq] at fields fields'
    have deadlines := Option.some.inj (fields.2.symm.trans fields'.2)
    have stamps := fields.1.symm.trans fields'.1
    exact Prod.ext deadlines (Prod.ext stamps same)
  · exact ((s.expirations.nodup_keys.sublist (List.take_sublist ..)).sublist
      (List.takeWhile_sublist _)).filter _

/-! ### Collecting due members -/

/-- What the scan has collected from the events `done`. -/
structure Collected (s : Store) (budget : Nat) (expired : List Bytes) (done : List MemberExpiration)
    (removals : OrdMap Bytes (List Edit)) (events : Nat) : Prop where
  bound : events ≤ budget
  each : ∀ key edits, removals.get? key = some edits →
    key ∉ expired ∧ edits.length ≤ events ∧ ∃ entry ids, s.values.get? key = some entry ∧
      edits = ids.map Edit.remove ∧ ids ≠ [] ∧ ids.Nodup ∧
      ∀ id ∈ ids, ∃ deadline, entry.memberDeadlines.get? id = some deadline ∧
        memberExpiration deadline key id ∈ done

theorem Collected.mono {removals : OrdMap Bytes (List Edit)} {events : Nat}
    (collected : Collected s budget expired done removals events)
    (subset : ∀ event ∈ done, event ∈ more) : Collected s budget expired more removals events where
  bound := collected.bound
  each := fun key edits found => by
    obtain ⟨other, few, entry, ids, stored, shape, some, nodup, each⟩ :=
      collected.each key edits found
    refine ⟨other, few, entry, ids, stored, shape, some, nodup, fun id member => ?_⟩
    obtain ⟨deadline, due, inside⟩ := each id member
    exact ⟨deadline, due, subset _ inside⟩

/-- **One event of the scan.** -/
theorem collected_step {event : MemberExpiration} (fresh : event ∉ done)
    (collected : Collected s budget expired done state.1 state.2) :
    Collected s budget expired (done ++ [event]) (s.collectMember budget expired state event).1
      (s.collectMember budget expired state event).2 := by
  have grown : Collected s budget expired (done ++ [event]) state.1 state.2 :=
    collected.mono fun _ inside => List.mem_append.mpr (.inl inside)
  unfold collectMember
  dsimp only
  split_ifs with spent removing current
  · exact grown
  · exact grown
  · obtain ⟨entry, found, due⟩ := Option.any_eq_true .. |>.mp current
    have due : entry.memberDeadlines.get? (ofLex (ofLex event).2).2 = some (ofLex event).1 := by
      simpa using due
    refine ⟨by show state.2 + 1 ≤ budget; omega, fun key edits hit => ?_⟩
    rw [OrdMap.get?_insert] at hit
    split_ifs at hit with own
    · subst own
      cases hit
      -- The ids collected before come from other events, so the new one is not among them.
      cases before : state.1.get? (ofLex (ofLex event).2).1 with
      | none =>
        refine ⟨removing, ?_, entry, [(ofLex (ofLex event).2).2], found, rfl, by simp, by simp,
          fun id member => ?_⟩
        · show 1 ≤ state.2 + 1
          omega
        · rw [List.mem_singleton.mp member]
          exact ⟨_, due, List.mem_append.mpr (.inr (List.mem_singleton.mpr rfl))⟩
      | some old =>
        obtain ⟨_, few, stored, ids, found', shape, _, nodup, each⟩ := collected.each _ old before
        rw [found] at found'
        cases found'
        have new : (ofLex (ofLex event).2).2 ∉ ids := by
          intro member
          obtain ⟨deadline, held, inside⟩ := each _ member
          rw [due] at held
          cases held
          exact fresh inside
        refine ⟨removing, ?_, entry, ids ++ [(ofLex (ofLex event).2).2], found, ?_, by simp, ?_,
          fun id member => ?_⟩
        · show (old ++ [Edit.remove _]).length ≤ state.2 + 1
          rw [List.length_append, List.length_singleton]
          omega
        · rw [shape, List.map_append]
          rfl
        · exact List.nodup_append.mpr ⟨nodup, by simp, fun id inside other last => by
            rw [List.mem_singleton.mp last]
            exact fun same => new (same ▸ inside)⟩
        · rcases List.mem_append.mp member with inside | last
          · obtain ⟨deadline, held, seen⟩ := each id inside
            exact ⟨deadline, held, List.mem_append.mpr (.inl seen)⟩
          · rw [List.mem_singleton.mp last]
            exact ⟨_, due, List.mem_append.mpr (.inr (List.mem_singleton.mpr rfl))⟩
    · obtain ⟨other, few, rest⟩ := grown.each key edits hit
      exact ⟨other, few.trans (Nat.le_succ _), rest⟩
  · exact grown

/-- **The whole scan.** -/
theorem collected_foldl (events : List MemberExpiration) (nodup : (done ++ events).Nodup)
    (collected : Collected s budget expired done state.1 state.2) :
    Collected s budget expired (done ++ events)
      (events.foldl (s.collectMember budget expired) state).1
      (events.foldl (s.collectMember budget expired) state).2 := by
  induction events generalizing done state with
  | nil =>
    rw [List.append_nil]
    exact collected
  | cons event others ih =>
    rw [List.append_cons] at nodup ⊢
    refine ih nodup (collected_step (fun inside => ?_) collected)
    have apart := (List.nodup_append.mp (List.nodup_append.mp nodup).1).2.2
    exact apart event inside event (List.mem_singleton.mpr rfl) rfl

/-! ### A key without its due members -/

/-- The image of a key whose collection has lost some members. -/
def Cleaned (s : Store) (key : Bytes) (image : Image) : Prop :=
  ∃ old collection ids candidate, s.image? key = some old ∧ old.value = .memory collection ∧
    collection.Without ids key candidate ∧
    image = { old with
      value := .memory candidate
      memberDeadlines := ids.foldl OrdMap.erase old.memberDeadlines }

theorem Cleaned.good (cleaned : Cleaned s key image) (holds : Sound rest s) : image.Good key := by
  obtain ⟨old, collection, ids, candidate, found, memory, without, rfl⟩ := cleaned
  obtain ⟨entry, stored, rfl⟩ := image?_eq_some.mp found
  have good := holds.good key entry stored
  refine ⟨rfl, good.deadlines, fun id => ?_, fun other same => ?_⟩
  · have before := good.members id
    rw [memory, memberDeadline?_memory] at before
    rw [memberDeadline?_memory, without.members, OrdMap.get?_foldl_erase, OrdMap.get?_foldl_erase]
    split_ifs
    · rfl
    · exact before
  · obtain rfl := Value.memory.inj same
    exact (Collection.applyEdits_ok without.accepted).2.2.2.2.1

theorem Cleaned.smaller (cleaned : Cleaned s key image) :
    entrySize key image.value ≤ s.held key := by
  obtain ⟨old, collection, ids, candidate, found, memory, without, rfl⟩ := cleaned
  have smaller := without.smaller
  unfold held
  rw [found]
  show entrySize key (.memory candidate) ≤ entrySize key old.value
  rw [memory]
  unfold entrySize
  simp only [Value.size]
  omega

/-- The members of a collected key can be removed. -/
theorem withoutMembers_cleaned (holds : Sound rest s) {entry : Entry}
    (found : s.values.get? key = some entry) (some : ids ≠ []) (nodup : ids.Nodup)
    (few : ids.length ≤ maxEdits) (due : ∀ id ∈ ids, (entry.memberDeadlines.get? id).isSome) :
    ∃ image, s.withoutMembers key (ids.map Edit.remove) = .some (key, .some image) ∧
      Cleaned s key image := by
  have good := holds.good key entry found
  have members : ∀ id ∈ ids, (entry.value.memberDeadline? id).isSome := fun id member => by
    rw [← good.members id]
    exact due id member
  obtain ⟨collection, memory⟩ : ∃ collection, entry.value.asMemory = .some collection := by
    obtain ⟨id, member⟩ := List.exists_mem_of_ne_nil ids some
    refine Option.isSome_iff_exists.mp ?_
    by_contra other
    have none := members id member
    rw [memberDeadline?_of_not_memory (by simpa using other)] at none
    cases none
  have value := asMemory_eq memory
  -- The edits are sorted by id before they are applied.
  obtain ⟨sorted, shape, perm⟩ : ∃ sorted : List Bytes,
      (ids.map Edit.remove).mergeSort (fun left right => left.id ≤ right.id) =
        sorted.map Edit.remove ∧ sorted.Perm ids := by
    refine ⟨ids.mergeSort fun left right => left ≤ right, ?_, List.mergeSort_perm ..⟩
    have order : ∀ left ∈ ids, ∀ right ∈ ids, decide (left ≤ right) =
        decide ((Edit.remove left).id ≤ (Edit.remove right).id) := fun _ _ _ _ => rfl
    exact (List.map_mergeSort order).symm
  have increasing : sorted.Pairwise (· < ·) := by
    have transitive : ∀ a b c : Edit, decide (a.id ≤ b.id) = true → decide (b.id ≤ c.id) = true →
        decide (a.id ≤ c.id) = true := fun a b c left right =>
      decide_eq_true (le_trans (of_decide_eq_true left) (of_decide_eq_true right))
    have total : ∀ a b : Edit, (decide (a.id ≤ b.id) || decide (b.id ≤ a.id)) = true :=
      fun a b => by simpa using le_total a.id b.id
    have order := List.pairwise_mergeSort transitive total (ids.map Edit.remove)
    rw [shape, List.pairwise_map] at order
    refine (order.and (perm.nodup_iff.mpr nodup)).imp fun both => ?_
    exact lt_of_le_of_ne (of_decide_eq_true both.1) both.2
  have present : ∀ id ∈ sorted, id ∈ collection.members := fun id member => by
    have held := members id (perm.mem_iff.mp member)
    rw [value, memberDeadline?_memory] at held
    obtain ⟨deadline, held⟩ := Option.isSome_iff_exists.mp held
    obtain ⟨stored, hit, _⟩ := Option.bind_eq_some_iff.mp held
    exact OrdMap.mem_iff.mpr ⟨stored, hit⟩
  have small : sorted.length ≤ maxEdits := perm.length_eq.le.trans few
  obtain ⟨candidate, without⟩ :=
    Collection.exists_without increasing small present (good.quotas collection value)
  have image := image?_eq_some.mpr ⟨entry, found, rfl⟩
  refine ⟨_, ?_, ⟨entry.toImage, collection, sorted, candidate, image, value, without, rfl⟩⟩
  unfold withoutMembers
  rw [shape, image]
  simp only [Option.bind_some, memory, without.accepted]
  rw [List.map_map]
  simp only [Function.comp_def, Edit.id, List.map_id']

/-! ### The round -/

/-- The members collected by a round, by key, with the number of its events. -/
def collectedMembers (s : Store) (budget : Nat) : OrdMap Bytes (List Edit) × Nat :=
  (s.memberExpirations.keys.takeWhile fun event => (ofLex event).1 ≤ s.clock.now).foldl
    (s.collectMember (min budget maxEdits) (s.dueKeys (min budget maxEdits)))
    (∅, (s.dueKeys (min budget maxEdits)).length)

/-- The edited keys of a round. -/
def editedKeys (s : Store) (budget : Nat) : List (Option (Bytes × Option Image)) :=
  (s.collectedMembers budget).1.entries.map fun entry => s.withoutMembers entry.1 entry.2

theorem prepareExpiration_eq (s : Store) (budget : Nat) :
    s.prepareExpiration budget =
      s.prepared (.integer (s.collectedMembers budget).2)
        ((s.dueKeys (min budget maxEdits)).map (·, none) ++ (s.editedKeys budget).filterMap id)
        .expiration ((s.editedKeys budget).any Option.isNone) := rfl

section

variable (holds : Sound rest s)

include holds

/-- Every collected key is cleaned, and none of them is due itself. -/
theorem collectedMembers_cleaned (budget : Nat) {entry : Bytes × List Edit}
    (member : entry ∈ (s.collectedMembers budget).1.entries) :
    entry.1 ∉ s.dueKeys (min budget maxEdits) ∧
      ∃ image, s.withoutMembers entry.1 entry.2 = some (entry.1, some image) ∧
        Cleaned s entry.1 image := by
  have nodup : ([] ++ s.memberExpirations.keys.takeWhile fun event : MemberExpiration =>
      (ofLex event).1 ≤ s.clock.now).Nodup :=
    s.memberExpirations.nodup_keys.sublist (List.takeWhile_sublist _)
  have collected : Collected s (min budget maxEdits) (s.dueKeys (min budget maxEdits)) _
      (s.collectedMembers budget).1 (s.collectedMembers budget).2 :=
    collected_foldl _ nodup ⟨dueKeys_length s _, nofun⟩
  obtain ⟨key, edits⟩ := entry
  obtain ⟨other, few, stored, ids, found, rfl, some, distinct, each⟩ :=
    collected.each key edits (OrdMap.get?_eq_some_iff.mpr member)
  have bound := collected.bound
  rw [List.length_map] at few
  refine ⟨other, withoutMembers_cleaned holds found some distinct (by omega) fun id inside => ?_⟩
  obtain ⟨deadline, due, _⟩ := each id inside
  rw [due]
  rfl

theorem mem_editedKeys (member : entry ∈ (s.editedKeys budget).filterMap id) :
    entry.1 ∉ s.dueKeys (min budget maxEdits) ∧
      ∃ image, entry.2 = some image ∧ Cleaned s entry.1 image := by
  obtain ⟨edited, inside, same⟩ := List.mem_filterMap.mp member
  obtain ⟨source, among, rfl⟩ := List.mem_map.mp inside
  obtain ⟨other, image, shape, cleaned⟩ := collectedMembers_cleaned holds budget among
  rw [id_eq, shape] at same
  cases same
  exact ⟨other, image, rfl, cleaned⟩

theorem editedKeys_calm (budget : Nat) : (s.editedKeys budget).any Option.isNone = false := by
  refine List.any_eq_false.mpr fun edited inside => ?_
  obtain ⟨source, among, rfl⟩ := List.mem_map.mp inside
  obtain ⟨_, image, shape, _⟩ := collectedMembers_cleaned holds budget among
  rw [shape]
  simp

theorem editedKeys_names (budget : Nat) :
    ((s.editedKeys budget).filterMap id).map Prod.fst = (s.collectedMembers budget).1.keys := by
  have all : ∀ list : List (Bytes × List Edit),
      (∀ entry ∈ list, entry ∈ (s.collectedMembers budget).1.entries) →
      ((list.map fun entry => s.withoutMembers entry.1 entry.2).filterMap id).map Prod.fst =
        list.map Prod.fst := by
    intro list
    induction list with
    | nil => exact fun _ => rfl
    | cons entry others ih =>
      intro inside
      obtain ⟨_, image, shape, _⟩ :=
        collectedMembers_cleaned holds budget (inside entry List.mem_cons_self)
      rw [List.map_cons, shape, List.filterMap_cons]
      exact congrArg (entry.1 :: ·) (ih fun later member => inside later (List.mem_cons_of_mem _ member))
  exact all _ fun _ inside => inside

/-- Each entry of a round is a tombstone of a due key, or a cleaned key. -/
theorem mem_prepareExpiration (member : entry ∈ (s.prepareExpiration budget).entries) :
    (entry.1 ∈ s.dueKeys (min budget maxEdits) ∧ entry.2 = none) ∨
      ∃ image, entry.2 = some image ∧ Cleaned s entry.1 image := by
  rcases List.mem_append.mp member with due | edited
  · obtain ⟨key, inside, rfl⟩ := List.mem_map.mp due
    exact .inl ⟨inside, rfl⟩
  · exact .inr (mem_editedKeys holds edited).2

theorem prepareExpiration_nodup (budget : Nat) :
    ((s.prepareExpiration budget).entries.map Prod.fst).Nodup := by
  rw [prepareExpiration_eq]
  show (_ ++ _ : List (Bytes × Option Image)).map Prod.fst |>.Nodup
  rw [List.map_append, editedKeys_names holds, List.map_map]
  refine List.nodup_append.mpr ⟨?_, (s.collectedMembers budget).1.nodup_keys, ?_⟩
  · exact (List.map_id (s.dueKeys (min budget maxEdits))).symm ▸ dueKeys_nodup s _
  · intro key due other edited same
    subst same
    obtain ⟨entry, inside, rfl⟩ := List.mem_map.mp edited
    obtain ⟨due, own, rfl⟩ := List.mem_map.mp due
    exact (collectedMembers_cleaned holds budget inside).1 own

end

theorem entriesCharge_le_heldAll {entries : List (Bytes × Option Image)}
    (smaller : ∀ entry ∈ entries, entryCharge entry ≤ s.held entry.1) :
    entriesCharge entries ≤ heldAll s (entries.map Prod.fst) := by
  unfold entriesCharge heldAll
  rw [List.map_map]
  exact List.sum_le_sum smaller

/-- **A cleanup round is admissible**: it never panics, and what it writes is no larger. -/
theorem prepareExpiration_admissible (holds : Sound rest s) (budget : Nat) :
    Admissible s (s.prepareExpiration budget) := by
  have quota := holds.quota
  refine ⟨prepareExpiration_nodup holds budget, editedKeys_calm holds budget, rfl,
    fun entry member image same => ?_, ?_⟩
  · rcases mem_prepareExpiration holds member with ⟨_, none⟩ | ⟨cleaned, shape, spec⟩
    · rw [none] at same
      cases same
    · cases shape.symm.trans same
      exact spec.good holds
  · have charge : entriesCharge (s.prepareExpiration budget).entries ≤
        heldAll s ((s.prepareExpiration budget).entries.map Prod.fst) :=
      entriesCharge_le_heldAll fun entry member => by
        rcases mem_prepareExpiration holds member with ⟨_, none⟩ | ⟨image, shape, cleaned⟩
        · unfold entryCharge
          rw [none]
          exact Nat.zero_le _
        · unfold entryCharge
          rw [shape]
          exact cleaned.smaller
    omega

end Store

end Sider
