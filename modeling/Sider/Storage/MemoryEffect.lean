/-
**What a memory operation writes, and the mutation it logs.**

`MemoryEffect start key resolved after` lists the outcomes of one operation: nothing but the passive
expiry of the key, the creation of an empty collection, or one edit of the collection the key holds.
`prepareMemory_decodes` turns it into the form replay needs: the logged mutation, read back on a store
that holds the same collection, is the mutation of the entry that is applied.
-/

import Sider.Storage.Recovery

namespace Sider

open StateProgram StoreM Store

variable {image : Image} {collection candidate : Collection} {key : Bytes}
  {middle start replayed : Store} {edits : List Edit}

/-- The key was left alone, or removed because it had expired. -/
def Settled (start : Store) (key : Bytes) (t : Store) : Prop :=
  t = start ∨ t = start.removed key

inductive MemoryEffect (start : Store) (key : Bytes) : Option MemoryMutation → Store → Prop
  | quiet {after : Store} (settled : Settled start key after) : MemoryEffect start key none after
  | create {middle : Store} {collection : Collection} {deadlines : OrdMap Bytes Nat}
      (settled : Settled start key middle) (fresh : collection.members = ∅)
      (checked : collection.validateKey key = .ok ())
      (resolved : middle.resolveMemberDeadlines key (.memory collection) = .ok deadlines) :
      MemoryEffect start key (some (.image key collection none))
        (middle.installEntry key (insertedImage (.memory collection) none deadlines))
  | edit {middle : Store} {image : Image} {collection candidate : Collection} {edit : Edit}
      {deadlines : OrdMap Bytes Nat} (settled : Settled start key middle)
      (found : middle.image? key = some image) (memory : image.value = .memory collection)
      (accepted : collection.applyEdits collection.descriptor [edit] key = .ok candidate)
      (resolved : middle.resolveMemberDeadlines key (.memory candidate) = .ok deadlines) :
      MemoryEffect start key
        (some (.delta key collection.descriptor [edit] (image.expiry.map Prod.snd)))
        (middle.installEntry key (insertedImage (.memory candidate) image.expiry deadlines))

/-- The mutation of an outcome; an error has none. -/
def resolvedOf : Except ExecutionError MemoryOutcome → Option MemoryMutation
  | .ok outcome => outcome.resolved
  | .error _ => none

section Runs

theorem expireKey_settled (now : Nat) :
    Triple (· = start) (expireKey key now) fun _ => Settled start key := by
  rintro s rfl
  show Settled s key ((if (s.image? key).any (Image.expired · now) then do
    let _ ← remove key
    pure () else pure () : StoreM Unit).run s).2
  split_ifs
  · exact .inr rfl
  · exact .inl rfl

theorem quiet_triple {pre : Store → Prop} (settled : ∀ t, pre t → Settled start key t)
    (result : Except ExecutionError MemoryOutcome) (none : resolvedOf result = none) :
    Triple pre (pure result : StoreM _) fun result => MemoryEffect start key (resolvedOf result) :=
  Triple.pure fun t holds => none ▸ .quiet (settled t holds)

theorem memoryAbsent_effect (operation : Operation) :
    Triple (fun t => Settled start key t ∧ t.image? key = none) (memoryAbsent key operation)
      fun result => MemoryEffect start key (resolvedOf result) := by
  have quiet : ∀ result, resolvedOf result = none →
      Triple (fun t => Settled start key t ∧ t.image? key = none) (pure result : StoreM _)
        fun result => MemoryEffect start key (resolvedOf result) :=
    quiet_triple fun _ holds => holds.1
  unfold memoryAbsent
  cases operation with
  | create descriptor =>
    dsimp only
    split
    · exact quiet _ rfl
    · rename_i collection created
      split
      · exact quiet _ rfl
      · rename_i checked
        refine Triple.bind (canReplace_triple _ key _) fun admitted => ?_
        cases admitted with
        | false => exact Triple.pure fun t holds => .quiet holds.1.1
        | true =>
          rintro t ⟨⟨settled, absent⟩, _⟩
          obtain ⟨deadlines, resolved⟩ := resolveMemberDeadlines_ok t key (.memory collection)
            fun id absolute due => by
              rw [memberDeadline?_memory, members_new created] at due
              cases due
          show MemoryEffect start key _ (t.inserted key (.memory collection) none)
          rw [inserted_eq resolved]
          exact .create settled (members_new created) checked resolved
  | _ => exact quiet _ rfl

/-- The effect of one edit on the collection a key holds. -/
theorem applyMemoryEdit_effect (memory : image.value = .memory collection) (edit : Edit) :
    Triple (fun t => Settled start key t ∧ t.image? key = some image)
      (applyMemoryEdit key collection edit) fun result => MemoryEffect start key result.toOption := by
  rintro t ⟨settled, found⟩
  rw [run_applyMemoryEdit]
  split
  · exact .quiet settled
  · rename_i candidate accepted
    split_ifs
    · split
      · exact .quiet settled
      · rename_i deadlines resolved
        rw [found]
        exact .edit settled found memory accepted resolved
    · exact .quiet settled

theorem resolvedOf_memorySearch (clock : Clock) (image : Image) (collection : Collection)
    (descriptor : Descriptor) (vector : Bytes) (k : Nat) (nameSpace : Bytes)
    (metadata : OrdMap Bytes Scalar) :
    resolvedOf (memorySearch clock image collection descriptor vector k nameSpace metadata) =
      none := by
  unfold memorySearch
  cases checkIdentity descriptor collection.descriptor with
  | error error => rfl
  | ok _ =>
    split <;> rfl

theorem memoryPresent_effect (memory : image.value = .memory collection) (operation : Operation) :
    Triple (fun t => Settled start key t ∧ t.image? key = some image)
      (memoryPresent key image collection operation)
      fun result => MemoryEffect start key (resolvedOf result) := by
  refine Triple.bind (clock_triple _) fun clock => ?_
  have quiet : ∀ result, resolvedOf result = none →
      Triple (fun t => (Settled start key t ∧ t.image? key = some image) ∧ t.clock = clock)
        (pure result : StoreM _) fun result => MemoryEffect start key (resolvedOf result) :=
    quiet_triple fun _ holds => holds.1.1
  split
  · split_ifs <;> exact quiet _ rfl
  · exact quiet _ rfl
  · exact quiet _ (resolvedOf_memorySearch ..)
  · split
    · exact quiet _ rfl
    · exact quiet _ rfl
    · rename_i edit reply _
      have edited : Triple
          (fun t => (Settled start key t ∧ t.image? key = some image) ∧ t.clock = clock)
          (applyMemoryEdit key collection edit)
          fun result => MemoryEffect start key result.toOption :=
        (applyMemoryEdit_effect memory edit).weaken (fun _ holds => holds.1) fun _ _ holds => holds
      refine Triple.bind edited fun edited => ?_
      cases edited <;> exact Triple.pure fun t holds => holds

theorem tryMemoryInner_effect (operation : Operation) :
    Triple (· = start) (tryMemoryInner key operation)
      fun result => MemoryEffect start key (resolvedOf result) := by
  have refused : ∀ error : ExecutionError, Triple (· = start)
      (pure (.error error) : StoreM (Except ExecutionError MemoryOutcome))
      fun result => MemoryEffect start key (resolvedOf result) := fun error =>
    quiet_triple (fun _ same => .inl same) _ rfl
  unfold tryMemoryInner
  split_ifs
  · exact refused _
  · split
    · exact refused _
    · refine Triple.bind (clock_triple _) fun clock => ?_
      refine Triple.bind ((expireKey_settled clock.now).weaken (fun _ holds => holds.1)
        fun _ _ settled => settled) fun _ => ?_
      refine Triple.bind (lookup_triple _ key) fun entry => ?_
      cases entry with
      | none => exact memoryAbsent_effect operation
      | some image =>
        dsimp only
        split
        · rename_i collection memory
          exact memoryPresent_effect memory operation
        · exact quiet_triple (fun _ holds => holds.1) _ rfl

/-- **The effect of a memory operation.** -/
theorem memoryInner_effect (key : Bytes) (operation : Operation) (start : Store) :
    MemoryEffect start key ((memoryInner key operation).run start).1.resolved
      ((memoryInner key operation).run start).2 := by
  have outcome : Triple (· = start) (memoryInner key operation)
      fun outcome => MemoryEffect start key outcome.resolved := by
    refine Triple.bind (tryMemoryInner_effect operation) fun result => ?_
    cases result <;> exact Triple.pure fun _ holds => holds
  exact outcome start rfl

end Runs

/-! ### Reading a logged mutation back -/

/-- A delta carries at most 64 edits, in strictly increasing id order. -/
def MemoryMutation.Bounded : MemoryMutation → Prop
  | .delta _ _ edits _ => edits.length ≤ maxEdits ∧ (edits.map Edit.id).Pairwise (· < ·)
  | _ => True

/-- The recovery clock can represent the deadlines that a record-2 mutation brings. -/
def MemoryMutation.Representable (recovery : Clock) : MemoryMutation → Prop
  | .legacy mutation => mutation.Representable recovery
  | .image _ collection keyDeadline => Store.Representable recovery (.memory collection) keyDeadline
  | .delta _ _ edits keyDeadline =>
    (∀ absolute, keyDeadline = some absolute → (recovery.monotonic absolute).isSome) ∧
      ∀ member absolute, Edit.upsert member ∈ edits → member.deadline = some absolute →
        (recovery.monotonic absolute).isSome

namespace Store

variable {rest : Nat} {s : Store}

/-- The memory collection at a key. -/
def collection? (s : Store) (key : Bytes) : Option Collection :=
  (s.image? key).bind fun image => image.value.asMemory

/-- A record-2 mutation that replay turns back into `mutation`, on any store that holds the same
collection at its key. -/
structure Decodes (s : Store) (m : MemoryMutation) (mutation : Mutation) : Prop where
  key : m.key = mutation.key
  image : ∀ replayed : Store, replayed.collection? m.key = s.collection? m.key →
    replayed.memoryReplayImage m = .ok mutation
  representable : ∀ recovery, (∀ collection, s.collection? m.key = some collection →
    Representable recovery (.memory collection) none) →
    m.Representable recovery → mutation.Representable recovery
  bounded : m.Bounded

/-- The members of an edited collection are old ones or the ones the edits bring. -/
theorem memberDeadline_applyEdits {id : Bytes} {absolute : Int}
    (accepted : collection.applyEdits collection.descriptor edits key = .ok candidate)
    (due : (Value.memory candidate).memberDeadline? id = some absolute) :
    (Value.memory collection).memberDeadline? id = some absolute ∨
      ∃ member, Edit.upsert member ∈ edits ∧ member.deadline = some absolute := by
  have applied := (Collection.applyEdits_ok accepted).2.2.2.2.2
  have drafts : ∀ (edits : List Edit) (draft last : Collection.Draft),
      edits.foldlM Collection.Draft.apply draft = .ok last → ∀ id member,
      last.members.get? id = some member →
        draft.members.get? id = some member ∨ Edit.upsert member ∈ edits := by
    intro edits
    induction edits with
    | nil =>
      intro draft last ok id member found
      cases ok
      exact .inl found
    | cons edit others ih =>
      intro draft last ok id member found
      obtain ⟨next, head, tail⟩ := bind_eq_ok ok
      rcases ih next last tail id member found with old | new
      · rcases Collection.Draft.apply_members head old with kept | fresh
        · exact .inl kept
        · exact .inr (List.mem_cons.mpr (.inl fresh.symm))
      · exact .inr (List.mem_cons_of_mem _ new)
  rw [memberDeadline?_memory] at due ⊢
  obtain ⟨member, found, deadline⟩ := Option.bind_eq_some_iff.mp due
  rcases drafts edits _ _ applied id member found with old | new
  · refine .inl ?_
    change collection.members.get? id = some member at old
    rw [old]
    exact deadline
  · exact .inr ⟨member, new, deadline⟩

theorem memoryReplayImage_delta (held : replayed.collection? key = some collection)
    (accepted : collection.applyEdits collection.descriptor edits key = .ok candidate)
    (keyDeadline : Option Int) :
    replayed.memoryReplayImage (.delta key collection.descriptor edits keyDeadline) =
      .ok (.put key (.memory candidate) keyDeadline) := by
  unfold memoryReplayImage
  dsimp only
  change (replayed.image? key).bind (fun image => image.value.asMemory) = some collection at held
  rw [held]
  simp only [accepted]

theorem memoryReplayImage_image (replayed : Store) (checked : collection.validateKey key = .ok ())
    (keyDeadline : Option Int) :
    replayed.memoryReplayImage (.image key collection keyDeadline) =
      .ok (.put key (.memory collection) keyDeadline) := by
  unfold memoryReplayImage
  simp only [checked]

/-- A new entry is stamped later than every older one. -/
theorem restamped_installEntry (holds : Sound rest s) (later : s.generation ≤ middle.generation)
    (image : Image) : s.restamped (middle.installEntry key image) key = true := by
  unfold restamped
  rw [decide_eq_true_eq]
  intro same
  have stamp : (middle.installEntry key image).stamp key =
      some (({ middle with watches := middle.watches.invalidate key }.removed key).generation + 1) := by
    unfold Store.stamp installEntry addEntry
    rw [OrdMap.get?_insert_self]
    rfl
  rw [stamp] at same
  obtain ⟨entry, found, stamped⟩ := Option.map_eq_some_iff.mp same
  have older := holds.stamped key entry found
  have grown := generation_le_removed { middle with watches := middle.watches.invalidate key } key
  change middle.generation ≤ _ at grown
  omega

theorem changes_singleton (s after : Store) (key : Bytes) :
    s.changes after [key] = if s.restamped after key then [(key, after.image? key)] else [] := by
  rw [changes_eq]
  cases stamped : s.restamped after key with
  | true => rw [List.filter_cons_of_pos stamped]; rfl
  | false => rw [List.filter_cons_of_neg (by simp [stamped])]; rfl

theorem generation_settled (settled : Settled start key middle) :
    start.generation ≤ middle.generation := by
  rcases settled with rfl | rfl
  · exact le_refl _
  · exact generation_le_removed start key

theorem image_settled (settled : Settled start key middle)
    (found : middle.image? key = some image) :
    start.image? key = some image := by
  rcases settled with rfl | rfl
  · exact found
  · rw [image?_removed, if_pos rfl] at found
    cases found

/-- **What a prepared memory operation logs**: nothing when it changes nothing, and otherwise one
mutation that replay turns back into the one that is applied. -/
theorem prepareMemory_decodes (holds : Sound rest s) (key : Bytes) (operation : Operation)
    (recordLimit : Nat) :
    ((s.prepareMemoryWithLimit key operation recordLimit).resolved = none ∧
        (s.prepareMemoryWithLimit key operation recordLimit).prepared.entries = []) ∨
      ∃ m image, (s.prepareMemoryWithLimit key operation recordLimit).resolved = some m ∧
        (s.prepareMemoryWithLimit key operation recordLimit).prepared.entries = [(key, image)] ∧
        Decodes s m (Mutation.ofEntry (key, image)) := by
  have copied := copied_memoryShadow s key
  have own : key ∈ [key] := List.mem_singleton.mpr rfl
  have effect := memoryInner_effect key operation (s.memoryShadow key)
  have image : (s.memoryShadow key).image? key = s.image? key := by rw [copied.image?, if_pos own]
  rw [prepareMemoryWithLimit_eq]
  split
  case isFalse => exact .inl ⟨rfl, rfl⟩
  show (s.memoryResolved key operation = none ∧ s.changes (s.memoryRun key operation).2 [key] = []) ∨
    ∃ m image, s.memoryResolved key operation = some m ∧
      s.changes (s.memoryRun key operation).2 [key] = [(key, image)] ∧ _
  unfold memoryResolved
  change MemoryEffect (s.memoryShadow key) key (s.memoryRun key operation).1.resolved
    (s.memoryRun key operation).2 at effect
  generalize (s.memoryRun key operation).1.resolved = resolved at effect
  generalize (s.memoryRun key operation).2 = after at effect
  rw [changes_singleton]
  cases effect with
  | quiet settled =>
    cases stamped : s.restamped after key with
    | false => exact .inl ⟨rfl, rfl⟩
    | true =>
      refine .inr ⟨_, none, rfl, ?_, rfl, fun _ _ => rfl, fun _ _ _ => trivial, trivial⟩
      have gone : after.image? key = none := by
        rcases settled with rfl | rfl
        · have same : s.stamp key = (s.memoryShadow key).stamp key := by
            unfold stamp
            rw [copied.entries, if_pos own]
          exact absurd same (of_decide_eq_true stamped)
        · rw [image?_removed, if_pos rfl]
      rw [if_pos rfl, gone]
  | create settled _ checked resolved =>
    have later := copied.generation ▸ generation_settled settled
    rw [restamped_installEntry holds later, if_pos rfl, image?_installEntry, if_pos rfl]
    exact .inr ⟨_, _, rfl, rfl, rfl, fun replayed _ => memoryReplayImage_image replayed checked none,
      fun _ _ brings => brings, trivial⟩
  | @edit middle found collection candidate edit deadlines settled hit memory accepted resolved =>
    have later := copied.generation ▸ generation_settled settled
    have before : s.collection? key = some collection := by
      unfold collection?
      rw [← image, image_settled settled hit, Option.bind_some, memory]
      rfl
    rw [restamped_installEntry holds later, if_pos rfl, image?_installEntry, if_pos rfl]
    refine .inr ⟨_, _, rfl, rfl, rfl, fun replayed same => ?_, fun recovery held brings => ?_, ?_⟩
    · exact memoryReplayImage_delta (same.trans before) accepted _
    · refine ⟨brings.1, fun id absolute due => ?_⟩
      rcases memberDeadline_applyEdits accepted due with old | ⟨member, inside, deadline⟩
      · exact (held collection before).2 id absolute old
      · exact brings.2 member absolute inside deadline
    · exact ⟨(Collection.applyEdits_ok accepted).2.1, List.pairwise_singleton ..⟩

end Store

end Sider
