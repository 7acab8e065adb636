/-
**When the time to live of a member takes effect.**

A write with a time to live stores an absolute deadline, and the monotonic one is resolved from it: an
older member that is still stored under the same id, even an elapsed one, lends its own monotonic
deadline when its absolute deadline is the same (`run_ttl`). The wall clock may have been set back
since that member was written, so its monotonic deadline may be any; `ttl_takesEffect` says that the
write has the effect its reply promises exactly when no such member is in the way (`Unskewed`).

`Undisturbed` is what may happen to the member until it is read: anything that neither rewrites nor
deletes it, and `Undisturbed.held` follows the member through it.
-/

import Sider.Storage.Retention
import Sider.Storage.Visibility

namespace Sider

open StateProgram StoreM

variable {operation : Operation} {milliseconds absolute : Int} {deadline now start : Nat}
  {t : Store} {member : Member} {outcome : MemoryOutcome}

/-! ### Writes with a time to live -/

/-- The member and the milliseconds of a write that sets a time to live. -/
def Operation.ttl : Operation → Option (Bytes × Int)
  | .put _ member (.after milliseconds) _ => some (member.id, milliseconds)
  | .expire id milliseconds => some (id, milliseconds)
  | _ => none

/-- The monotonic reading an event is handled at; between readings the last one stands. -/
def Event.reading (now : Nat) : Event → Nat
  | .tick clock => clock.now
  | .request (.batch _ time) => time.now
  | _ => now

namespace Store

variable {rest : Nat} {s : Store} {key id : Bytes} {image : Image} {collection : Collection}

/-- The member that a write with a time to live leaves. -/
def written (s : Store) (key : Bytes) : Operation → Option Member
  | .put _ member (.after milliseconds) _ =>
    some { member with deadline := some (s.clock.unixMs + milliseconds) }
  | .expire id milliseconds =>
    ((s.collection? key).bind fun collection => collection.members.get? id).map
      fun member => { member with deadline := some (s.clock.unixMs + milliseconds) }
  | _ => none

/-- An operation that does not fail finds a live collection, or nothing. -/
theorem tryMemoryInner_cases (ok : ((tryMemoryInner key operation).run s).1 = .ok outcome) :
    (∃ image collection, s.image? key = some image ∧ image.value = .memory collection ∧
        image.expired s.clock.now = false ∧
        (tryMemoryInner key operation).run s = (memoryPresent key image collection operation).run s) ∨
      ∃ t, (tryMemoryInner key operation).run s = (memoryAbsent key operation).run t := by
  obtain ⟨proper, validated⟩ : (key.isEmpty || decide (256 < key.length)) = false ∧
      validateOperation operation = .ok () := by
    unfold tryMemoryInner at ok
    cases proper : (key.isEmpty || decide (256 < key.length)) with
    | true =>
      rw [proper] at ok
      cases ok
    | false =>
      cases validated : validateOperation operation with
      | error error =>
        rw [proper, validated] at ok
        cases ok
      | ok _ => exact ⟨rfl, rfl⟩
  rw [tryMemoryInner_eq proper validated] at ok ⊢
  have settled : Settled s key ((expireKey key s.clock.now).run s).2 :=
    expireKey_settled s.clock.now s rfl
  cases found : ((expireKey key s.clock.now).run s).2.image? key with
  | none => exact .inr ⟨_, rfl⟩
  | some image =>
    have before := image_settled settled found
    have fresh : image.expired s.clock.now = false := by
      rw [run_expireKey before] at found
      split_ifs at found with expired
      · rw [image?_removed, if_pos rfl] at found
        cases found
      · exact Bool.eq_false_iff.mpr expired
    have same : ((expireKey key s.clock.now).run s).2 = s := by
      rw [run_expireKey before, fresh]
      rfl
    rw [found, same] at ok
    rw [same]
    dsimp only at ok ⊢
    cases memory : image.value with
    | memory collection => exact .inl ⟨image, collection, before, memory, fresh, rfl⟩
    | _ =>
      rw [memory] at ok
      cases ok

/-- An edit that succeeds stores the edited collection under the deadlines it resolves. -/
theorem applyMemoryEdit_ok (found : s.image? key = some image) {edit : Edit}
    {mutation : MemoryMutation}
    (ok : ((applyMemoryEdit key collection edit).run s).1 = .ok mutation) :
    ∃ candidate deadlines, collection.applyEdits collection.descriptor [edit] key = .ok candidate ∧
      s.resolveMemberDeadlines key (.memory candidate) = .ok deadlines ∧
      ((applyMemoryEdit key collection edit).run s).2 =
        s.installEntry key (insertedImage (.memory candidate) image.expiry deadlines) := by
  rw [run_applyMemoryEdit, found] at ok ⊢
  split at ok
  · cases ok
  · split_ifs at ok with admitted
    split at ok
    · cases ok
    · rename_i candidate accepted _ deadlines resolved
      refine ⟨candidate, deadlines, accepted, resolved, ?_⟩
      rw [if_pos admitted]
      rfl

/-- The only edit of an upsert is to store its member. -/
theorem get?_upsert {candidate : Collection}
    (accepted : collection.applyEdits collection.descriptor [.upsert member] key = .ok candidate) :
    candidate.members.get? member.id = some member := by
  have applied := (Collection.applyEdits_ok accepted).2.2.2.2.2
  obtain ⟨next, head, last⟩ := bind_eq_ok applied
  have members : next.members = candidate.members :=
    congrArg Collection.Draft.members (Except.ok.inj last)
  obtain ⟨taken, _, puts⟩ := bind_eq_ok head
  simp only [Collection.Draft.put] at puts
  split at puts
  · cases puts
    rw [← members]
    exact OrdMap.get?_insert_self ..
  · cases puts

/-- A member deadline some milliseconds ahead, and the monotonic deadline it resolves to. -/
theorem memberDeadline_eq_ok {clock : Clock} (positive : 0 < milliseconds)
    (ok : memberDeadline clock milliseconds = .ok absolute) :
    absolute = clock.unixMs + milliseconds ∧
      clock.monotonic absolute = some (clock.now + milliseconds.toNat * nanosPerMilli) := by
  unfold memberDeadline at ok
  split at ok
  · rename_i monotonic found due
    split_ifs at ok
    cases ok
    obtain ⟨wall, first, due⟩ := Option.bind_eq_some_iff.mp due
    obtain ⟨duration, second, due⟩ := Option.bind_eq_some_iff.mp due
    obtain ⟨instant, third, due⟩ := Option.bind_eq_some_iff.mp due
    obtain ⟨rfl, rfl⟩ := Prod.mk.inj (Option.some.inj due)
    obtain rfl : clock.unixMs + milliseconds = wall := by
      unfold Machine.toI64 at first
      split_ifs at first
      exact Option.some.inj first
    have span : clock.unixMs + milliseconds - clock.unixMs = milliseconds := by omega
    refine ⟨rfl, ?_⟩
    unfold Clock.monotonic
    rw [if_neg (by omega), span, second, Option.bind_some, third]
    unfold Machine.toU64 at second
    split_ifs at second
    cases second
    unfold Clock.checkedAdd at third
    split_ifs at third
    exact third.symm
  · cases ok

section

variable (timed : operation.ttl = some (id, milliseconds))

include timed

/-- What a write with a time to live decides on a live collection. -/
theorem decideMember_ttl {decision : Decision} (positive : 0 < milliseconds)
    (found : s.image? key = some image) (memory : image.value = .memory collection)
    (decided : decideMember s.clock image collection operation id = .ok decision) :
    decision = .answer (.integer 0) ∨
      ∃ member absolute, decision = .edit (.upsert member) (.integer 1) ∧
        s.written key operation = some member ∧ member.id = id ∧ member.deadline = some absolute ∧
        memberDeadline s.clock milliseconds = .ok absolute := by
  have checked : (id.isEmpty || decide (256 < id.length)) = false := by
    cases proper : (id.isEmpty || decide (256 < id.length)) with
    | false => rfl
    | true =>
      unfold decideMember at decided
      rw [proper] at decided
      cases decided
  unfold decideMember at decided
  rw [checked] at decided
  cases operation with
  | put descriptor member ttl condition =>
    cases ttl with
    | after span =>
      obtain ⟨rfl, rfl⟩ := Prod.mk.inj (Option.some.inj timed)
      obtain ⟨_, _, decided⟩ := bind_eq_ok decided
      split_ifs at decided
      · exact .inl (Except.ok.inj decided).symm
      · obtain ⟨deadline, due, decided⟩ := bind_eq_ok decided
        unfold putDeadline at due
        dsimp only at due
        rw [if_neg (by omega)] at due
        cases resolved : memberDeadline s.clock span with
        | error error =>
          rw [resolved] at due
          cases due
        | ok absolute =>
          rw [resolved] at due
          cases due
          refine .inr ⟨_, absolute, (Except.ok.inj decided).symm, ?_, rfl, rfl, rfl⟩
          rw [(memberDeadline_eq_ok positive resolved).1]
          rfl
    | _ => cases timed
  | expire other span =>
    obtain ⟨rfl, rfl⟩ := Prod.mk.inj (Option.some.inj timed)
    change decideExpire s.clock (liveMember image collection s.clock.now other) span = _ at decided
    unfold decideExpire at decided
    split at decided
    · exact .inl (Except.ok.inj decided).symm
    · rename_i member live
      rw [if_neg (by omega)] at decided
      obtain ⟨absolute, due, decided⟩ := bind_eq_ok decided
      have stored := (liveMember_eq_some.mp live).2
      have own : member.id = other := collection.member_id_eq stored
      refine .inr ⟨_, absolute, (Except.ok.inj decided).symm, ?_, own, rfl, due⟩
      have held : s.collection? key = some collection := by
        unfold collection?
        rw [found, Option.bind_some, memory]
        rfl
      rw [(memberDeadline_eq_ok positive due).1]
      show Option.map _ ((s.collection? key).bind fun collection => collection.members.get? other) = _
      rw [held, Option.bind_some, stored]
      rfl
  | _ => cases timed

theorem memberId_of_ttl : operation.memberId = some id := by
  cases operation with
  | put descriptor member ttl condition =>
    cases ttl with
    | after span => rw [← (Prod.mk.inj (Option.some.inj timed)).1]; rfl
    | _ => cases timed
  | expire other span => rw [← (Prod.mk.inj (Option.some.inj timed)).1]; rfl
  | _ => cases timed

/-- A write that answers 1 has stored its member. -/
theorem memoryPresent_stored (positive : 0 < milliseconds) (found : s.image? key = some image)
    (memory : image.value = .memory collection)
    (ok : ((memoryPresent key image collection operation).run s).1 = .ok outcome)
    (answered : outcome.reply = .integer 1) :
    ∃ member mutation, s.written key operation = some member ∧ member.id = id ∧
      member.deadline = some (s.clock.unixMs + milliseconds) ∧
      s.clock.monotonic (s.clock.unixMs + milliseconds) =
        some (s.clock.now + milliseconds.toNat * nanosPerMilli) ∧
      ((applyMemoryEdit key collection (.upsert member)).run s).1 = .ok mutation ∧
      ((memoryPresent key image collection operation).run s).2 =
        ((applyMemoryEdit key collection (.upsert member)).run s).2 := by
  rw [run_memoryPresent (memberId_of_ttl timed)] at ok ⊢
  cases decided : decideMember s.clock image collection operation id with
  | error error =>
    rw [decided] at ok
    cases ok
  | ok decision =>
    rw [decided] at ok
    rcases decideMember_ttl timed positive found memory decided with
      rfl | ⟨member, absolute, rfl, left, own, due, ahead⟩
    · cases ok
      cases answered
    · obtain ⟨rfl, monotonic⟩ := memberDeadline_eq_ok positive ahead
      rw [run_bind] at ok ⊢
      cases edited : ((applyMemoryEdit key collection (.upsert member)).run s).1 with
      | error error =>
        rw [edited] at ok
        cases ok
      | ok mutation => exact ⟨member, mutation, left, own, due, monotonic, edited, rfl⟩

end

/-! ### The member in the store -/

/-- The member is stored at the key, under these deadlines of the key and of its own. -/
def Held (s : Store) (key id : Bytes) (member : Member) (keyDeadline : Option Nat) (deadline : Nat) :
    Prop :=
  ∃ image collection, s.image? key = some image ∧ image.value = .memory collection ∧
    collection.members.get? id = some member ∧ image.expiresAt = keyDeadline ∧
    image.memberDeadlines.get? id = some deadline

/-- What a write of a member for some milliseconds leaves in `t`: the member, under the deadline that it
retained or resolved. -/
def LeavesFor (s t : Store) (key id : Bytes) (operation : Operation) (milliseconds : Int) : Prop :=
  ∃ image member deadline, s.image? key = some image ∧ image.expired s.clock.now = false ∧
    s.written key operation = some member ∧ member.deadline = some (s.clock.unixMs + milliseconds) ∧
    s.clock.monotonic (s.clock.unixMs + milliseconds) =
      some (s.clock.now + milliseconds.toNat * nanosPerMilli) ∧
    resolvedDeadline s.clock (some image) id (s.clock.unixMs + milliseconds) = some deadline ∧
    Held t key id member image.expiresAt deadline

/-- **What an answered write leaves.** -/
theorem run_ttl (holds : Sound rest s) (timed : operation.ttl = some (id, milliseconds))
    (positive : 0 < milliseconds)
    (answered : ((memoryInner key operation).run s).1.reply = .integer 1) :
    LeavesFor s ((memoryInner key operation).run s).2 key id operation milliseconds := by
  have after : ((memoryInner key operation).run s).2 = ((tryMemoryInner key operation).run s).2 := by
    rw [memoryInner, run_bind]
    cases ((tryMemoryInner key operation).run s).1 <;> rfl
  rw [run_memoryInner] at answered
  cases ok : ((tryMemoryInner key operation).run s).1 with
  | error error =>
    rw [ok] at answered
    cases answered
  | ok outcome =>
    rw [ok] at answered
    rcases tryMemoryInner_cases ok with ⟨image, collection, found, memory, fresh, same⟩ | ⟨t, same⟩
    · rw [same] at ok
      rw [after, same]
      obtain ⟨member, mutation, left, rfl, due, ahead, edited, state⟩ :=
        memoryPresent_stored timed positive found memory ok answered
      obtain ⟨candidate, deadlines, accepted, resolved, install⟩ := applyMemoryEdit_ok found edited
      have stored := get?_upsert accepted
      obtain ⟨entry, at_, rfl⟩ := image?_eq_some.mp found
      obtain ⟨equal, present⟩ := get?_resolveMemberDeadlines resolved member.id
      rw [memberDeadline?_memory, stored, Option.bind_some, due] at equal present
      obtain ⟨deadline, hit⟩ := Option.isSome_iff_exists.mp present
      rw [hit, found] at equal
      refine ⟨entry.toImage, member, deadline, found, fresh, left, due, ahead, equal.symm, ?_⟩
      rw [state, install]
      refine ⟨insertedImage (.memory candidate) entry.expiry deadlines, candidate, ?_, rfl, stored,
        (holds.good key entry at_).expiry_eq.1, hit⟩
      rw [image?_installEntry, if_pos rfl]
    · -- Without a collection a put fails and an expiry answers 0.
      rw [same] at ok
      cases operation with
      | put descriptor member ttl condition => cases ok
      | expire other span =>
        cases ok
        cases answered
      | _ => cases timed

/-! ### Reading the member -/

/-- The earlier of a deadline and the key's own. -/
def capped (keyDeadline : Option Nat) (deadline : Nat) : Nat :=
  keyDeadline.elim deadline (min deadline)

theorem lt_capped {keyDeadline : Option Nat} :
    now < capped keyDeadline deadline ↔ keyDeadline.any (· ≤ now) = false ∧ now < deadline := by
  cases keyDeadline with
  | none => simp [capped]
  | some limit =>
    simp only [capped, Option.elim_some, Option.any_some, decide_eq_false_iff_not]
    omega

section Reads

variable {keyDeadline : Option Nat}

/-- **`MEM.GET` returns the member until the earlier of the two deadlines.** -/
theorem Held.get (held : s.Held key id member keyDeadline deadline) (holds : Sound rest s) :
    ((memoryInner key (.get id)).run s).1.reply =
      if s.clock.now < capped keyDeadline deadline then memberReply member else .bulk none := by
  obtain ⟨image, collection, found, memory, stored, rfl, due⟩ := held
  rw [reply_read holds found memory (collection.bounded_id (OrdMap.mem_iff.mpr ⟨_, stored⟩)) .get]
  have expired : memberExpired image s.clock.now id = decide (deadline ≤ s.clock.now) := by
    unfold memberExpired
    rw [due]
    rfl
  unfold liveMember
  rw [expired, stored]
  simp only [lt_capped]
  unfold Image.expired
  by_cases late : deadline ≤ s.clock.now
  · simp [late]
  · cases image.expiresAt.any (· ≤ s.clock.now) <;> simp [late]

/-- `MEM.PTTL` of a live member. -/
theorem Held.pttl (held : s.Held key id member keyDeadline deadline) (holds : Sound rest s)
    (live : s.clock.now < capped keyDeadline deadline) :
    ((memoryInner key (.pttl id)).run s).1.reply =
      .integer (remaining (capped keyDeadline deadline) s.clock.now true) := by
  obtain ⟨image, collection, found, memory, stored, rfl, due⟩ := held
  obtain ⟨fresh, early⟩ := lt_capped.mp live
  have visible : liveMember image collection s.clock.now id = some member := by
    refine liveMember_eq_some.mpr ⟨?_, stored⟩
    unfold memberExpired
    rw [due, Option.any_some, decide_eq_false_iff_not]
    omega
  rw [reply_read holds found memory (collection.bounded_id (OrdMap.mem_iff.mpr ⟨_, stored⟩)) .pttl]
  rw [show image.expired s.clock.now = false from fresh, visible]
  show memberRemaining image s.clock.now member = _
  unfold memberRemaining capped
  rw [collection.member_id_eq stored, due]
  cases image.expiresAt with
  | none => rfl
  | some limit =>
    show Reply.integer (remaining (min limit deadline) s.clock.now true) = _
    rw [Nat.min_comm]
    rfl

/-- `MEM.GET` returns a member only if it is stored. -/
theorem get_member (holds : Sound rest s) (proper : bounded id 1 256 = .ok ())
    (answered : ((memoryInner key (.get id)).run s).1.reply = memberReply member) :
    ∃ image collection, s.image? key = some image ∧ image.value = .memory collection ∧
      id ∈ collection.members := by
  rw [run_memoryInner] at answered
  cases ok : ((tryMemoryInner key (.get id)).run s).1 with
  | error error =>
    rw [ok] at answered
    cases answered
  | ok outcome =>
    rw [ok] at answered
    rcases tryMemoryInner_cases ok with ⟨image, collection, found, memory, fresh, same⟩ | ⟨t, same⟩
    · refine ⟨image, collection, found, memory, ?_⟩
      obtain ⟨resolved, read⟩ := run_read holds found memory proper .get
      rw [same, read] at ok
      cases ok
      cases live : liveMember image collection s.clock.now id with
      | none =>
        rw [live] at answered
        cases answered
      | some other => exact OrdMap.mem_iff.mpr ⟨other, (liveMember_eq_some.mp live).2⟩
    · rw [same] at ok
      cases ok
      cases answered

end Reads

/-! ### Until the member is read -/

/-- The member at a key and the key's deadline. -/
def stored (s : Store) (key id : Bytes) : Option (Member × Option Nat) :=
  (s.image? key).bind fun image =>
    (image.value.asMemory.bind fun collection => collection.members.get? id).map
      fun member => (member, image.expiresAt)

/-- The key or the member is past its deadline. -/
def Lapsed (s : Store) (key id : Bytes) (now : Nat) : Prop :=
  ∃ image, s.image? key = some image ∧ (image.expired now || memberExpired image now id) = true

/-- What can happen to a store, from one monotonic reading to another, without the member being
rewritten or deleted: the member and the key's deadline stay, unless the store drops them past a
deadline. -/
inductive Undisturbed (key id : Bytes) (start : Nat) (s : Store) : Nat → Store → Prop
  | refl : Undisturbed key id start s start s
  | step {now : Nat} {t : Store} (event : Event) (before : Undisturbed key id start s now t)
      (later : now ≤ event.reading now)
      (kept : (t.perform event).stored key id = t.stored key id ∨
        (t.perform event).stored key id = none ∧ t.Lapsed key id (event.reading now)) :
      Undisturbed key id start s (event.reading now) (t.perform event)

section Undisturbed

variable {keyDeadline : Option Nat}

theorem stored_eq_some : s.stored key id = some (member, keyDeadline) ↔
    ∃ image collection, s.image? key = some image ∧ image.value = .memory collection ∧
      collection.members.get? id = some member ∧ image.expiresAt = keyDeadline := by
  unfold stored
  constructor
  · intro held
    obtain ⟨image, found, held⟩ := Option.bind_eq_some_iff.mp held
    obtain ⟨own, inside, same⟩ := Option.map_eq_some_iff.mp held
    obtain ⟨collection, memory, inside⟩ := Option.bind_eq_some_iff.mp inside
    cases same
    exact ⟨image, collection, found, asMemory_eq memory, inside, rfl⟩
  · rintro ⟨image, collection, found, memory, inside, rfl⟩
    rw [found, Option.bind_some, memory]
    show ((collection.members.get? id).map _) = _
    rw [inside]
    rfl

section

variable (held : s.Held key id member keyDeadline deadline)

include held

theorem Held.stored : s.stored key id = some (member, keyDeadline) := by
  obtain ⟨image, collection, found, memory, inside, same, _⟩ := held
  exact stored_eq_some.mpr ⟨image, collection, found, memory, inside, same⟩

theorem Held.congr (same : t.image? key = s.image? key) :
    t.Held key id member keyDeadline deadline := by
  obtain ⟨image, collection, found, others⟩ := held
  exact ⟨image, collection, same.trans found, others⟩

/-- A member that stays, stays under the same monotonic deadline. -/
theorem Held.kept (due : member.deadline = some absolute) (keeps : KeepsDeadlines s t)
    (stays : t.stored key id = some (member, keyDeadline)) :
    t.Held key id member keyDeadline deadline := by
  obtain ⟨image, collection, found, memory, inside, _, at_⟩ := held
  obtain ⟨after, later, found', memory', inside', same'⟩ := stored_eq_some.mp stays
  refine ⟨after, later, found', memory', inside', same', ?_⟩
  rw [keeps key image after found found' id absolute, at_]
  · rw [memory, memberDeadline?_memory, inside]
    exact due
  · rw [memory', memberDeadline?_memory, inside']
    exact due

theorem Held.lapsed (lapsed : s.Lapsed key id now) : capped keyDeadline deadline ≤ now := by
  obtain ⟨image, collection, found, memory, inside, rfl, at_⟩ := held
  obtain ⟨other, found', late⟩ := lapsed
  cases found.symm.trans found'
  rw [← not_lt, lt_capped]
  rintro ⟨fresh, early⟩
  unfold Image.expired memberExpired at late
  rw [fresh, at_] at late
  simp only [Bool.false_or, Option.any_some, decide_eq_true_eq] at late
  omega

end

/-- **The member through everything that leaves it alone**: it is there under its deadlines, or one
of them has passed. -/
theorem Undisturbed.held (undisturbed : Undisturbed key id start s now t) (valid : s.Valid)
    (written : s.Held key id member keyDeadline deadline) (due : member.deadline = some absolute) :
    t.Valid ∧ (t.Held key id member keyDeadline deadline ∨
      t.stored key id = none ∧ capped keyDeadline deadline ≤ now) := by
  induction undisturbed with
  | refl => exact ⟨valid, .inl written⟩
  | @step now t event before later kept ih =>
    obtain ⟨sound, status⟩ := ih
    refine ⟨perform_valid sound event, ?_⟩
    rcases status with held | ⟨gone, past⟩
    · rcases kept with same | ⟨gone, lapsed⟩
      · exact .inl (held.kept due (perform_keepsDeadlines sound.sound event)
          (same.trans held.stored))
      · exact .inr ⟨gone, held.lapsed lapsed⟩
    · refine .inr ⟨?_, past.trans later⟩
      rcases kept with same | ⟨gone', _⟩
      · exact same.trans gone
      · exact gone'

/-- Reading the member after everything that leaves it alone. -/
theorem Undisturbed.get_iff {reading : Clock} (undisturbed : Undisturbed key id start s now t)
    (valid : s.Valid) (written : s.Held key id member keyDeadline deadline)
    (due : member.deadline = some absolute) (later : now ≤ reading.now) :
    ((memoryInner key (.get id)).run (t.atClock reading)).1.reply = memberReply member ↔
      reading.now < capped keyDeadline deadline := by
  obtain ⟨sound, status⟩ := undisturbed.held valid written due
  have holds := sound.sound.atClock reading
  rcases status with held | ⟨gone, past⟩
  · have held : (t.atClock reading).Held key id member keyDeadline deadline := held
    rw [held.get holds]
    split_ifs with early
    · exact iff_of_true rfl early
    · exact iff_of_false nofun early
  · refine iff_of_false (fun answered => ?_) (by omega)
    obtain ⟨_, collection, _, _, inside, _⟩ := written
    have proper := collection.bounded_id (OrdMap.mem_iff.mpr ⟨_, inside⟩)
    obtain ⟨image, left, found, memory, member'⟩ := get_member holds proper answered
    obtain ⟨other, hit⟩ := OrdMap.mem_iff.mp member'
    have there := stored_eq_some.mpr ⟨image, left, found, memory, hit, rfl⟩
    exact absurd (gone.symm.trans there) nofun

end Undisturbed

/-! ### The effect of a write -/

/-- The key's own deadline. -/
def keyDeadline (s : Store) (key : Bytes) : Option Nat :=
  (s.image? key).bind Image.expiresAt

/-- The write took effect: at the same readings the member is read as it was written and lasts for
the smaller of the time to live and the key's remaining time, and as long as it is neither rewritten
nor deleted it is read until exactly that much monotonic time has passed. -/
structure TakesEffect (s after : Store) (key id : Bytes) (milliseconds : Int) (member : Member) :
    Prop where
  shown : ((memoryInner key (.get id)).run after).1.reply = memberReply member
  remaining : ((memoryInner key (.pttl id)).run after).1.reply =
    .integer ((s.keyDeadline key).elim milliseconds
      fun limit => min milliseconds (Sider.remaining limit s.clock.now true))
  lasts : ∀ now t reading, Undisturbed key id s.clock.now after now t → now ≤ reading.now →
    (((memoryInner key (.get id)).run (t.atClock reading)).1.reply = memberReply member ↔
      reading.now <
        capped (s.keyDeadline key) (s.clock.now + milliseconds.toNat * nanosPerMilli))

/-- No older member under the same id, with the same absolute deadline, has another monotonic one,
unless both are past the key's own deadline. -/
def Unskewed (s : Store) (key id : Bytes) (milliseconds : Int) : Prop :=
  ∀ image collection member deadline, s.image? key = some image → image.value = .memory collection →
    collection.members.get? id = some member →
    member.deadline = some (s.clock.unixMs + milliseconds) →
    image.memberDeadlines.get? id = some deadline →
    capped image.expiresAt deadline =
      capped image.expiresAt (s.clock.now + milliseconds.toNat * nanosPerMilli)

theorem remaining_eq (deadline now : Nat) :
    remaining deadline now true =
      min (((deadline - now) / nanosPerMilli : Nat) : Int) Machine.i64Max := by
  simp only [remaining, if_true]

/-- The remaining time up to the earlier deadline, in milliseconds. -/
theorem remaining_capped {limit : Option Nat} (positive : 0 < milliseconds)
    (small : milliseconds ≤ Machine.i64Max) :
    remaining (capped limit (now + milliseconds.toNat * nanosPerMilli)) now true =
      limit.elim milliseconds fun limit => min milliseconds (remaining limit now true) := by
  have span : (now + milliseconds.toNat * nanosPerMilli - now) / nanosPerMilli = milliseconds.toNat := by
    rw [Nat.add_sub_cancel_left]
    exact Nat.mul_div_cancel _ (by decide)
  cases limit with
  | none =>
    rw [capped, Option.elim_none, Option.elim_none, remaining_eq, span]
    omega
  | some limit =>
    rw [capped, Option.elim_some, Option.elim_some, remaining_eq, remaining_eq]
    rcases le_total (now + milliseconds.toNat * nanosPerMilli) limit with early | late
    · have sooner := Nat.div_le_div_right (c := nanosPerMilli) (Nat.sub_le_sub_right early now)
      rw [min_eq_left early, span]
      omega
    · have later := Nat.div_le_div_right (c := nanosPerMilli) (Nat.sub_le_sub_right late now)
      rw [min_eq_right late]
      omega

/-- The write takes effect when the deadline it left ends the member when it should. -/
theorem takesEffect_iff {after : Store} (valid : after.Valid) (same : after.clock = s.clock)
    (positive : 0 < milliseconds) (small : milliseconds ≤ Machine.i64Max)
    (live : (s.keyDeadline key).any (· ≤ s.clock.now) = false)
    (left : after.Held key id member (s.keyDeadline key) deadline)
    (due : member.deadline = some (s.clock.unixMs + milliseconds)) :
    s.TakesEffect after key id milliseconds member ↔
      capped (s.keyDeadline key) deadline =
        capped (s.keyDeadline key) (s.clock.now + milliseconds.toNat * nanosPerMilli) := by
  have span : 0 < milliseconds.toNat * nanosPerMilli := Nat.mul_pos (by omega) (by decide)
  have ahead : s.clock.now <
      capped (s.keyDeadline key) (s.clock.now + milliseconds.toNat * nanosPerMilli) :=
    lt_capped.mpr ⟨live, by omega⟩
  have reads : ∀ now t (reading : Clock), Undisturbed key id s.clock.now after now t →
      now ≤ reading.now → (((memoryInner key (.get id)).run (t.atClock reading)).1.reply =
        memberReply member ↔ reading.now < capped (s.keyDeadline key) deadline) :=
    fun _ _ _ undisturbed later => undisturbed.get_iff valid left due later
  constructor
  · intro effect
    -- A reading between the two ends, or at the earlier one, tells them apart.
    have agree : ∀ now, s.clock.now ≤ now → (now < capped (s.keyDeadline key) deadline ↔
        now < capped (s.keyDeadline key) (s.clock.now + milliseconds.toNat * nanosPerMilli)) :=
      fun now later => (reads _ _ ⟨now, 0, 0⟩ .refl later).symm.trans
        (effect.lasts s.clock.now after ⟨now, 0, 0⟩ .refl later)
    have first := agree (max s.clock.now (capped (s.keyDeadline key) deadline)) (le_max_left ..)
    have second := agree
      (capped (s.keyDeadline key) (s.clock.now + milliseconds.toNat * nanosPerMilli)) ahead.le
    omega
  · intro equal
    refine ⟨?_, ?_, fun now t reading undisturbed later => ?_⟩
    · rw [left.get valid.sound, same, equal, if_pos ahead]
    · rw [left.pttl valid.sound (by rw [same, equal]; exact ahead), same, equal,
        remaining_capped positive small]
    · rw [reads now t reading undisturbed later, equal]

/-- The deadline that a write retains or resolves is the one it should have when no older member is
in the way. -/
theorem unskewed_iff (holds : Sound rest s) (found : s.image? key = some image)
    (ahead : s.clock.monotonic (s.clock.unixMs + milliseconds) =
      some (s.clock.now + milliseconds.toNat * nanosPerMilli))
    (resolved : resolvedDeadline s.clock (some image) id (s.clock.unixMs + milliseconds) =
      some deadline) :
    s.Unskewed key id milliseconds ↔
      capped image.expiresAt deadline =
        capped image.expiresAt (s.clock.now + milliseconds.toNat * nanosPerMilli) := by
  obtain ⟨entry, at_, rfl⟩ := image?_eq_some.mp found
  have good := holds.good key entry at_
  constructor
  · intro unskewed
    cases retained : retainedDeadline (some entry.toImage) id (s.clock.unixMs + milliseconds) with
    | none =>
      rw [resolvedDeadline, retained, Option.none_or, ahead] at resolved
      rw [Option.some.inj resolved]
    | some old =>
      rw [resolvedDeadline, retained] at resolved
      obtain rfl := Option.some.inj resolved
      simp only [retainedDeadline, Option.bind_some] at retained
      split at retained
      · rename_i member stored
        split_ifs at retained with same
        obtain ⟨collection, memory, inside⟩ := Option.bind_eq_some_iff.mp stored
        exact unskewed _ collection member old found (asMemory_eq memory) inside same retained
      · cases retained
  · rintro equal image collection member old found' memory inside same due
    cases found.symm.trans found'
    have kept : entry.value.memberDeadline? id = some (s.clock.unixMs + milliseconds) := by
      rw [memory, memberDeadline?_memory, inside]
      exact same
    have retained := (resolvedDeadline_kept found good kept).1
    rw [found, resolved, due] at retained
    cases retained
    exact equal

theorem clock_memory (s : Store) (key : Bytes) (operation : Operation) (recordLimit : Nat) :
    (s.perform (.request (.memory key operation recordLimit))).clock = s.clock :=
  clock_apply ..

/-- What an answered request leaves in the store. -/
theorem perform_ttl (valid : s.Valid) {recordLimit : Nat}
    (timed : operation.ttl = some (id, milliseconds)) (positive : 0 < milliseconds)
    (answered : (s.prepareMemoryWithLimit key operation recordLimit).prepared.reply = .integer 1) :
    s.LeavesFor (s.perform (.request (.memory key operation recordLimit))) key id operation
      milliseconds := by
  have holds := valid.sound
  have copied := copied_memoryShadow s key
  have own : key ∈ [key] := List.mem_singleton.mpr rfl
  have shadow : (s.memoryShadow key).image? key = s.image? key := by rw [copied.image?, if_pos own]
  have sameWrite : (s.memoryShadow key).written key operation = s.written key operation := by
    have collections : (s.memoryShadow key).collection? key = s.collection? key := by
      unfold collection?
      rw [shadow]
    unfold written
    rw [collections, copied.clock]
  have request : s.perform (.request (.memory key operation recordLimit)) =
      s.apply (s.prepareMemoryWithLimit key operation recordLimit).prepared := rfl
  rw [request]
  rw [prepareMemoryWithLimit_eq] at answered ⊢
  by_cases fits : ((s.memoryResolved key operation).all
      (memoryFits recordLimit key ((s.memoryRun key operation).2.image? key))) = true
  · rw [if_pos fits] at answered ⊢
    have images := ((memory_overlay holds key operation
      (if operation.writesDataset then .client else .expiration)).apply holds).2 key
    rw [if_pos own] at images
    have ran := run_ttl (copied.tentative (List.nodup_singleton key) holds).sound timed positive
      (show ((memoryInner key operation).run (s.memoryShadow key)).1.reply = _ from answered)
    rw [LeavesFor, shadow, copied.clock, sameWrite] at ran
    obtain ⟨image, member, deadline, found, fresh, left, due, ahead, resolved, held⟩ := ran
    exact ⟨image, member, deadline, found, fresh, left, due, ahead, resolved, held.congr images⟩
  · -- A record over the limit is refused, and answers with an error.
    rw [if_neg fits] at answered
    cases answered

/-- **The time to live of a member takes effect exactly when no older member skews it**, in every
reachable store and at every pair of readings. The source counts milliseconds in an `i64`. -/
theorem ttl_takesEffect {config : StoreConfig} {clock reading : Clock} {registry : Nat}
    {events : List Event} {operation : Operation} {milliseconds : Int} {recordLimit : Nat}
    (reached : s = ((withConfig config clock registry).run events).atClock reading)
    (timed : operation.ttl = some (id, milliseconds)) (positive : 0 < milliseconds)
    (small : milliseconds ≤ Machine.i64Max)
    (answered : (s.prepareMemoryWithLimit key operation recordLimit).prepared.reply = .integer 1) :
    (∃ member, s.written key operation = some member ∧
      s.TakesEffect (s.perform (.request (.memory key operation recordLimit))) key id milliseconds
        member) ↔ s.Unskewed key id milliseconds := by
  have valid : s.Valid := by
    rw [reached]
    exact (run_valid (valid_withConfig config clock registry) events).atClock reading
  obtain ⟨image, member, deadline, found, fresh, left, due, ahead, resolved, held⟩ :=
    perform_ttl valid timed positive answered
  have limit : s.keyDeadline key = image.expiresAt := by
    unfold keyDeadline
    rw [found, Option.bind_some]
  have effect := takesEffect_iff (perform_valid valid (.request (.memory key operation recordLimit)))
    (clock_memory s key operation recordLimit) positive small (limit ▸ fresh) (limit ▸ held) due
  rw [limit] at effect
  rw [unskewed_iff valid.sound found ahead resolved, ← effect]
  constructor
  · rintro ⟨other, again, taken⟩
    cases left.symm.trans again
    exact taken
  · exact fun taken => ⟨member, left, taken⟩

/-- Writing the note again, for 10 ms more. -/
def renote : Operation :=
  .put ⟨1, [112], [109], [114], [116]⟩ (note none) (.after 10) .always

theorem eq_integer {reply : Reply} {value : Int}
    (shape : (match reply with | .integer found => some found | _ => none) = some value) :
    reply = .integer value := by
  cases reply with
  | integer found => exact congrArg Reply.integer (Option.some.inj shape)
  | _ => cases shape

/-- The note is written again 1 ms later, by both clocks. -/
theorem ttl_takesEffect_renoted :
    let s := noted.atClock ⟨1000000, 1, 1000000000⟩
    (s.prepareMemoryWithLimit [109] renote maxRecordBytes).prepared.reply = .integer 1 ∧
      ∃ member, s.written [109] renote = some member ∧
        s.TakesEffect (s.perform (.request (.memory [109] renote maxRecordBytes))) [109] [105] 10
          member := by
  intro s
  have answered : (s.prepareMemoryWithLimit [109] renote maxRecordBytes).prepared.reply =
      .integer 1 := eq_integer (by decide +kernel)
  have reached : s = ((withConfig ⟨2048, by decide, by decide⟩ ⟨0, 0, 1000000000⟩ 0).run
      noteEvents).atClock ⟨1000000, 1, 1000000000⟩ := rfl
  refine ⟨answered, (ttl_takesEffect reached rfl (by decide) (by decide) answered).mpr ?_⟩
  intro image collection member deadline found memory inside due _
  obtain ⟨_, _, same, held, _, _, only⟩ := noted_image
  cases same.symm.trans found
  obtain rfl := Value.memory.inj (held.symm.trans memory)
  cases only.symm.trans inside
  exact absurd due (by decide)

/-- The note is written again when its 10 ms are over, after the wall clock was set back by as much:
the reply is 1, and the note cannot be read. -/
theorem renoted_unreadable :
    let s := noted.atClock ⟨10000000, 0, 1000000000⟩
    (s.prepareMemoryWithLimit [109] renote maxRecordBytes).prepared.reply = .integer 1 ∧
      ((memoryInner [109] (.get [105])).run
        (s.perform (.request (.memory [109] renote maxRecordBytes)))).1.reply = .bulk none := by
  intro s
  have answered : (s.prepareMemoryWithLimit [109] renote maxRecordBytes).prepared.reply =
      .integer 1 := eq_integer (by decide +kernel)
  have valid : s.Valid := noted_valid _
  refine ⟨answered, ?_⟩
  obtain ⟨image, member, deadline, found, _, _, _, _, resolved, held⟩ :=
    perform_ttl valid (show renote.ttl = some ([105], 10) from rfl) (by decide) answered
  -- The elapsed note lends its deadline.
  obtain ⟨note, collection, same, memory, lasting, due, inside⟩ := noted_image
  obtain rfl := Option.some.inj (same.symm.trans found)
  have retained : retainedDeadline (some note) [105] (s.clock.unixMs + 10) = some 10000000 := by
    simp only [retainedDeadline, Option.bind_some]
    rw [memory, show (Value.memory collection).asMemory = some collection from rfl, Option.bind_some,
      inside]
    exact due
  rw [resolvedDeadline, retained] at resolved
  cases resolved
  rw [held.get (perform_valid valid _).sound, lasting, clock_memory]
  exact if_neg (Nat.lt_irrefl 10000000)

/-! ### Deadlines that are carried over -/

/-- **Deadlines are carried over.** Whatever happens to a store, at any readings of its clock: in an
image it leaves, exactly the members with an absolute deadline have a monotonic one, and a member whose
absolute deadline is that of the image before keeps its monotonic one. -/
theorem perform_carriesOver (holds : s.Valid) (event : Event) {new : Image}
    (left : (s.perform event).image? key = some new) :
    (∀ id, (new.memberDeadlines.get? id).isSome = (new.value.memberDeadline? id).isSome) ∧
      ∀ old id, s.image? key = some old →
        new.value.memberDeadline? id = old.value.memberDeadline? id →
        new.memberDeadlines.get? id = old.memberDeadlines.get? id := by
  obtain ⟨entry, stored, rfl⟩ := image?_eq_some.mp left
  have good := (perform_valid holds event).sound.good key entry stored
  refine ⟨good.members, fun old id found same => ?_⟩
  cases due : old.value.memberDeadline? id with
  | some absolute =>
    exact perform_keepsDeadlines holds.sound event key old _ found left id absolute due (same.trans due)
  | none =>
    -- Without an absolute deadline there is a monotonic one in neither image.
    obtain ⟨before, held, rfl⟩ := image?_eq_some.mp found
    have was := (holds.sound.good key before held).members id
    have now := good.members id
    rw [same, due] at now
    rw [due] at was
    rw [Option.not_isSome_iff_eq_none.mp (Bool.eq_false_iff.mp was),
      Option.not_isSome_iff_eq_none.mp (Bool.eq_false_iff.mp now)]

/-- EXPIRE of the collection 1 ms later keeps the deadline of the note. -/
theorem perform_carriesOver_expire :
    let s := noted.atClock ⟨1000000, 7, 1000000000⟩
    ∃ new, (s.perform (.request (.command (.expire [109] 500 .milliseconds)))).image? [109] =
        some new ∧
      new.expiresAt = some 501000000 ∧ new.memberDeadlines.get? [105] = some 10000000 := by
  intro s
  obtain ⟨old, collection, found, memory, _, due, inside⟩ := noted_image
  have stored : ((s.perform (.request (.command (.expire [109] 500 .milliseconds)))).image? [109]).map
      (fun image => (image.expiresAt, image.value.memberDeadline? [105])) =
      some (some 501000000, some 10) := by decide +kernel
  obtain ⟨new, left, same⟩ := Option.map_eq_some_iff.mp stored
  obtain ⟨expires, absolute⟩ := Prod.mk.inj same
  refine ⟨new, left, expires, ?_⟩
  rw [(perform_carriesOver (noted_valid _) _ left).2 old [105] found ?_, due]
  rw [absolute, memory, memberDeadline?_memory, inside]
  rfl

end Store

end Sider
