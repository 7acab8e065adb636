/-
**Which members of a collection reads and searches see.**

`searchCandidates` are the members a search ranks, and `memorySearch_candidates` says that the hits of
an answered search are the best `k` of them. `reply_read` gives the answer of the two member reads in
closed form. Reads follow the monotonic clock alone while a search also consults the wall clock, so the
two agree on a member exactly when the wall clock does not hide one that the monotonic clock still
shows (`visibility_agrees`).
-/

import Sider.Storage.Search
import Sider.Storage.MemoryEffect

namespace Sider

open StateProgram StoreM

variable {operation : Operation} {shown : Member → Reply} {now : Nat} {absent : Reply}

namespace Store

variable {rest : Nat} {s : Store} {key id : Bytes} {image : Image} {collection : Collection}

/-! ### Removing one member -/

/-- The member that a read finds elapsed can be removed. -/
theorem applyMemoryEdit_remove (holds : Sound rest s) (found : s.image? key = some image)
    (memory : image.value = .memory collection) (present : id ∈ collection.members) :
    ∃ mutation, ((applyMemoryEdit key collection (.remove id)).run s).1 = .ok mutation := by
  obtain ⟨entry, stored, rfl⟩ := image?_eq_some.mp found
  have good := holds.good key entry stored
  obtain ⟨candidate, without⟩ := Collection.exists_without (List.pairwise_singleton _ id)
    (show 1 ≤ maxEdits by decide) (fun probe own => List.mem_singleton.mp own ▸ present)
    (good.quotas collection memory)
  have smaller : entrySize key (.memory candidate) ≤ s.held key := by
    rw [held_of_some stored, memory]
    have bytes := without.smaller
    unfold entrySize
    simp only [Value.size]
    omega
  have quota := holds.quota
  have admitted : s.canReplace key (.memory candidate) = true :=
    canReplace_of_fits holds rfl (by omega)
  -- A member that stays keeps the deadline it was stored with.
  obtain ⟨deadlines, resolved⟩ := resolveMemberDeadlines_ok s key (.memory candidate)
    fun probe absolute due => by
      rw [memberDeadline?_memory, without.members, OrdMap.get?_foldl_erase] at due
      have kept : entry.value.memberDeadline? probe = some absolute := by
        rw [memory, memberDeadline?_memory]
        split_ifs at due
        · cases due
        · exact due
      obtain ⟨same, present⟩ := resolvedDeadline_kept found good kept
      rw [same]
      exact present
  have accepted : collection.applyEdits collection.descriptor [.remove id] key = .ok candidate :=
    without.accepted
  rw [run_applyMemoryEdit, accepted]
  dsimp only
  rw [if_pos admitted, resolved]
  exact ⟨_, rfl⟩

/-! ### Operations on a key that holds a collection -/

theorem proper_of_bounded {text : Bytes} (ok : bounded text 1 256 = .ok ()) :
    (text.isEmpty || decide (256 < text.length)) = false := by
  unfold bounded at ok
  split_ifs at ok with bound
  rw [Bool.or_eq_false_iff, decide_eq_false_iff_not, not_lt]
  refine ⟨?_, bound.2⟩
  rw [Bool.eq_false_iff]
  intro empty
  rw [List.isEmpty_iff.mp empty] at bound
  exact absurd bound.1 (by decide)

theorem run_expireKey (found : s.image? key = some image) :
    ((expireKey key now).run s).2 = if image.expired now then s.removed key else s := by
  show ((if (s.image? key).any (Image.expired · now) then do
    let _ ← remove key
    pure () else pure () : StoreM Unit).run s).2 = _
  rw [found, Option.any_some]
  split_ifs <;> rfl

/-- A checked operation looks at the key once its deadline has been honoured. -/
theorem tryMemoryInner_eq (proper : (key.isEmpty || decide (256 < key.length)) = false)
    (validated : validateOperation operation = .ok ()) :
    (tryMemoryInner key operation).run s =
      (match ((expireKey key s.clock.now).run s).2.image? key with
        | none => memoryAbsent key operation
        | some image =>
          match image.value with
          | .memory collection => memoryPresent key image collection operation
          | _ => pure (.error .wrongType) : StoreM _).run ((expireKey key s.clock.now).run s).2 := by
  unfold tryMemoryInner
  rw [proper, validated]
  rfl

/-- An operation sees the collection while the key is live, and nothing once it has elapsed. -/
theorem run_tryMemoryInner (holds : Sound rest s) (found : s.image? key = some image)
    (memory : image.value = .memory collection) (validated : validateOperation operation = .ok ()) :
    (tryMemoryInner key operation).run s =
      if image.expired s.clock.now then (memoryAbsent key operation).run (s.removed key)
      else (memoryPresent key image collection operation).run s := by
  obtain ⟨entry, stored, rfl⟩ := image?_eq_some.mp found
  obtain ⟨bound, _⟩ := Collection.checkQuota_eq_ok.mp
    ((holds.good key entry stored).quotas collection memory)
  rw [tryMemoryInner_eq (proper_of_bounded bound) validated, run_expireKey found]
  split_ifs with expired
  · have gone : (s.removed key).image? key = none := by rw [image?_removed, if_pos rfl]
    rw [gone]
  · rw [found]
    dsimp only
    rw [memory]

theorem run_memoryInner (s : Store) (key : Bytes) (operation : Operation) :
    ((memoryInner key operation).run s).1 =
      match ((tryMemoryInner key operation).run s).1 with
      | .ok outcome => outcome
      | .error error => { reply := .error error } := by
  show ((match ((tryMemoryInner key operation).run s).1 with
    | .ok outcome => pure outcome
    | .error error => pure { reply := .error error } : StoreM MemoryOutcome).run _).1 = _
  cases ((tryMemoryInner key operation).run s).1 <;> rfl

/-! ### Member reads -/

/-- A member read: its operation, what it shows of a live member, and its answer without one. -/
inductive Reads (image : Image) (now : Nat) (id : Bytes) :
    Operation → (Member → Reply) → Reply → Prop
  | get : Reads image now id (.get id) memberReply (.bulk none)
  | pttl : Reads image now id (.pttl id) (memberRemaining image now) (.integer (-2))

/-- A member with an elapsed deadline is still stored. -/
theorem mem_of_memberExpired (holds : Sound rest s) (found : s.image? key = some image)
    (memory : image.value = .memory collection) (expired : memberExpired image now id = true) :
    id ∈ collection.members := by
  obtain ⟨entry, stored, rfl⟩ := image?_eq_some.mp found
  obtain ⟨deadline, due, _⟩ := (Option.any_eq_true _ _).mp expired
  have present := (holds.good key entry stored).members id
  rw [due, memory, memberDeadline?_memory] at present
  obtain ⟨absolute, hit⟩ := Option.isSome_iff_exists.mp present.symm
  obtain ⟨member, member_at, _⟩ := Option.bind_eq_some_iff.mp hit
  exact OrdMap.mem_iff.mpr ⟨member, member_at⟩

/-- An operation on a member answers at once or makes the edit it decides on. -/
theorem run_memoryPresent (named : operation.memberId = some id) :
    (memoryPresent key image collection operation).run s =
      (match decideMember s.clock image collection operation id with
        | .error error => pure (.error error)
        | .ok (.answer reply) => pure (.ok { reply := reply })
        | .ok (.edit edit reply) => do
          match ← applyMemoryEdit key collection edit with
          | .error error => pure (.error error)
          | .ok mutation => pure (.ok { reply := reply, resolved := some mutation }) :
        StoreM (Except ExecutionError MemoryOutcome)).run s := by
  have own : operation.memberId.getD [] = id := by rw [named, Option.getD_some]
  have read : StoreM.clock.run s = (s.clock, s) := rfl
  unfold memoryPresent
  rw [run_bind, read]
  -- The decision is made abstract, so that no check has to evaluate it.
  cases operation with
  | create | info | search => cases named
  | _ =>
    dsimp only
    rewrite [own]
    generalize decideMember s.clock image collection _ _ = decision
    cases decision with
    | error error => rfl
    | ok decision => cases decision <;> rfl

section

variable (holds : Sound rest s) (found : s.image? key = some image)
  (memory : image.value = .memory collection) (proper : bounded id 1 256 = .ok ())
  (reads : Reads image s.clock.now id operation shown absent)

include holds found memory proper reads

/-- What a member read does to the collection it finds. -/
theorem run_read :
    ∃ resolved, ((memoryPresent key image collection operation).run s).1 =
      .ok { reply := ((liveMember image collection s.clock.now id).map shown).getD absent,
            resolved := resolved } := by
  have decides : decideMember s.clock image collection operation id =
      .ok (decideRead (liveMember image collection s.clock.now id)
        (memberExpired image s.clock.now id) id shown absent) := by
    cases reads <;>
      exact if_neg (by rw [proper_of_bounded proper]; exact Bool.false_ne_true)
  have named : operation.memberId = some id := by cases reads <;> rfl
  rw [run_memoryPresent named, decides]
  unfold decideRead liveMember
  by_cases expired : memberExpired image s.clock.now id = true
  · obtain ⟨mutation, removed⟩ := applyMemoryEdit_remove holds found memory
      (mem_of_memberExpired holds found memory expired)
    refine ⟨some mutation, ?_⟩
    rw [if_pos expired]
    rw [if_pos expired]
    show ((match ((applyMemoryEdit key collection (.remove id)).run s).1 with
      | .error error => pure (.error error)
      | .ok mutation => pure (.ok { reply := absent, resolved := some mutation }) :
        StoreM (Except ExecutionError MemoryOutcome)).run _).1 = _
    rw [removed]
    rfl
  · refine ⟨none, ?_⟩
    rw [if_neg expired]
    cases collection.members.get? id with
    | none =>
      rw [if_neg expired]
      rfl
    | some member => rfl

/-- **The answer of a member read**: what it shows of the live member of a live key. -/
theorem reply_read :
    ((memoryInner key operation).run s).1.reply =
      if image.expired s.clock.now then absent
      else ((liveMember image collection s.clock.now id).map shown).getD absent := by
  have validated : validateOperation operation = .ok () := by cases reads <;> rfl
  have missing : ∀ t, ((memoryAbsent key operation).run t).1 = .ok { reply := absent } := fun t => by
    cases reads <;> rfl
  rw [run_memoryInner, run_tryMemoryInner holds found memory validated]
  split_ifs with expired
  · rw [missing]
  · obtain ⟨resolved, ok⟩ := run_read holds found memory proper reads
    rw [ok]

end

/-! ### What a search ranks -/

/-- The members a search of a key ranks. -/
def searchCandidates (s : Store) (key nameSpace : Bytes) (metadata : OrdMap Bytes Scalar) :
    List Member :=
  match s.image? key with
  | none => []
  | some image =>
    if image.expired s.clock.now then []
    else
      match image.value with
      | .memory collection => collection.members.values.filter
          (Collection.searchable s.clock.unixMs (memberVisible image s.clock.now) nameSpace metadata)
      | _ => []

theorem searchCandidates_eq (found : s.image? key = some image)
    (memory : image.value = .memory collection) (nameSpace : Bytes) (metadata : OrdMap Bytes Scalar) :
    s.searchCandidates key nameSpace metadata =
      if image.expired s.clock.now then []
      else collection.members.values.filter
        (Collection.searchable s.clock.unixMs (memberVisible image s.clock.now) nameSpace metadata) := by
  unfold searchCandidates
  rw [found]
  dsimp only
  rw [memory]

/-- **An answered search returns the best `k` of its candidates.** -/
theorem memorySearch_candidates (holds : Sound rest s) (found : s.image? key = some image)
    (memory : image.value = .memory collection) {descriptor : Descriptor} {vector nameSpace : Bytes}
    {k : Nat} {metadata : OrdMap Bytes Scalar}
    (answered : ((memoryInner key (.search descriptor vector k nameSpace metadata)).run
      s).1.searchStats.isSome) :
    ((memoryInner key (.search descriptor vector k nameSpace metadata)).run s).1.reply =
      .array ((Collection.hitsOf ((Collection.byDistance
        (fun member => Collection.distance vector member.vector)
        (s.searchCandidates key nameSpace metadata)).take k)).map hitReply) := by
  rw [run_memoryInner] at answered ⊢
  cases validated : validateOperation (.search descriptor vector k nameSpace metadata) with
  | error error =>
    have refused : ((tryMemoryInner key (.search descriptor vector k nameSpace metadata)).run s).1 =
        .error error ∨ ((tryMemoryInner key (.search descriptor vector k nameSpace metadata)).run
          s).1 = .error memoryLimit := by
      unfold tryMemoryInner
      split_ifs
      · exact .inr rfl
      · rw [validated]
        exact .inl rfl
    rcases refused with refused | refused <;> rw [refused] at answered <;> cases answered
  | ok _ =>
    rw [run_tryMemoryInner holds found memory validated] at answered ⊢
    rw [searchCandidates_eq found memory]
    split_ifs at answered ⊢ with expired
    · show _ = Reply.array ((Collection.hitsOf (List.take k [])).map hitReply)
      rw [List.take_nil]
      rfl
    · have search : ((memoryPresent key image collection
          (.search descriptor vector k nameSpace metadata)).run s).1 =
          memorySearch s.clock image collection descriptor vector k nameSpace metadata := rfl
      rw [search] at answered ⊢
      unfold memorySearch at answered ⊢
      cases identity : checkIdentity descriptor collection.descriptor with
      | error error =>
        rw [identity] at answered
        cases answered
      | ok _ =>
        by_cases limits : Collection.SearchLimits collection vector k nameSpace metadata
        · obtain ⟨stats, ranked, _⟩ := Collection.searchBy_eq_ok limits
            (fun member => Collection.distance vector member.vector) s.clock.unixMs
            (memberVisible image s.clock.now)
          rw [Collection.searchWithVisibilityStats, ranked]
          rfl
        · obtain ⟨error, ranked⟩ := Collection.searchBy_error limits
            (fun member => Collection.distance vector member.vector) s.clock.unixMs
            (memberVisible image s.clock.now)
          rw [identity, Collection.searchWithVisibilityStats, ranked] at answered
          cases error <;> cases answered

/-! ### Agreement -/

/-- A search of the member's own namespace, without a metadata filter, ranks the member. -/
def Eligible (s : Store) (key id : Bytes) : Prop :=
  ∃ member ∈ s.searchCandidates key member.nameSpace ∅, member.id = id

/-- `MEM.GET` returns the stored member. -/
def Gets (s : Store) (key id : Bytes) : Prop :=
  ∃ member, ((s.collection? key).bind fun collection => collection.members.get? id) = some member ∧
    ((memoryInner key (.get id)).run s).1.reply = memberReply member

/-- `MEM.PTTL` does not report the member as missing. -/
def Lasts (s : Store) (key id : Bytes) : Prop :=
  ((memoryInner key (.pttl id)).run s).1.reply ≠ .integer (-2)

/-- The wall clock does not hide a member that the monotonic clock still shows. -/
def WallClockShows (s : Store) (key id : Bytes) : Prop :=
  ∀ image collection member, s.image? key = some image → image.value = .memory collection →
    collection.members.get? id = some member → image.expired s.clock.now = false →
    memberExpired image s.clock.now id = false → member.deadline.all (s.clock.unixMs < ·) = true

theorem memberRemaining_ne (image : Image) (now : Nat) (member : Member) :
    memberRemaining image now member ≠ .integer (-2) := by
  unfold memberRemaining
  split
  · rename_i deadline _
    intro same
    have value := Reply.integer.inj same
    unfold remaining at value
    simp only [if_true] at value
    have low := le_min (Int.natCast_nonneg ((deadline - now) / nanosPerMilli))
      (show (0 : Int) ≤ Machine.i64Max by decide)
    rw [value] at low
    exact absurd low (by decide)
  · exact nofun

theorem liveMember_eq_some {member : Member} :
    liveMember image collection now id = some member ↔
      memberExpired image now id = false ∧ collection.members.get? id = some member := by
  unfold liveMember
  cases memberExpired image now id <;> simp

section

variable (holds : Sound rest s) (found : s.image? key = some image)
  (memory : image.value = .memory collection) (proper : bounded id 1 256 = .ok ())

include holds found memory proper

/-- A read that finds a member shows a live member of a live key. -/
theorem gets_iff :
    s.Gets key id ↔ image.expired s.clock.now = false ∧
      ∃ member, liveMember image collection s.clock.now id = some member := by
  have stored : s.collection? key = some collection := by
    unfold collection?
    rw [found, Option.bind_some, memory]
    rfl
  unfold Gets
  rw [stored, reply_read holds found memory proper .get]
  constructor
  · rintro ⟨member, _, reply⟩
    split_ifs at reply with expired
    · cases reply
    · refine ⟨Bool.eq_false_iff.mpr expired, ?_⟩
      cases live : liveMember image collection s.clock.now id with
      | none =>
        rw [live] at reply
        cases reply
      | some other => exact ⟨other, rfl⟩
  · rintro ⟨expired, member, live⟩
    refine ⟨member, (liveMember_eq_some.mp live).2, ?_⟩
    rw [expired, live]
    rfl

theorem lasts_iff :
    s.Lasts key id ↔ image.expired s.clock.now = false ∧
      ∃ member, liveMember image collection s.clock.now id = some member := by
  unfold Lasts
  rw [reply_read holds found memory proper .pttl]
  cases image.expired s.clock.now with
  | true => simp
  | false =>
    cases liveMember image collection s.clock.now id with
    | none => simp
    | some member => simpa using memberRemaining_ne image s.clock.now member

end

theorem eligible_iff (found : s.image? key = some image)
    (memory : image.value = .memory collection) :
    s.Eligible key id ↔ image.expired s.clock.now = false ∧
      ∃ member, liveMember image collection s.clock.now id = some member ∧
        member.deadline.all (s.clock.unixMs < ·) = true := by
  have searched : ∀ member : Member, Collection.searchable s.clock.unixMs
      (memberVisible image s.clock.now) member.nameSpace ∅ member = true ↔
      member.deadline.all (s.clock.unixMs < ·) = true ∧
        memberExpired image s.clock.now member.id = false := by
    intro member
    have unfiltered : ((∅ : OrdMap Bytes Scalar).entries.all fun entry =>
        member.metadata.get? entry.1 = some entry.2) = true := rfl
    unfold Collection.searchable memberVisible memberExpired
    rw [unfiltered]
    cases member.deadline <;> cases image.memberDeadlines.get? member.id <;> simp
  constructor
  · rintro ⟨member, candidate, rfl⟩
    rw [searchCandidates_eq found memory] at candidate
    split_ifs at candidate with expired
    · cases candidate
    · obtain ⟨inside, passes⟩ := List.mem_filter.mp candidate
      obtain ⟨shown, live⟩ := (searched member).mp passes
      obtain ⟨⟨own, _⟩, entry, rfl⟩ := List.mem_map.mp inside
      have stored := OrdMap.get?_eq_some_iff.mpr entry
      obtain rfl := collection.member_id_eq stored
      exact ⟨Bool.eq_false_iff.mpr expired, _, liveMember_eq_some.mpr ⟨live, stored⟩, shown⟩
  · rintro ⟨expired, member, live, shown⟩
    obtain ⟨fresh, stored⟩ := liveMember_eq_some.mp live
    obtain rfl := collection.member_id_eq stored
    refine ⟨member, ?_, rfl⟩
    rw [searchCandidates_eq found memory, expired]
    refine List.mem_filter.mpr ⟨?_, (searched member).mpr ⟨shown, fresh⟩⟩
    exact List.mem_map.mpr ⟨_, OrdMap.get?_eq_some_iff.mp stored, rfl⟩

/-- **Searches and reads agree on a member exactly while the wall clock shows what the monotonic
clock shows**, in every reachable store and at every pair of readings. -/
theorem visibility_agrees {config : StoreConfig} {clock reading : Clock} {registry : Nat}
    {events : List Event} (reached : s = ((withConfig config clock registry).run events).atClock reading)
    (holding : s.collection? key = some collection) (proper : bounded id 1 256 = .ok ()) :
    ((s.Eligible key id ↔ s.Gets key id) ∧ (s.Gets key id ↔ s.Lasts key id)) ↔
      s.WallClockShows key id := by
  have holds : Sound 0 s := by
    rw [reached]
    exact ((run_valid (valid_withConfig config clock registry) events).atClock reading).sound
  obtain ⟨image, found, memory⟩ := Option.bind_eq_some_iff.mp holding
  have memory := asMemory_eq memory
  rw [gets_iff holds found memory proper, lasts_iff holds found memory proper,
    eligible_iff found memory]
  constructor
  · rintro ⟨agree, _⟩ other stored member at_ held inside fresh unexpired
    cases found.symm.trans at_
    obtain rfl := Value.memory.inj (memory.symm.trans held)
    have live := liveMember_eq_some.mpr ⟨unexpired, inside⟩
    obtain ⟨_, same, both, shown⟩ := agree.mpr ⟨fresh, member, live⟩
    cases live.symm.trans both
    exact shown
  · intro shows
    refine ⟨⟨fun ⟨fresh, member, live, _⟩ => ⟨fresh, member, live⟩, ?_⟩, Iff.rfl⟩
    rintro ⟨fresh, member, live⟩
    obtain ⟨unexpired, inside⟩ := liveMember_eq_some.mp live
    exact ⟨fresh, member, live, shows image collection member found memory inside fresh unexpired⟩

/-- A note kept for 10 ms, in a collection of dimension 1. -/
def note (deadline : Option Int) : Member :=
  ⟨[105], [], [], [0, 0, 0, 0], deadline, ∅, ∅⟩

def noteEvents : List Event :=
  let schema : Descriptor := ⟨1, [112], [109], [114], [116]⟩
  [.request (.memory [109] (.create schema) maxRecordBytes),
    .request (.memory [109] (.put schema (note none) (.after 10) .always) maxRecordBytes)]

/-- A collection with one note written at the epoch, in a store of 2 KiB. -/
def noted : Store :=
  (withConfig ⟨2048, by decide, by decide⟩ ⟨0, 0, 1000000000⟩ 0).run noteEvents

theorem image?_atClock (s : Store) (reading : Clock) (key : Bytes) :
    (s.atClock reading).image? key = s.image? key := rfl

theorem noted_valid (reading : Clock) : (noted.atClock reading).Valid :=
  (run_valid (valid_withConfig ..) _).atClock reading

theorem noted_image : ∃ image collection, noted.image? [109] = some image ∧
    image.value = .memory collection ∧ image.expiresAt = none ∧
    image.memberDeadlines.get? [105] = some 10000000 ∧
    collection.members.get? [105] = some (note (some 10)) := by
  have stored : (noted.image? [109]).map (fun image => (image.expiresAt,
      image.memberDeadlines.get? [105],
      image.value.asMemory.map fun collection => collection.members.get? [105])) =
      some (none, some 10000000, some (some (note (some 10)))) := by decide
  obtain ⟨image, found, same⟩ := Option.map_eq_some_iff.mp stored
  obtain ⟨lasting, rest⟩ := Prod.mk.inj same
  obtain ⟨due, members⟩ := Prod.mk.inj rest
  obtain ⟨collection, memory, member⟩ := Option.map_eq_some_iff.mp members
  exact ⟨image, collection, found, asMemory_eq memory, lasting, due, member⟩

/-- A search of the collection ranks the note. -/
theorem memorySearch_candidates_note :
    let search := (memoryInner [109]
      (.search ⟨1, [112], [109], [114], [116]⟩ [0, 0, 0, 0] 1 [] ∅)).run noted
    search.1.searchStats.isSome ∧
      search.1.reply = .array ((Collection.hitsOf ((Collection.byDistance
        (fun member => Collection.distance [0, 0, 0, 0] member.vector)
        (noted.searchCandidates [109] [] ∅)).take 1)).map hitReply) := by
  intro search
  obtain ⟨image, collection, found, memory, _⟩ := noted_image
  have answered : search.1.searchStats.isSome := by decide +kernel
  exact ⟨answered, memorySearch_candidates (noted_valid noted.clock).sound found memory answered⟩

/-- The readings are taken 1 ms later by both clocks. -/
theorem visibility_agrees_coherent :
    ((noted.atClock ⟨1000000, 1, 1000000000⟩).collection? [109]).isSome ∧
      bounded [105] 1 256 = .ok () ∧
      (((noted.atClock ⟨1000000, 1, 1000000000⟩).Eligible [109] [105] ↔
          (noted.atClock ⟨1000000, 1, 1000000000⟩).Gets [109] [105]) ∧
        ((noted.atClock ⟨1000000, 1, 1000000000⟩).Gets [109] [105] ↔
          (noted.atClock ⟨1000000, 1, 1000000000⟩).Lasts [109] [105])) := by
  have stored : ((noted.atClock ⟨1000000, 1, 1000000000⟩).collection? [109]).isSome := by decide
  obtain ⟨collection, holding⟩ := Option.isSome_iff_exists.mp stored
  have reached : noted.atClock ⟨1000000, 1, 1000000000⟩ =
      ((withConfig ⟨2048, by decide, by decide⟩ ⟨0, 0, 1000000000⟩ 0).run noteEvents).atClock
        ⟨1000000, 1, 1000000000⟩ := rfl
  refine ⟨stored, rfl, (visibility_agrees reached holding rfl).mpr ?_⟩
  intro image other member found memory inside _ _
  obtain ⟨_, _, same, held, _, _, only⟩ := noted_image
  cases same.symm.trans found
  obtain rfl := Value.memory.inj (held.symm.trans memory)
  cases only.symm.trans inside
  decide

/-- The wall clock was set 20 ms ahead while the monotonic clock stood still: the note is read and
lasts, no search of its namespace ranks it, and MEM.SEARCH answers without hits. -/
theorem search_misses_readable_member :
    ¬ (noted.atClock ⟨0, 20, 1000000000⟩).Eligible [109] [105] ∧
      ((memoryInner [109] (.search ⟨1, [112], [109], [114], [116]⟩ [0, 0, 0, 0] 1 [] ∅)).run
        (noted.atClock ⟨0, 20, 1000000000⟩)).1.reply = .array [] ∧
      (noted.atClock ⟨0, 20, 1000000000⟩).Gets [109] [105] ∧
      (noted.atClock ⟨0, 20, 1000000000⟩).Lasts [109] [105] := by
  obtain ⟨image, collection, found, memory, lasting, due, inside⟩ := noted_image
  have holds := (noted_valid ⟨0, 20, 1000000000⟩).sound
  have at_ : (noted.atClock ⟨0, 20, 1000000000⟩).image? [109] = some image := by
    rw [image?_atClock, found]
  have fresh : image.expired 0 = false := by rw [Image.expired, lasting]; rfl
  have live : liveMember image collection 0 [105] = some (note (some 10)) :=
    liveMember_eq_some.mpr ⟨by rw [memberExpired, due]; decide, inside⟩
  refine ⟨?_, rfl, (gets_iff holds at_ memory rfl).mpr ⟨fresh, _, live⟩,
    (lasts_iff holds at_ memory rfl).mpr ⟨fresh, _, live⟩⟩
  rw [eligible_iff at_ memory]
  rintro ⟨_, member, same, shown⟩
  cases live.symm.trans same
  exact absurd shown (by decide)

end Store

end Sider
