/-
**Memory operations of the owning store.**

`tryMemoryInner` runs one native operation on a shadow; `prepareMemoryWithLimit` turns the run into
a candidate with its record-2 mutation (`resolved`), refused when the record or a later snapshot of
the key would not fit. Generic commands and cleanup rounds are turned into guarded deltas by
`resolvedMemoryMutations`, and `prepareMemoryReplay` reads a logged batch back.
-/

import Sider.Persistence.Format

namespace Sider

open StoreM

def memoryError (error : MemoryError) : ExecutionError :=
  .memory (match error with
    | .dimension => "ERR memory vector length mismatch"
    | .nonFinite => "ERR memory vector contains non-finite value"
    | .deadline => "ERR invalid memory ttl"
    | .identity => "ERR memory model identity mismatch"
    | _ => "ERR memory limit exceeded")

def memoryLimit : ExecutionError := .memory "ERR memory limit exceeded"

/-- Lift a collection error to an execution error. -/
def orMemoryError {α : Type} : Except MemoryError α → Except ExecutionError α
  | .ok value => .ok value
  | .error error => .error (memoryError error)

/-! ### Replies -/

def descriptorReply (d : Descriptor) : Reply :=
  .array [.integer 1, .integer d.dimension, bulk (Bytes.ascii "L2SQ"), bulk d.provider,
    bulk d.model, bulk d.revision, bulk d.transform]

def scalarReply : Scalar → List Reply
  | .bytes value => [bulk (Bytes.ascii "BYTES"), bulk value]
  | .integer value => [bulk (Bytes.ascii "I64"), bulk (Bytes.decimal value)]
  | .bool value => [bulk (Bytes.ascii "BOOL"), bulk (Bytes.ascii (if value then "1" else "0"))]

def memberReply (m : Member) : Reply :=
  .array [bulk m.nameSpace, bulk m.content, bulk m.vector, .integer (m.deadline.getD (-1)),
    .array (m.metadata.entries.map fun entry => .array (bulk entry.1 :: scalarReply entry.2)),
    .array (m.provenance.entries.map fun entry => .array [bulk entry.1, bulk entry.2])]

def hitReply (hit : Bytes × Float64.F64) : Reply :=
  .array [bulk hit.1, bulk (Bytes.toLittleEndian 8 hit.2.bits.toNat)]

/-! ### One operation -/

/-- Reply of an operation, its resolved mutation if it edits, and the work of a search. -/
structure MemoryOutcome where
  reply : Reply
  resolved : Option MemoryMutation := none
  searchStats : Option Collection.SearchStats := none

/-- The checks made before the key is read. -/
def validateOperation : Operation → Except ExecutionError Unit
  | .create descriptor => orMemoryError descriptor.validate
  | .put descriptor member _ _ => orMemoryError (member.validate descriptor)
  | .search descriptor vector k nameSpace metadata => do
    orMemoryError descriptor.validate
    rejectWhen (vector.length ≠ descriptor.dimension * 4)
      (.memory "ERR memory vector length mismatch")
    rejectWhen (nonFiniteVector vector) (.memory "ERR memory vector contains non-finite value")
    rejectWhen (!(1 ≤ k && k ≤ maxSearchK)) (.memory "ERR memory k is out of range")
    rejectWhen (256 < nameSpace.length || 32 < metadata.size) memoryLimit
    metadata.entries.forM fun entry =>
      rejectWhen (entry.1.isEmpty || 64 < entry.1.length
        || (match entry.2 with | .bytes value => 4096 < value.length | _ => false)) memoryLimit
  | _ => .ok ()

/-- The model identity of a request matches the collection. -/
def checkIdentity (requested stored : Descriptor) : Except ExecutionError Unit := do
  rejectWhen (requested.provider ≠ stored.provider || requested.model ≠ stored.model
    || requested.revision ≠ stored.revision || requested.transform ≠ stored.transform)
    (.memory "ERR memory model identity mismatch")
  rejectWhen (requested.dimension ≠ stored.dimension) (.memory "ERR memory vector length mismatch")

/-- A member that no monotonic deadline hides. -/
def memberVisible (image : Image) (now : Nat) (m : Member) : Bool :=
  (image.memberDeadlines.get? m.id).all (now < ·)

def memorySearch (clock : Clock) (image : Image) (collection : Collection) (descriptor : Descriptor)
    (vector : Bytes) (k : Nat) (nameSpace : Bytes) (metadata : OrdMap Bytes Scalar) :
    Except ExecutionError MemoryOutcome := do
  checkIdentity descriptor collection.descriptor
  match collection.searchWithVisibilityStats vector k nameSpace metadata clock.unixMs
      (memberVisible image clock.now) with
  | .error .quota => .error (.memory "ERR memory search work limit exceeded")
  | .error error => .error (memoryError error)
  | .ok (hits, stats) =>
    .ok { reply := .array (hits.map hitReply), searchStats := some stats }

/-- What a member operation does: answer, or edit the collection and then answer. -/
inductive Decision where
  | answer (reply : Reply)
  | edit (edit : Edit) (reply : Reply)

/-- An absolute member deadline some milliseconds from now. -/
def memberDeadline (clock : Clock) (milliseconds : Int) : Except ExecutionError Int :=
  match clock.deadline milliseconds clock.now with
  | some (_, absolute) =>
    if 0 < absolute then .ok absolute else .error (.memory "ERR invalid memory ttl")
  | none => .error (.memory "ERR invalid memory ttl")

/-- The retained member is past its monotonic deadline. -/
def memberExpired (image : Image) (now : Nat) (id : Bytes) : Bool :=
  (image.memberDeadlines.get? id).any (· ≤ now)

def liveMember (image : Image) (collection : Collection) (now : Nat) (id : Bytes) : Option Member :=
  if memberExpired image now id then none else collection.members.get? id

def putDeadline (clock : Clock) (live : Option Member) : Ttl → Except ExecutionError (Option Int)
  | .persistent => .ok none
  | .keep => .ok (live.bind Member.deadline)
  | .after milliseconds =>
    if milliseconds ≤ 0 then .error (.memory "ERR invalid memory ttl")
    else (memberDeadline clock milliseconds).map some

def decidePut (clock : Clock) (collection : Collection) (live : Option Member)
    (descriptor : Descriptor) (member : Member) (ttl : Ttl) (condition : SetCondition) :
    Except ExecutionError Decision := do
  checkIdentity descriptor collection.descriptor
  if (condition = .missing && live.isSome) || (condition = .present && live.isNone) then
    .ok (.answer (.integer 0))
  else
    let deadline ← putDeadline clock live ttl
    .ok (.edit (.upsert { member with deadline := deadline }) (.integer 1))

/-- Reads of a member; a member found expired is removed behind the answer. -/
def decideRead (live : Option Member) (expired : Bool) (id : Bytes) (found : Member → Reply)
    (absent : Reply) : Decision :=
  match live with
  | some member => .answer (found member)
  | none => if expired then .edit (.remove id) absent else .answer absent

/-- Remaining time of a live member: the earlier of the key's and its own deadline. -/
def memberRemaining (image : Image) (now : Nat) (m : Member) : Reply :=
  match (image.expiresAt.toList ++ (image.memberDeadlines.get? m.id).toList).min? with
  | some deadline => .integer (remaining deadline now true)
  | none => .integer (-1)

def decideExpire (clock : Clock) (live : Option Member) (milliseconds : Int) :
    Except ExecutionError Decision :=
  match live with
  | none => .ok (.answer (.integer 0))
  | some member =>
    if milliseconds ≤ 0 then .ok (.edit (.remove member.id) (.integer 1))
    else do
      let absolute ← memberDeadline clock milliseconds
      .ok (.edit (.upsert { member with deadline := some absolute }) (.integer 1))

def decidePersist (live : Option Member) : Decision :=
  match live with
  | none => .answer (.integer 0)
  | some member =>
    if member.deadline.isNone then .answer (.integer 0)
    else .edit (.upsert { member with deadline := none }) (.integer 1)

/-- The member an operation addresses. -/
def Operation.memberId : Operation → Option Bytes
  | .put _ member _ _ => some member.id
  | .get id | .delete id | .pttl id | .expire id _ | .persist id => some id
  | .create _ | .info | .search .. => none

def decideMember (clock : Clock) (image : Image) (collection : Collection) (operation : Operation)
    (id : Bytes) : Except ExecutionError Decision :=
  let expired := memberExpired image clock.now id
  let live := liveMember image collection clock.now id
  if id.isEmpty || 256 < id.length then .error memoryLimit
  else
    match operation with
    | .put descriptor member ttl condition =>
      decidePut clock collection live descriptor member ttl condition
    | .get _ => .ok (decideRead live expired id memberReply (.bulk none))
    | .pttl _ =>
      .ok (decideRead live expired id (memberRemaining image clock.now) (.integer (-2)))
    | .delete _ =>
      .ok (if live.isNone then .answer (.integer 0) else .edit (.remove id) (.integer 1))
    | .expire _ milliseconds => decideExpire clock live milliseconds
    | .persist _ => .ok (decidePersist live)
    | .create _ | .info | .search .. => .ok (.answer (.integer 0))

/-- Apply one edit to the stored collection, within quota, keeping the key's expiry. -/
def applyMemoryEdit (key : Bytes) (collection : Collection) (edit : Edit) :
    StoreM (Except ExecutionError MemoryMutation) := do
  match collection.applyEdits collection.descriptor [edit] key with
  | .error error => pure (.error (memoryError error))
  | .ok candidate =>
    if ← canReplace key (.memory candidate) then
      match ← resolveMemberDeadlines key (.memory candidate) with
      | .error error => pure (.error (memoryError error))
      | .ok _ =>
        let entry ← lookup key
        let expiry := entry.bind Image.expiry
        insert key (.memory candidate) expiry
        pure (.ok (.delta key collection.descriptor [edit] (expiry.map Prod.snd)))
    else pure (.error .outOfMemory)

/-- Operations on a key that holds nothing. -/
def memoryAbsent (key : Bytes) (operation : Operation) :
    StoreM (Except ExecutionError MemoryOutcome) :=
  match operation with
  | .create descriptor =>
    match Collection.new descriptor with
    | .error error => pure (.error (memoryError error))
    | .ok collection =>
      match collection.validateKey key with
      | .error error => pure (.error (memoryError error))
      | .ok () => do
        if ← canReplace key (.memory collection) then
          insert key (.memory collection) none
          pure (.ok { reply := .ok, resolved := some (.image key collection none) })
        else pure (.error .outOfMemory)
  | .put .. => pure (.error (.memory "ERR memory collection does not exist"))
  | .info | .get _ => pure (.ok { reply := .bulk none })
  | .search .. => pure (.ok { reply := .array [], searchStats := some ⟨0, 0⟩ })
  | .pttl _ => pure (.ok { reply := .integer (-2) })
  | .delete _ | .expire .. | .persist _ => pure (.ok { reply := .integer 0 })

/-- Operations on a key that holds a collection. -/
def memoryPresent (key : Bytes) (image : Image) (collection : Collection) (operation : Operation) :
    StoreM (Except ExecutionError MemoryOutcome) := do
  let clock ← clock
  match operation with
  | .create descriptor =>
    if collection.descriptor = descriptor then pure (.ok { reply := .ok })
    else pure (.error (.memory "ERR memory schema mismatch"))
  | .info => pure (.ok { reply := descriptorReply collection.descriptor })
  | .search descriptor vector k nameSpace metadata =>
    pure (memorySearch clock image collection descriptor vector k nameSpace metadata)
  | operation =>
    match decideMember clock image collection operation (operation.memberId.getD []) with
    | .error error => pure (.error error)
    | .ok (.answer reply) => pure (.ok { reply := reply })
    | .ok (.edit edit reply) =>
      match ← applyMemoryEdit key collection edit with
      | .error error => pure (.error error)
      | .ok mutation => pure (.ok { reply := reply, resolved := some mutation })

def tryMemoryInner (key : Bytes) (operation : Operation) :
    StoreM (Except ExecutionError MemoryOutcome) := do
  if key.isEmpty || 256 < key.length then pure (.error memoryLimit)
  else
    match validateOperation operation with
    | .error error => pure (.error error)
    | .ok () =>
      expireKey key (← clock).now
      let entry ← lookup key
      match entry with
      | none => memoryAbsent key operation
      | some image =>
        match image.value with
        | .memory collection => memoryPresent key image collection operation
        | _ => pure (.error .wrongType)

def memoryInner (key : Bytes) (operation : Operation) : StoreM MemoryOutcome := do
  match ← tryMemoryInner key operation with
  | .ok outcome => pure outcome
  | .error error => pure { reply := .error error }

/-! ### Preparation -/

/-- A candidate and its resolved mutation. -/
structure PreparedMemory where
  prepared : Prepared
  resolved : Option MemoryMutation
  searchStats : Option Collection.SearchStats

namespace Store

/-- The shadow of one key, member events included. -/
def memoryShadow (s : Store) (key : Bytes) : Store :=
  s.copyMembers (s.copyEntry (s.blank s.clock) key) key

/-- Whether a payload size passes both the configured and the fixed record limit. -/
def fitsRecord (recordLimit size : Nat) : Bool :=
  size ≤ recordLimit && size ≤ maxRecordBytes

/-- The incremental batch and the complete snapshot of the key both fit in a record. -/
def memoryFits (recordLimit : Nat) (key : Bytes) (after : Option Image) (mutation : MemoryMutation) :
    Bool :=
  let batch := mutation.encodedBytes.toOption.bind (Machine.checkedAdd · 14)
  let snapshot := (after.bind fun image => image.value.asMemory).map fun collection =>
    15 + key.length + collection.encodedBytes
  batch.any (fitsRecord recordLimit) && snapshot.all (fitsRecord recordLimit)

def prepareMemoryWithLimit (s : Store) (key : Bytes) (operation : Operation) (recordLimit : Nat) :
    PreparedMemory :=
  let origin := if operation.writesDataset then .client else .expiration
  let run := (memoryInner key operation).run (s.memoryShadow key)
  let after := run.2
  let entries := s.changes after [key]
  let resolved := run.1.resolved.or
    (if entries.isEmpty then none else some (.legacy (.delete key)))
  if resolved.all (memoryFits recordLimit key (after.image? key)) then
    ⟨s.prepared run.1.reply entries origin after.fault, resolved, run.1.searchStats⟩
  else ⟨s.prepared (.error .aofRecordLimit) [] origin after.fault, none, none⟩

def prepareMemory (s : Store) (key : Bytes) (operation : Operation) : PreparedMemory :=
  s.prepareMemoryWithLimit key operation maxRecordBytes

/-! ### Record-2 mutations and replay -/

/-- The edits that turn one image into another with the same descriptor. -/
def memberEdits (before after : Collection) : List Edit :=
  let removes := before.members.keys.filterMap fun id =>
    if id ∈ after.members then none else some (id, Edit.remove id)
  let upserts := after.members.entries.filterMap fun (id, member) =>
    if before.members.get? id = some member then none else some (id, Edit.upsert member)
  (OrdMap.ofList (removes ++ upserts)).values

/-- A guarded delta when the key held a collection of the same schema, a complete image otherwise. -/
def resolveMutation (s : Store) (mutation : Mutation) : MemoryMutation :=
  match mutation, (s.image? mutation.key).bind fun image => image.value.asMemory with
  | .put key (.memory after) expiresAtUnixMs, some before =>
    if before.descriptor = after.descriptor then
      .delta key after.descriptor (memberEdits before after) expiresAtUnixMs
    else .fromStorage mutation
  | mutation, _ => .fromStorage mutation

/-- The record-2 form of a prepared batch, computed before it is applied. -/
def resolvedMemoryMutations (s : Store) (p : Prepared) : List MemoryMutation :=
  p.batch.mutations.map s.resolveMutation

/-- Check the guard of a record-2 mutation and give the image it stands for. -/
def memoryReplayImage (s : Store) : MemoryMutation → Except ReplayError Mutation
  | .legacy mutation => .ok mutation
  | .image key collection keyDeadline =>
    match collection.validateKey key with
    | .error error => .error (.memory error)
    | .ok () => .ok (.put key (.memory collection) keyDeadline)
  | .delta key descriptor edits keyDeadline =>
    match (s.image? key).bind fun image => image.value.asMemory with
    | none => .error (.memory .identity)
    | some collection =>
      match collection.applyEdits descriptor edits key with
      | .error error => .error (.memory error)
      | .ok candidate => .ok (.put key (.memory candidate) keyDeadline)

def collectImage (s : Store) (state : OrdSet Bytes × List Mutation) (mutation : MemoryMutation) :
    Except ReplayError (OrdSet Bytes × List Mutation) :=
  if mutation.key ∈ state.1 then .error .duplicateKey
  else do
    let image ← s.memoryReplayImage mutation
    .ok (state.1.add mutation.key, state.2 ++ [image])

def prepareMemoryReplay (s : Store) (mutations : List MemoryMutation) (origin : MutationOrigin) :
    Except ReplayError Prepared := do
  let (_, images) ← mutations.foldlM s.collectImage (∅, [])
  s.prepareReplay images origin

def replayMemory (s : Store) (mutations : List MemoryMutation) : Except ReplayError Store := do
  let p ← s.prepareMemoryReplay mutations .client
  .ok (s.apply p)

end Store

end Sider
