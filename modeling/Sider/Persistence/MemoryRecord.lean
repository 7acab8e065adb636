/-
**Records of the log, version 2.**

Version 2 adds complete memory images and guarded deltas to the mutations of version 1. Its records
have the same shape and frames; a batch names each key once, a snapshot holds no delta. What is read
back is checked against the limits of collections and members before it is accepted.
-/

import Sider.Persistence.Record
import Sider.Storage.Edits

namespace Sider

/-! ### Encoding -/

def encodeDescriptor (descriptor : Descriptor) : Bytes :=
  u32Bytes 1 ++ (u32Bytes descriptor.dimension ++ ([1] ++ ([1] ++ (encodeBlob descriptor.provider ++
    (encodeBlob descriptor.model ++ (encodeBlob descriptor.revision ++
      encodeBlob descriptor.transform))))))

def encodeScalar : Scalar → Bytes
  | .bytes value => 1 :: encodeBlob value
  | .integer value => 2 :: i64Bytes value
  | .bool value => [3, if value then 1 else 0]

def encodeMember (dimension : Nat) (member : Member) : Bytes :=
  encodeBlob member.id ++ (encodeBlob member.nameSpace ++ (encodeBlob member.content ++
    (u32Bytes dimension ++ (member.vector ++ (encodeDeadline member.deadline ++
      (u32Bytes member.metadata.size ++ (member.metadata.entries.flatMap (fun entry =>
          encodeBlob entry.1 ++ encodeScalar entry.2) ++
        (u32Bytes member.provenance.size ++ member.provenance.entries.flatMap fun entry =>
          encodeBlob entry.1 ++ encodeBlob entry.2))))))))

def encodeEdit (dimension : Nat) : Edit → Bytes
  | .upsert member => 1 :: encodeMember dimension member
  | .remove id => 2 :: encodeBlob id

def MemoryMutation.encode : MemoryMutation → Except FormatError Bytes
  | legacy mutation => mutation.encode
  | image key collection keyDeadline =>
    .ok (7 :: (encodeBlob key ++ (encodeDescriptor collection.descriptor ++
      (u32Bytes collection.members.size ++ (collection.members.values.flatMap
        (encodeMember collection.descriptor.dimension) ++ encodeDeadline keyDeadline)))))
  | delta key descriptor edits keyDeadline =>
    .ok (8 :: (encodeBlob key ++ (encodeDescriptor descriptor ++ (u32Bytes edits.length ++
      (edits.flatMap (encodeEdit descriptor.dimension) ++ encodeDeadline keyDeadline)))))

/-- Add a mutation's size to a batch whose keys so far are known. -/
def batchSize (state : OrdSet Bytes × Nat) (mutation : MemoryMutation) :
    Except FormatError (OrdSet Bytes × Nat) :=
  if mutation.key ∈ state.1 then .error (.corrupt "duplicate batch key")
  else do
    let size ← addSize state.2 (← mutation.encodedBytes)
    .ok (state.1.add mutation.key, size)

/-- The predicted size of a version 2 record. -/
def Record.memorySize (limits : Limits) : Record MemoryMutation → Except FormatError Nat
  | snapshot mutation =>
    match mutation with
    | .delta .. => .error (.corrupt "delta snapshot")
    | mutation => do addSize (← mutation.encodedBytes) 1
  | sealed .. => .ok 21
  | batch _ _ mutations =>
    if limits.refuses mutations.length then .error .limit
    else do
      let (_, size) ← mutations.foldlM batchSize (∅, 14)
      .ok size

def Record.encodeMemory (limits : Limits) (record : Record MemoryMutation) :
    Except FormatError Bytes := do
  frameRecord limits (← record.memorySize limits) (record.payload MemoryMutation.encode)

/-! ### Decoding -/

namespace Read

def boundedBlob (minimum maximum : Nat) : M Bytes := do
  let size ← u32
  Cursor.reject (size < minimum ∨ maximum < size) (.corrupt "memory blob length")
  take size

def memoryCount (maximum unit : Nat) : M Nat := do
  let count ← u32
  let left ← Cursor.remaining
  Cursor.reject (maximum < count ∨ left / unit < count) (.corrupt "memory count")
  return count

/-- Keys come in strictly increasing order. -/
def ordered (previous : Option Bytes) (value : Bytes) : M Unit :=
  Cursor.reject (previous.any (value ≤ ·) = true) (.corrupt "memory order or duplicate")

def descriptor : M Descriptor := do
  let version ← u32
  Cursor.reject (version ≠ 1) (.corrupt "memory schema version")
  let dimension ← u32
  Cursor.reject (¬ (1 ≤ dimension ∧ dimension ≤ 4096)) (.corrupt "memory dimension")
  let encoding ← byte
  Cursor.reject (encoding ≠ 1) (.corrupt "memory encoding or metric")
  let metric ← byte
  Cursor.reject (metric ≠ 1) (.corrupt "memory encoding or metric")
  let provider ← boundedBlob 1 256
  let model ← boundedBlob 1 256
  let revision ← boundedBlob 1 256
  let transform ← boundedBlob 1 256
  return ⟨dimension, provider, model, revision, transform⟩

def flag : M Bool := do
  let value ← byte
  Cursor.reject (¬ (value = 0 ∨ value = 1)) (.corrupt "memory bool")
  return value = 1

def scalar : M Scalar := do
  let tag ← byte
  if tag = 1 then return .bytes (← boundedBlob 0 4096)
  else if tag = 2 then return .integer (← i64)
  else if tag = 3 then return .bool (← flag)
  else throw (.corrupt "memory scalar")

def metadata (state : Option Bytes × OrdMap Bytes Scalar) : M (Option Bytes × OrdMap Bytes Scalar) := do
  let field ← boundedBlob 1 64
  ordered state.1 field
  let value ← scalar
  return (some field, state.2.insert field value)

def provenance (state : Option Bytes × OrdMap Bytes Bytes) : M (Option Bytes × OrdMap Bytes Bytes) := do
  let field ← boundedBlob 1 64
  ordered state.1 field
  let value ← boundedBlob 0 4096
  return (some field, state.2.insert field value)

def memoryMember (descriptor : Descriptor) : M Member := do
  let id ← boundedBlob 1 256
  let nameSpace ← boundedBlob 0 256
  let content ← boundedBlob 0 65536
  let dimension ← u32
  Cursor.reject (dimension ≠ descriptor.dimension) (.corrupt "memory vector dimension")
  let vector ← take (descriptor.dimension * 4)
  let deadline ← deadline true
  let metadata ← Cursor.repeatM metadata (← memoryCount 32 6) (none, ∅)
  let provenance ← Cursor.repeatM provenance (← memoryCount 16 9) (none, ∅)
  let member : Member := ⟨id, nameSpace, content, vector, deadline, metadata.2, provenance.2⟩
  Cursor.reject (member.validate descriptor ≠ .ok ()) (.corrupt "memory member")
  return member

def imageMember (descriptor : Descriptor) (state : Option Bytes × List Member) :
    M (Option Bytes × List Member) := do
  let member ← memoryMember descriptor
  ordered state.1 member.id
  return (some member.id, state.2 ++ [member])

def edit (descriptor : Descriptor) : M Edit := do
  let tag ← byte
  if tag = 1 then return .upsert (← memoryMember descriptor)
  else if tag = 2 then return .remove (← boundedBlob 1 256)
  else throw (.corrupt "memory edit")

def deltaEdit (descriptor : Descriptor) (state : Option Bytes × List Edit) :
    M (Option Bytes × List Edit) := do
  let edit ← edit descriptor
  ordered state.1 edit.id
  return (some edit.id, state.2 ++ [edit])

/-- The collection of an image that passes its quotas. -/
def collection (descriptor : Descriptor) (members : List Member) (key : Bytes) : M Collection :=
  match Collection.fromMembers descriptor members key with
  | .ok collection => pure collection
  | .error _ => throw (.corrupt "memory image quota")

def image (key : Bytes) (descriptor : Descriptor) : M MemoryMutation := do
  let count ← memoryCount maxMembers 38
  Cursor.reject ((Machine.checkedMul count descriptor.dimension).all (maxComponents < ·) = true)
    (.corrupt "memory component quota")
  let members ← Cursor.repeatM (imageMember descriptor) count (none, [])
  let keyDeadline ← deadline false
  let collection ← collection descriptor members.2 key
  return .image key collection keyDeadline

def delta (key : Bytes) (descriptor : Descriptor) : M MemoryMutation := do
  let count ← memoryCount maxEdits 6
  let edits ← Cursor.repeatM (deltaEdit descriptor) count (none, [])
  let keyDeadline ← deadline false
  return .delta key descriptor edits.2 keyDeadline

/-- The first byte of what is left, which stays unread. -/
def peek : M Nat := fun unread => do
  let (value, _) ← byte unread
  .ok (value, unread)

def memoryMutation : M MemoryMutation := do
  let tag ← peek
  if 1 ≤ tag ∧ tag ≤ 6 then return .legacy (← mutation)
  else do
    let tag ← byte
    if ¬ (tag = 7 ∨ tag = 8) then throw (.corrupt "mutation type")
    else do
      let key ← boundedBlob 1 256
      let descriptor ← descriptor
      if tag = 7 then image key descriptor else delta key descriptor

/-- A batch names each key once. -/
def batchMutation (state : OrdSet Bytes × List MemoryMutation) :
    M (OrdSet Bytes × List MemoryMutation) := do
  let mutation ← memoryMutation
  Cursor.reject (mutation.key ∈ state.1) (.corrupt "duplicate batch key")
  return (state.1.add mutation.key, state.2 ++ [mutation])

def isDelta : MemoryMutation → Bool
  | .delta .. => true
  | _ => false

/-- The payload of a version 2 record. -/
def memoryRecord (limits : Limits) : M (Record MemoryMutation) := do
  let tag ← byte
  if tag = 1 then do
    let mutation ← memoryMutation
    Cursor.reject (isDelta mutation = true) (.corrupt "delta snapshot")
    return .snapshot mutation
  else if tag = 2 then sealed
  else if tag = 3 then do
    let sequence ← u64
    let origin ← origin
    let count ← memoryCount limits.maxMutations 5
    Cursor.reject (count = 0) .limit
    let mutations ← Cursor.repeatM batchMutation count (∅, [])
    return .batch sequence origin mutations.2
  else throw (.corrupt "record type")

end Read

def Record.decodeMemory (limits : Limits) (payload : Bytes) :
    Except FormatError (Record MemoryMutation) :=
  Cursor.whole (Read.memoryRecord limits) (.corrupt "bytes extras") payload

end Sider
