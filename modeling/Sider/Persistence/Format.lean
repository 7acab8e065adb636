/-
**Encoded sizes of logged mutations.**

The size that a mutation takes in a record, computed with the checks of the encoder: record version 1
(`Mutation.encodedBytes`) and record version 2 (`MemoryMutation.encodedBytes`), which adds complete
memory images and guarded deltas.
-/

import Sider.Storage.Mutation

namespace Sider

/-- The largest payload of a record. -/
def maxRecordBytes : Nat := 64 * 1024 * 1024

def u32Max : Nat := 2 ^ 32 - 1

inductive FormatError where
  | io
  | header
  | version (version : Nat)
  | limit
  | corrupt (what : String)
  deriving DecidableEq, Repr

/-! ### Record version 1 -/

def addSize (size more : Nat) : Except FormatError Nat :=
  match Machine.checkedAdd size more with
  | some sum => .ok sum
  | none => .error .limit

def blobSize (value : Bytes) : Except FormatError Nat :=
  if u32Max < value.length then .error .limit else addSize value.length 4

/-- A nonempty collection whose count fits its field, item after item. -/
def countedSize {α : Type} (what : String) (count : Nat) (items : List α)
    (itemSize : Nat → α → Except FormatError Nat) : Except FormatError Nat :=
  if count = 0 ∨ u32Max < count then .error (.corrupt what) else items.foldlM itemSize 4

def Value.encodedBytes : Value → Except FormatError Nat
  | memory _ => .error (.version 2)
  | string value => blobSize value
  | sortedSet members =>
    countedSize "sorted member count" members.len members.iter fun size entry => do
      addSize (← addSize size (← blobSize entry.2)) 8
  | set members =>
    countedSize "member count" members.size members.keys fun size member => do
      addSize size (← blobSize member)
  | list values =>
    countedSize "element count" values.length values fun size value => do
      addSize size (← blobSize value)
  | hash fields =>
    countedSize "field count" fields.size fields.entries fun size entry => do
      addSize (← addSize size (← blobSize entry.1)) (← blobSize entry.2)

def Mutation.encodedBytes (m : Mutation) : Except FormatError Nat := do
  let extra ←
    match m with
    | .put _ value _ => do addSize (← value.encodedBytes) 9
    | .delete _ => .ok 0
  if u32Max < m.key.length then .error .limit
  else addSize (← addSize m.key.length 5) extra

/-! ### Record version 2 -/

/-- A version 1 mutation, a complete memory image, or edits of the image before it. -/
inductive MemoryMutation where
  | legacy (mutation : Mutation)
  | image (key : Bytes) (collection : Collection) (keyDeadline : Option Int)
  | delta (key : Bytes) (descriptor : Descriptor) (edits : List Edit) (keyDeadline : Option Int)
  deriving DecidableEq

namespace MemoryMutation

def fromStorage : Mutation → MemoryMutation
  | .put key (.memory collection) expiresAtUnixMs => image key collection expiresAtUnixMs
  | mutation => legacy mutation

def key : MemoryMutation → Bytes
  | legacy mutation => mutation.key
  | image key .. => key
  | delta key .. => key

def encodedBytes : MemoryMutation → Except FormatError Nat
  | legacy mutation => mutation.encodedBytes
  | image key collection _ =>
    match collection.validateKey key with
    | .error _ => .error (.corrupt "memory image")
    | .ok () => .ok (5 + key.length + collection.encodedBytes + 9)
  | delta key descriptor edits _ =>
    if key.isEmpty || 256 < key.length || maxEdits < edits.length then
      .error (.corrupt "memory delta bounds")
    else
      match validateEdits descriptor edits with
      | .error _ => .error (.corrupt "memory delta")
      | .ok () =>
        edits.foldlM (fun size edit => addSize size edit.encodedBytes)
          (18 + key.length + descriptor.encodedBytes)

end MemoryMutation

end Sider
