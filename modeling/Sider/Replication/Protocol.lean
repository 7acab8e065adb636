/-
**Frames of the replication protocol.**

A frame is a header of 24 bytes and a body. The header names the transport version, the kind of the
message and the length of the body, and holds a checksum of both. Three transports share one codec: the
first carries version 1 records, the second version 2 records, the third version 1 records of the composed
log. Snapshot entries and batches are carried as records of the log, framed as in the log.

A transport decodes only its own version; the fields that a handshake or an export request declares are
checked by encoding them again.
-/

import Sider.Persistence.Profile
import Sider.Replication.Journal

namespace Sider.Replication.Protocol

def magic : Bytes := Bytes.ascii "SIDERREP"

def headerBytes : Nat := 24

def maxFrameBytes : Nat := Sider.maxRecordBytes + 128

/-- The length, its complement and the checksum in front of a record. -/
def recordFraming : Nat := 12

structure Limits where
  maxFrameBytes : Nat
  record : Sider.Limits
  deriving DecidableEq, Repr

inductive Error where
  | limit
  | invalid (what : String)
  | version (found : Nat)
  | record (error : FormatError)
  deriving DecidableEq, Repr

def Limits.validate (limits : Limits) : Except Error Unit :=
  if ¬(headerBytes + 1 ≤ limits.maxFrameBytes ∧ limits.maxFrameBytes ≤ Protocol.maxFrameBytes) ∨
      limits.record.maxRecordBytes = 0 ∨ Sider.maxRecordBytes < limits.record.maxRecordBytes ∨
      limits.record.maxMutations = 0 then .error .limit
  else .ok ()

/-- The versions of the transport. -/
inductive Transport where
  | legacy
  | memory
  | composed
  deriving DecidableEq, Repr

def Transport.version : Transport → Nat
  | legacy => 1
  | memory => 2
  | composed => 3

/-! ### Messages -/

structure Hello where
  siderVersion : Bytes
  recordVersion : Nat
  shardCount : Nat
  routingVersion : Nat
  maxRecordBytes : Nat
  maxMutations : Nat
  maxSnapshotBytes : Nat
  cursor : Option Cursor
  deriving DecidableEq

structure ComposedHello where
  base : Hello
  aofHeaderVersion : Nat
  requiredCapabilities : Nat
  deriving DecidableEq

inductive Reject where
  | incompatibleVersion
  | incompatibleLayout
  | resourceLimit
  | fullRequired
  | invalidSequence
  | unavailable
  deriving DecidableEq, Repr

inductive Message where
  | hello (hello : Hello)
  | composedHello (hello : ComposedHello)
  | exports (siderVersion : Bytes) (maxRecordBytes maxSnapshotBytes : Nat)
  | memoryExport (siderVersion : Bytes) (recordVersion maxRecordBytes maxSnapshotBytes : Nat)
  | composedExport (siderVersion : Bytes) (recordVersion aofHeaderVersion requiredCapabilities
      maxRecordBytes maxSnapshotBytes : Nat)
  | memorySnapshotEntry (mutation : MemoryMutation)
  | memoryBatch (sequence : Nat) (origin : MutationOrigin) (mutations : List MemoryMutation)
  | continues (cursor : Cursor)
  | fullStart (cursor : Cursor) (entries : Nat)
  | snapshotEntry (mutation : Mutation)
  | fullEnd (cursor : Cursor) (entries digest : Nat)
  | batch (sequence : Nat) (batch : ResolvedBatch)
  | ack (cursor : Cursor)
  | heartbeat (cursor : Cursor)
  | reject (reject : Reject)
  | statusRequest
  | promote
  | promoted (cursor : Cursor)
  | status (readonly : Bool) (cursor : Cursor) (upstreamSequence : Option Nat) (connected : Bool)
      (backlogBytes fullSyncs partialSyncs : Nat)
  deriving DecidableEq

/-- The record version of the second transport, and what the composed profile requires. -/
def memoryRecordVersion : Nat := 2

def legacyRecordVersion : Nat := 1

def mixedOwnerBatch : Nat := 1

def Reject.code : Reject → Byte
  | incompatibleVersion => 1
  | incompatibleLayout => 2
  | resourceLimit => 3
  | fullRequired => 4
  | invalidSequence => 5
  | unavailable => 6

/-- A snapshot holds whole entries only. -/
def isEntry : MemoryMutation → Bool
  | .image .. | .legacy (.put ..) => true
  | _ => false

/-! ### Encoding -/

def isAsciiGraphic (byte : Byte) : Bool :=
  33 ≤ byte.val && byte.val ≤ 126

def isLabel (label : Bytes) : Bool :=
  !label.isEmpty && label.length ≤ 32 && label.all isAsciiGraphic

def encodeLabel (label : Bytes) : Bytes :=
  Fin.ofNat 256 label.length :: label

def encodeBool (value : Bool) : Byte :=
  if value then 1 else 0

def encodeCursor (cursor : Cursor) : Bytes :=
  cursor.epoch.bytes ++ u64Bytes cursor.sequence

def encodeOptionalCursor : Option Cursor → Bytes
  | none => [0]
  | some cursor => 1 :: encodeCursor cursor

def helloBytes (hello : Hello) : Bytes :=
  encodeLabel hello.siderVersion ++ (u32Bytes hello.recordVersion ++ (u32Bytes hello.shardCount ++
    (u32Bytes hello.routingVersion ++ (u32Bytes hello.maxRecordBytes ++ (u32Bytes hello.maxMutations ++
      (u64Bytes hello.maxSnapshotBytes ++ encodeOptionalCursor hello.cursor))))))

def encodeHello (hello : Hello) : Except Error Bytes :=
  if !isLabel hello.siderVersion ∨ hello.shardCount = 0 ∨ hello.routingVersion = 0 ∨
      hello.recordVersion = 0 ∨ hello.maxRecordBytes = 0 ∨ hello.maxMutations = 0 ∨
      hello.maxSnapshotBytes = 0 then .error (.invalid "handshake")
  else .ok (helloBytes hello)

/-- A record of the log as a body. -/
def recordBody (kind : Byte) (encoded : Except FormatError Bytes) : Except Error (Byte × Bytes) :=
  match encoded with
  | .ok body => .ok (kind, body)
  | .error error => .error (.record error)

/-- The kind and the body of a message; each transport refuses what the others carry. -/
def encodeBody (transport : Transport) (limits : Sider.Limits) : Message → Except Error (Byte × Bytes)
  | .memorySnapshotEntry mutation =>
    if transport = .memory ∧ isEntry mutation = true then
      recordBody 4 ((Record.snapshot mutation).encodeMemory limits)
    else .error (.invalid "record-2 message requires transport 2")
  | .memoryBatch sequence origin mutations =>
    if transport = .memory then
      recordBody 6 ((Record.batch sequence origin mutations).encodeMemory limits)
    else .error (.invalid "record-2 message requires transport 2")
  | .memoryExport siderVersion recordVersion maxRecordBytes maxSnapshotBytes =>
    if transport ≠ .memory then .error (.invalid "record-2 message requires transport 2")
    else if !isLabel siderVersion ∨ recordVersion ≠ memoryRecordVersion ∨ maxRecordBytes = 0 ∨
        maxSnapshotBytes = 0 then .error (.invalid "export request")
    else .ok (10, encodeLabel siderVersion ++ (u32Bytes recordVersion ++ (u32Bytes maxRecordBytes ++
      u64Bytes maxSnapshotBytes)))
  | .composedExport siderVersion recordVersion aofHeaderVersion requiredCapabilities maxRecordBytes
      maxSnapshotBytes =>
    if transport ≠ .composed then .error (.invalid "composed export requires transport 3")
    else if !isLabel siderVersion ∨ recordVersion ≠ legacyRecordVersion ∨
        aofHeaderVersion ≠ ComposedFormat.headerVersion ∨ requiredCapabilities ≠ mixedOwnerBatch ∨
        maxRecordBytes = 0 ∨ maxSnapshotBytes = 0 then .error (.invalid "composed export request")
    else .ok (10, encodeLabel siderVersion ++ (u32Bytes recordVersion ++ (u32Bytes aofHeaderVersion ++
      (u32Bytes requiredCapabilities ++ (u32Bytes maxRecordBytes ++ u64Bytes maxSnapshotBytes)))))
  | .composedHello hello =>
    if transport ≠ .composed then .error (.invalid "composed hello requires transport 3")
    else if hello.base.recordVersion ≠ legacyRecordVersion ∨
        hello.aofHeaderVersion ≠ ComposedFormat.headerVersion ∨
        hello.requiredCapabilities ≠ mixedOwnerBatch then .error (.invalid "composed profile")
    else do
      let base ← encodeHello hello.base
      .ok (1, base ++ (u32Bytes hello.aofHeaderVersion ++ u32Bytes hello.requiredCapabilities))
  | .hello hello =>
    if transport = .composed then .error (.invalid "transport 3 requires composed hello")
    else if transport = .memory ∧ hello.recordVersion ≠ memoryRecordVersion then
      .error (.invalid "record version")
    else do
      let body ← encodeHello hello
      .ok (1, body)
  | .continues cursor => .ok (2, encodeCursor cursor)
  | .fullStart cursor entries => .ok (3, encodeCursor cursor ++ u64Bytes entries)
  | .snapshotEntry mutation =>
    match mutation with
    | .put .. =>
      if transport = .memory then .error (.invalid "removal within snapshot")
      else recordBody 4 ((Record.snapshot mutation).encode limits)
    | .delete _ => .error (.invalid "removal within snapshot")
  | .fullEnd cursor entries digest =>
    .ok (5, encodeCursor cursor ++ (u64Bytes entries ++ u32Bytes digest))
  | .batch sequence batch =>
    if transport = .memory then .error (.invalid "legacy batch requires transport 1 or 3")
    else recordBody 6 ((Record.batch sequence batch.origin batch.mutations).encode limits)
  | .ack cursor => .ok (7, encodeCursor cursor)
  | .heartbeat cursor => .ok (8, encodeCursor cursor)
  | .reject reject => .ok (9, [reject.code])
  | .exports siderVersion maxRecordBytes maxSnapshotBytes =>
    if transport ≠ .legacy then .error (.invalid "legacy export requires transport 1")
    else if !isLabel siderVersion ∨ maxRecordBytes = 0 ∨ maxSnapshotBytes = 0 then
      .error (.invalid "export request")
    else .ok (10, encodeLabel siderVersion ++ (u32Bytes maxRecordBytes ++ u64Bytes maxSnapshotBytes))
  | .statusRequest => .ok (11, [0])
  | .promote => .ok (12, [0])
  | .promoted cursor => .ok (13, encodeCursor cursor)
  | .status readonly cursor upstreamSequence connected backlogBytes fullSyncs partialSyncs =>
    .ok (14, encodeBool readonly :: (encodeCursor cursor ++ (encodeBool upstreamSequence.isSome ::
      (u64Bytes (upstreamSequence.getD 0) ++ (encodeBool connected :: (u64Bytes backlogBytes ++
        (u64Bytes fullSyncs ++ u64Bytes partialSyncs)))))))

/-- The header up to its checksum. -/
def headerStart (transport : Transport) (kind : Byte) (length : Nat) : Bytes :=
  magic ++ (Bytes.toLittleEndian 2 transport.version ++ ([kind, 0] ++ (u32Bytes length ++
    u32Bytes (u32Max - length))))

def encodeFrame (transport : Transport) (kind : Byte) (body : Bytes) : Bytes :=
  headerStart transport kind body.length ++
    (u32Bytes (snapshotDigest (checksum (headerStart transport kind body.length)) body) ++ body)

/-- The record of a message must fit in the frame, behind both headers. -/
def Limits.inFrame (limits : Limits) : Sider.Limits :=
  { limits.record with
    maxRecordBytes := min limits.record.maxRecordBytes
      (limits.maxFrameBytes - (headerBytes + recordFraming)) }

def encodeProfile (transport : Transport) (limits : Limits) (message : Message) : Except Error Bytes := do
  limits.validate
  let (kind, body) ← encodeBody transport limits.inFrame message
  match Machine.checkedAdd body.length headerBytes with
  | none => .error .limit
  | some size =>
    if limits.maxFrameBytes < size then .error .limit
    else if u32Max < body.length then .error .limit
    else .ok (encodeFrame transport kind body)

/-! ### Decoding -/

/-- The lengths a kind of message can have. -/
def validSize (transport : Transport) (kind length : Nat) : Bool :=
  match kind with
  | 1 => length ≤ if transport = .composed then 94 else 86
  | 2 | 7 | 8 | 13 => length = 24
  | 3 => length = 32
  | 5 => length = 36
  | 9 | 11 | 12 => length = 1
  | 10 => length ≤ match transport with
    | .composed => 57
    | .memory => 49
    | .legacy => 45
  | 14 => length = 59
  | _ => true

/-- The kind and the length that a header declares. -/
def header (bytes : Bytes) (limits : Limits) (transport : Transport) : Except Error (Nat × Nat) := do
  limits.validate
  if bytes.length ≠ headerBytes ∨ bytes.field 0 8 ≠ magic ∨ numberAt bytes 11 1 ≠ 0 then
    .error (.invalid "header")
  else if numberAt bytes 8 2 ≠ transport.version then .error (.version (numberAt bytes 8 2))
  else if ¬(1 ≤ numberAt bytes 10 1 ∧ numberAt bytes 10 1 ≤ 14) then .error (.invalid "message type")
  else if u32Max - numberAt bytes 12 4 ≠ numberAt bytes 16 4 then .error (.invalid "length")
  else if numberAt bytes 12 4 = 0 ∨ limits.maxFrameBytes - headerBytes < numberAt bytes 12 4 then
    .error .limit
  else if !validSize transport (numberAt bytes 10 1) (numberAt bytes 12 4) then
    .error (.invalid "message type length")
  else .ok (numberAt bytes 10 1, numberAt bytes 12 4)

namespace Fields

abbrev M := StateT Bytes (Except Error)

def take (count : Nat) : M Bytes := Cursor.take (.invalid "incomplete payload") count

def byte : M Nat := Cursor.number (.invalid "incomplete payload") 1

def boolean : M Bool := do
  let value ← byte
  if value = 0 then return false
  else if value = 1 then return true
  else throw (.invalid "boolean flag")

def u32 : M Nat := Cursor.number (.invalid "incomplete payload") 4

def u64 : M Nat := Cursor.number (.invalid "incomplete payload") 8

def epoch : M Epoch := do
  let bytes ← take 16
  if sixteen : bytes.length = 16 then return ⟨bytes, sixteen⟩
  else throw (.invalid "incomplete payload")

def cursor : M Cursor := do
  let epoch ← epoch
  let sequence ← u64
  return ⟨epoch, sequence⟩

def label : M Bytes := do take (← byte)

def optionalCursor : M (Option Cursor) := do
  let flag ← byte
  if flag = 0 then return none
  else if flag = 1 then return some (← cursor)
  else throw (.invalid "cursor flag")

def hello : M Hello := do
  let siderVersion ← label
  let recordVersion ← u32
  let shardCount ← u32
  let routingVersion ← u32
  let maxRecordBytes ← u32
  let maxMutations ← u32
  let maxSnapshotBytes ← u64
  let cursor ← optionalCursor
  return ⟨siderVersion, recordVersion, shardCount, routingVersion, maxRecordBytes, maxMutations,
    maxSnapshotBytes, cursor⟩

def reject : M Reject := do
  let code ← byte
  match code with
  | 1 => return .incompatibleVersion
  | 2 => return .incompatibleLayout
  | 3 => return .resourceLimit
  | 4 => return .fullRequired
  | 5 => return .invalidSequence
  | 6 => return .unavailable
  | _ => throw (.invalid "rejection reason")

/-- A message whose fields pass the checks of the encoder. -/
def checked (transport : Transport) (limits : Limits) (message : Message) : M Message := fun unread => do
  let _ ← encodeProfile transport limits message
  .ok (message, unread)

def handshake (transport : Transport) (limits : Limits) : M Message := do
  let hello ← hello
  if transport = .composed then do
    let aofHeaderVersion ← u32
    let requiredCapabilities ← u32
    checked transport limits (.composedHello ⟨hello, aofHeaderVersion, requiredCapabilities⟩)
  else checked transport limits (.hello hello)

def exportRequest (transport : Transport) (limits : Limits) : M Message := do
  let siderVersion ← label
  match transport with
  | .composed => do
    let recordVersion ← u32
    let aofHeaderVersion ← u32
    let requiredCapabilities ← u32
    let maxRecordBytes ← u32
    let maxSnapshotBytes ← u64
    checked transport limits (.composedExport siderVersion recordVersion aofHeaderVersion
      requiredCapabilities maxRecordBytes maxSnapshotBytes)
  | .memory => do
    let recordVersion ← u32
    let maxRecordBytes ← u32
    let maxSnapshotBytes ← u64
    checked transport limits (.memoryExport siderVersion recordVersion maxRecordBytes maxSnapshotBytes)
  | .legacy => do
    let maxRecordBytes ← u32
    let maxSnapshotBytes ← u64
    checked transport limits (.exports siderVersion maxRecordBytes maxSnapshotBytes)

/-- A request without fields is one zero. -/
def request (message : Message) : M Message := do
  let value ← byte
  if value ≠ 0 then throw (.invalid "administrative request")
  else return message

def status : M Message := do
  let readonly ← boolean
  let cursor ← cursor
  let hasUpstream ← boolean
  let sequence ← u64
  Cursor.reject (hasUpstream = false ∧ sequence ≠ 0) (.invalid "missing upstream position")
  let connected ← boolean
  let backlogBytes ← u64
  let fullSyncs ← u64
  let partialSyncs ← u64
  return .status readonly cursor (if hasUpstream then some sequence else none) connected backlogBytes
    fullSyncs partialSyncs

/-- The message of a kind that is not a record. -/
def message (transport : Transport) (limits : Limits) (kind : Nat) : M Message :=
  match kind with
  | 1 => handshake transport limits
  | 2 => do return .continues (← cursor)
  | 3 => do
    let cursor ← cursor
    let entries ← u64
    return .fullStart cursor entries
  | 5 => do
    let cursor ← cursor
    let entries ← u64
    let digest ← u32
    return .fullEnd cursor entries digest
  | 7 => do return .ack (← cursor)
  | 8 => do return .heartbeat (← cursor)
  | 9 => do return .reject (← reject)
  | 10 => exportRequest transport limits
  | 11 => request .statusRequest
  | 12 => request .promote
  | 13 => do return .promoted (← cursor)
  | 14 => status
  | _ => throw (.invalid "message type")

end Fields

/-- A record that fills its body. -/
def wholeRecord {μ : Type} (decode : Bytes → Except FormatError (Record μ)) (limits : Sider.Limits)
    (incomplete : String) (body : Bytes) (message : Record μ → Except Error Message) :
    Except Error Message :=
  match readRecord decode limits body with
  | .error error => .error (.record error)
  | .ok (.item record rest) =>
    if rest.isEmpty then message record else .error (.invalid "bytes after record")
  | .ok _ => .error (.invalid incomplete)

/-- A forged length cannot ask for more than the frame that was received. -/
def decodeRecord (transport : Transport) (limits : Limits) (kind : Nat) (body : Bytes) :
    Except Error Message :=
  if body.length < recordFraming ∨ numberAt body 0 4 ≠ body.length - recordFraming then
    .error (.invalid "record length")
  else if transport = .memory then
    wholeRecord (Record.decodeMemory limits.record) limits.record "incomplete record" body
      fun record =>
        match record with
        | .snapshot mutation =>
          if kind = 4 ∧ isEntry mutation = true then .ok (.memorySnapshotEntry mutation)
          else .error (.invalid "incompatible record")
        | .batch sequence origin mutations =>
          if kind = 6 then .ok (.memoryBatch sequence origin mutations)
          else .error (.invalid "incompatible record")
        | .sealed .. => .error (.invalid "incompatible record")
  else
    wholeRecord (Record.decode limits.record) limits.record "incompatible or incomplete record" body
      fun record =>
        match record with
        | .snapshot (.put key value deadline) =>
          if kind = 4 then .ok (.snapshotEntry (.put key value deadline))
          else .error (.invalid "incompatible or incomplete record")
        | .batch sequence origin mutations =>
          if kind = 6 then .ok (.batch sequence ⟨origin, mutations⟩)
          else .error (.invalid "incompatible or incomplete record")
        | _ => .error (.invalid "incompatible or incomplete record")

/-- **Exactly one frame**, with no bytes behind it. -/
def decodeProfile (transport : Transport) (limits : Limits) (frame : Bytes) : Except Error Message :=
  if frame.length < headerBytes then .error (.invalid "incomplete header")
  else do
    let (kind, length) ← header (frame.take headerBytes) limits transport
    if frame.length ≠ headerBytes + length then .error (.invalid "payload length")
    else if snapshotDigest (checksum (frame.take 20)) (frame.drop headerBytes) ≠ numberAt frame 20 4 then
      .error (.invalid "checksum")
    else if kind = 4 ∨ kind = 6 then decodeRecord transport limits kind (frame.drop headerBytes)
    else
      Cursor.whole (Fields.message transport limits kind) (.invalid "bytes after message")
        (frame.drop headerBytes)

/-! ### The frames of the writer -/

/-- The record limits that the configuration of the writer accepts. -/
def validLimits (limits : Sider.Limits) : Bool :=
  !(limits.maxRecordBytes < 64 || Sider.maxRecordBytes < limits.maxRecordBytes ||
    limits.maxMutations = 0 || 1000000 < limits.maxMutations)

/-- The frame limit that the writer derives from its record limit. -/
def writerLimits (limits : Sider.Limits) : Limits :=
  ⟨limits.maxRecordBytes + headerBytes + recordFraming, limits⟩

/-- The frame that `append` publishes; the profile of version 2 records has its own. -/
def batchFrame (profile : Profile) (limits : Sider.Limits) (sequence : Nat) (batch : ResolvedBatch) :
    Except Error Bytes :=
  encodeProfile (if profile = .composedLegacyMixed then .composed else .legacy) (writerLimits limits)
    (.batch sequence batch)

/-- The frame that `append_memory` publishes. -/
def memoryBatchFrame (limits : Sider.Limits) (sequence : Nat) (origin : MutationOrigin)
    (mutations : List MemoryMutation) : Except Error Bytes :=
  encodeProfile .memory (writerLimits limits) (.memoryBatch sequence origin mutations)

end Sider.Replication.Protocol
