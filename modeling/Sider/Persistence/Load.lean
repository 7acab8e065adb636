/-
**Recovery of a log.**

`load` selects the highest generation of a directory, checks its header against the configuration
and replays its records: a snapshot in strict key order, the seal that repeats its base sequence, count
and digest, then batches numbered without gaps. An incomplete last record is reported and cut off;
anything else that is not a complete, valid record is an error.
-/

import Sider.Persistence.Profile
import Sider.Persistence.RoutedReplay

namespace Sider

/-! ### Configuration -/

inductive SyncPolicy where
  /-- The reply waits for the batch's sync. -/
  | always
  | periodic (nanos : Nat)
  deriving DecidableEq, Repr

/-- The most permits that a bounded queue can have. -/
def maxPermits : Nat := (2 ^ 64 - 1) / 8

structure AofConfig where
  memoryProfile : Bool
  directory : String
  layout : DurableLayout
  sync : SyncPolicy
  queueCapacity : Nat
  limits : Limits
  maxDeltaBytes : Nat
  deriving DecidableEq, Repr

namespace AofConfig

def limitsInvalid (config : AofConfig) : Bool :=
  config.limits.maxRecordBytes < 64 || maxRecordBytes < config.limits.maxRecordBytes ||
    config.limits.maxMutations = 0 || 1000000 < config.limits.maxMutations ||
    config.maxDeltaBytes = 0 || Machine.isizeMax < config.maxDeltaBytes

def periodInvalid (config : AofConfig) : Bool :=
  match config.sync with
  | .always => false
  | .periodic nanos => nanos = 0 || 60 * 1000000000 < nanos

def validate (config : AofConfig) : Except ConfigError Unit := do
  config.layout.validate
  if config.directory.isEmpty then .error (.invalidServerLimits "SIDER_AOF_DIR cannot be empty")
  else if config.queueCapacity = 0 ∨ maxPermits < config.queueCapacity then
    .error (.invalidServerLimits "AOF queue must have valid capacity")
  else if config.limitsInvalid then .error (.invalidServerLimits "invalid AOF limits")
  else if config.periodInvalid then
    .error (.invalidServerLimits "AOF sync period must be between 1 ms and 60 s")
  else .ok ()

end AofConfig

/-- What recovery is asked to do, and when. -/
structure LoadRequest where
  config : AofConfig
  storeConfig : StoreConfig
  clock : Clock
  profile : Profile
  readOnly : Bool

/-! ### The loop over the records -/

/-- A snapshot record holds a complete value. -/
def MemoryMutation.isPut : MemoryMutation → Bool
  | image .. => true
  | legacy (.put ..) => true
  | _ => false

/-- What the loop threads from one record to the next. -/
structure Loading where
  routed : Routed
  sequence : Nat
  sealed : Bool
  previousKey : Option Bytes
  snapshotEntries : Nat
  snapshotDigest : Nat

namespace LoadRequest

def start (request : LoadRequest) (base : Nat) : Loading where
  routed := ⟨.withConfig request.storeConfig request.clock 0,
    List.replicate request.config.layout.shardCount 0⟩
  sequence := base
  sealed := false
  previousKey := none
  snapshotEntries := 0
  snapshotDigest := 0

def replay (request : LoadRequest) (state : Routed) (mutations : List MemoryMutation) :
    Except AofError Routed :=
  replayRoutedMemory request.config.layout request.storeConfig.maxDatasetBytes
    (request.profile = .composedLegacyMixed) state mutations

/-- One snapshot entry: in strict key order, and part of the digest as it is encoded. -/
def loadSnapshot (request : LoadRequest) (state : Loading) (mutation : MemoryMutation) :
    Except AofError Loading :=
  if state.previousKey.any (mutation.key ≤ ·) then .error .sequence
  else do
    let encoded ← (request.profile.encode request.config.limits (.snapshot mutation)).mapError .format
    let routed ← request.replay state.routed [mutation]
    .ok { state with
      routed := routed
      previousKey := some mutation.key
      snapshotEntries := state.snapshotEntries + 1
      snapshotDigest := snapshotDigest state.snapshotDigest encoded }

/-- One record of the log whose header states `base`. -/
def loadRecord (request : LoadRequest) (base : Nat) (state : Loading) :
    Record MemoryMutation → Except AofError Loading
  | .snapshot mutation =>
    if !state.sealed && mutation.isPut then request.loadSnapshot state mutation
    else .error .sequence
  | .sealed sequence entries digest =>
    if state.sealed = false ∧ sequence = base ∧ entries = state.snapshotEntries ∧
        digest = state.snapshotDigest then .ok { state with sealed := true }
    else .error .sequence
  | .batch next _ mutations =>
    if state.sealed = true ∧ Machine.checkedAdd state.sequence 1 = some next then do
      let routed ← request.replay state.routed mutations
      .ok { state with routed := routed, sequence := next }
    else .error .sequence

def reader (request : LoadRequest) : FrameLog.Reader AofError (Record MemoryMutation) :=
  (request.profile.reader request.config.limits).mapError .format

end LoadRequest

/-! ### One file -/

structure RecoveryMetadata where
  layout : DurableLayout
  sequence : Nat
  formatVersion : Nat
  shardUsage : List Nat
  validBytes : Nat
  incompleteTailBytes : Nat
  replication : Option ReplicationMetadata

structure Recovered where
  store : Store
  metadata : RecoveryMetadata

namespace LoadRequest

/-- A log of version 1 records is not read as one of version 2. -/
def headerError (request : LoadRequest) : FormatError → AofError
  | .version version =>
    if request.config.memoryProfile ∧ 1 ≤ version ∧ version ≤ 3 then
      .migration "record-2 profile requires explicit offline migration from legacy AOF"
    else .format (.version version)
  | error => .format error

/-- Read a whole log. -/
def loadFile (request : LoadRequest) (contents : Bytes) : Except AofError Recovered := do
  let (header, records) ← (request.profile.readHeader contents).mapError request.headerError
  if header.layout ≠ request.config.layout then
    .error (.layoutMismatch request.config.layout header.layout)
  else do
    let (final, validBytes, incomplete) ← FrameLog.scan request.reader
      (request.loadRecord header.sequence) (request.start header.sequence) header.bytes records
    if final.sealed = false then .error .sequence
    else .ok ⟨final.routed.store, {
      layout := header.layout
      sequence := final.sequence
      formatVersion := header.formatVersion
      shardUsage := final.routed.usage
      validBytes := validBytes
      incompleteTailBytes := if incomplete then contents.length - validBytes else 0
      replication := header.replication }⟩

end LoadRequest

/-! ### A directory -/

/-- The generations of a log; `misnamed` when a file is named like one, but not with twenty digits.
Temporary files are never candidates. -/
structure Directory where
  generations : OrdMap Nat Bytes
  misnamed : Bool

namespace Directory

def put (directory : Directory) (generation : Nat) (contents : Bytes) : Directory :=
  { directory with generations := directory.generations.insert generation contents }

/-- The highest generation and its contents. -/
def highest? (directory : Directory) : Option (Nat × Bytes) :=
  directory.generations.last?

end Directory

namespace LoadRequest

/-- The file that a new log starts from: a header and the seal of an empty snapshot. -/
def initialFile (request : LoadRequest) : Except FormatError Bytes := do
  let header ← request.profile.writeHeader 0 request.config.layout none
  let closing ← request.profile.encodeLegacy request.config.limits (.sealed 0 0 0)
  .ok (header ++ closing)

/-- The checks made before the directory is read. -/
def check (request : LoadRequest) : Except AofError Unit := do
  if decide (request.profile = .memory) ≠ request.config.memoryProfile then
    .error (.migration "incompatible development AOF profile")
  else do
    request.config.validate.mapError .config
    let _ ← (request.config.layout.quota request.storeConfig.maxDatasetBytes 0).mapError .config
    .ok ()

/-- The highest generation, created if there is none. -/
def select (request : LoadRequest) (directory : Directory) : Except AofError (Nat × Bytes) :=
  if directory.misnamed then .error .sequence
  else match directory.highest? with
    | some found => .ok found
    | none =>
      if request.readOnly then .error .sequence
      else do .ok (0, ← request.initialFile.mapError .format)

/-- Recover the log of a directory, cutting off an incomplete last record. -/
def load (request : LoadRequest) (directory : Directory) : Except AofError (Recovered × Directory) := do
  request.check
  let (generation, contents) ← request.select directory
  let recovered ← request.loadFile contents
  let repaired :=
    if recovered.metadata.incompleteTailBytes = 0 ∨ request.readOnly then contents
    else contents.take recovered.metadata.validBytes
  .ok (recovered, directory.put generation repaired)

end LoadRequest

end Sider
