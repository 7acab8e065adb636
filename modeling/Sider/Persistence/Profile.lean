/-
**Profiles of the log.**

A log is written in one of three profiles, never inferred from its contents: version 1 records whose
batches belong to one shard, version 2 records, and version 1 records with batches of several owners.
Headers and records are those of the profile; in memory, every record is a version 2 record.

`Profile.encode_framed` and `Profile.writeHeader_opens`: what a profile writes, it reads back.
`Profile.header_isolated`: no other profile reads it.
-/

import Sider.Persistence.Header
import Sider.Persistence.MemoryRoundTrip

namespace Sider

variable {record : Record MemoryMutation} {text input : Bytes} {limits : Limits}

inductive Profile where
  | legacy
  | memory
  | composedLegacyMixed
  deriving DecidableEq, Repr

/-! ### Records of either version -/

/-- The version 1 form of a mutation; a delta has none. -/
def MemoryMutation.toLegacy : MemoryMutation → Except FormatError Mutation
  | legacy mutation => .ok mutation
  | image key collection keyDeadline => .ok (.put key (.memory collection) keyDeadline)
  | delta .. => .error (.version 2)

def Record.convert : Record Mutation → Record MemoryMutation
  | snapshot mutation => .snapshot (.fromStorage mutation)
  | sealed sequence entries digest => .sealed sequence entries digest
  | batch sequence origin mutations => .batch sequence origin (mutations.map .fromStorage)

def Record.toLegacy : Record MemoryMutation → Except FormatError (Record Mutation)
  | snapshot mutation => do .ok (.snapshot (← mutation.toLegacy))
  | sealed sequence entries digest => .ok (.sealed sequence entries digest)
  | batch sequence origin mutations => do
    .ok (.batch sequence origin (← mutations.mapM MemoryMutation.toLegacy))

namespace Profile

def writeHeader (profile : Profile) (sequence : Nat) (layout : DurableLayout)
    (replication : Option ReplicationMetadata) : Except FormatError Bytes :=
  match profile with
  | composedLegacyMixed => ComposedFormat.encodeHeader sequence layout replication
  | memory => MemoryFormat.encodeHeader sequence layout replication
  | legacy => Legacy.writeHeaderWithReplication sequence layout replication

def readHeader (profile : Profile) (input : Bytes) : Except FormatError (Header × Bytes) :=
  match profile with
  | composedLegacyMixed => ComposedFormat.readHeader input
  | memory => MemoryFormat.readHeader input
  | legacy => Legacy.readHeaderWithLayout input

def decode (profile : Profile) (limits : Limits) (payload : Bytes) :
    Except FormatError (Record MemoryMutation) :=
  match profile with
  | memory => Record.decodeMemory limits payload
  | _ => Record.convert <$> Record.decode limits payload

/-- The reader of the profile's records. -/
def reader (profile : Profile) (limits : Limits) :
    FrameLog.Reader FormatError (Record MemoryMutation) :=
  recordReader (profile.decode limits) limits

def encode (profile : Profile) (limits : Limits) (record : Record MemoryMutation) :
    Except FormatError Bytes :=
  match profile with
  | memory => record.encodeMemory limits
  | _ => do (← record.toLegacy).encode limits

/-- Encode a record given in version 1. -/
def encodeLegacy (profile : Profile) (limits : Limits) (record : Record Mutation) :
    Except FormatError Bytes :=
  profile.encode limits record.convert

end Profile

/-! ### What a profile writes, it reads -/

theorem mapM_toLegacy_fromStorage (mutations : List Mutation) :
    (mutations.map MemoryMutation.fromStorage).mapM MemoryMutation.toLegacy = .ok mutations := by
  induction mutations with
  | nil => rfl
  | cons mutation mutations ih =>
    have first : (MemoryMutation.fromStorage mutation).toLegacy = .ok mutation := by
      cases mutation with
      | delete key => rfl
      | put key value expiresAtUnixMs => cases value <;> rfl
    rw [List.map_cons, List.mapM_cons, first, ih]
    rfl

variable {profile : Profile}

/-- Where records are of version 1, a version 1 record is encoded as it is. -/
theorem Profile.encodeLegacy_batch (other : profile ≠ .memory) (limits : Limits) (sequence : Nat)
    (origin : MutationOrigin) (mutations : List Mutation) :
    profile.encodeLegacy limits (.batch sequence origin mutations) =
      (Record.batch sequence origin mutations).encode limits := by
  have same : (Record.batch sequence origin (mutations.map MemoryMutation.fromStorage)).toLegacy =
      .ok (.batch sequence origin mutations) := by
    simp only [Record.toLegacy, mapM_toLegacy_fromStorage]
    rfl
  cases profile with
  | memory => exact absurd rfl other
  | legacy =>
    show (Record.toLegacy _ >>= fun record => record.encode limits) = _
    rw [Record.convert, same]
    rfl
  | composedLegacyMixed =>
    show (Record.toLegacy _ >>= fun record => record.encode limits) = _
    rw [Record.convert, same]
    rfl

/-- A mutation that version 1 can size is the same in both versions. -/
theorem MemoryMutation.toLegacy_same {mutation : MemoryMutation} {old : Mutation} {size : Nat}
    (converted : mutation.toLegacy = .ok old) (sized : old.encodedBytes = .ok size) :
    mutation = .legacy old ∧ MemoryMutation.fromStorage old = mutation := by
  cases mutation with
  | delta => cases converted
  | image key collection keyDeadline =>
    cases converted
    cases sized
  | legacy mutation =>
    obtain rfl := Except.ok.inj converted
    refine ⟨rfl, ?_⟩
    cases mutation with
    | delete key => rfl
    | put key value expiresAtUnixMs =>
      cases value with
      | memory collection => cases sized
      | _ => rfl

/-- Conversions of a list whose items version 1 can size. -/
theorem mapM_toLegacy_same {mutations : List MemoryMutation} {olds : List Mutation}
    (converted : mutations.mapM MemoryMutation.toLegacy = .ok olds)
    (sized : ∀ old ∈ olds, ∃ size, old.encodedBytes = .ok size) :
    mutations = olds.map MemoryMutation.legacy ∧ olds.map MemoryMutation.fromStorage = mutations := by
  induction mutations generalizing olds with
  | nil =>
    cases converted
    exact ⟨rfl, rfl⟩
  | cons mutation mutations ih =>
    rw [List.mapM_cons] at converted
    obtain ⟨old, first, converted⟩ := bind_eq_ok converted
    obtain ⟨rest, later, converted⟩ := bind_eq_ok converted
    cases converted
    obtain ⟨⟨size, here⟩, others⟩ := List.forall_mem_cons.mp sized
    obtain ⟨same, back⟩ := MemoryMutation.toLegacy_same first here
    obtain ⟨sames, backs⟩ := ih later others
    exact ⟨by rw [List.map_cons, ← same, ← sames], by rw [List.map_cons, back, backs]⟩

/-- A record that version 1 encodes is the same in both versions. -/
theorem Record.toLegacy_same {old : Record Mutation} {size : Nat}
    (converted : record.toLegacy = .ok old) (sized : old.size limits = .ok size) :
    old.convert = record ∧ (record.Typed MemoryMutation.Typed → old.Typed Mutation.Typed) := by
  cases record with
  | snapshot mutation =>
    obtain ⟨inner, found, converted⟩ := bind_eq_ok converted
    cases converted
    obtain ⟨_, innerSized, _⟩ := bind_eq_ok sized
    obtain ⟨same, back⟩ := MemoryMutation.toLegacy_same found innerSized
    refine ⟨congrArg Record.snapshot back, fun typed => ?_⟩
    rw [same] at typed
    exact typed
  | sealed sequence entries digest =>
    cases converted
    exact ⟨rfl, id⟩
  | batch sequence origin mutations =>
    obtain ⟨olds, found, converted⟩ := bind_eq_ok converted
    cases converted
    obtain ⟨_, each, _⟩ := Record.size_batch sized
    obtain ⟨same, back⟩ := mapM_toLegacy_same found fun old inside => ⟨_, each old inside⟩
    refine ⟨congrArg (Record.batch sequence origin) back, fun typed => ⟨typed.1, fun old inside => ?_⟩⟩
    have whole := typed.2 (.legacy old)
    rw [same] at whole
    exact whole (List.mem_map.mpr ⟨old, inside, rfl⟩)

namespace Profile

/-- **What a profile encodes** is the frame of a payload that it decodes to the same record. -/
theorem encode_framed (encoded : profile.encode limits record = .ok text)
    (typed : record.Typed MemoryMutation.Typed) :
    IsFrame (profile.decode limits) limits text record := by
  have version1 (encoded : (record.toLegacy >>= fun old => old.encode limits) = .ok text) :
      IsFrame (fun payload => Record.convert <$> Record.decode limits payload) limits text record := by
    obtain ⟨old, converted, encoded⟩ := bind_eq_ok encoded
    obtain ⟨size, sized, _⟩ := bind_eq_ok encoded
    obtain ⟨same, oldTyped⟩ := Record.toLegacy_same converted sized
    have framed := Record.encode_framed encoded (oldTyped typed) Record.convert
    rwa [same] at framed
  cases profile with
  | memory => exact Record.encodeMemory_framed encoded typed
  | legacy => exact version1 encoded
  | composedLegacyMixed => exact version1 encoded

/-! ### Headers of other profiles -/

/-- The length of a header, by its version. -/
def headerBytes : Profile → Nat → Option Nat
  | legacy, version => Legacy.headerBytes version
  | memory, version => MemoryFormat.headerBytes version
  | composedLegacyMixed, version =>
    if version = ComposedFormat.headerVersion then some ComposedFormat.headerBytes else none

/-- The version of the header that a profile writes. -/
def formatVersion (profile : Profile) (replication : Option ReplicationMetadata) : Nat :=
  match profile with
  | composedLegacyMixed => ComposedFormat.headerVersion
  | memory => if replication.isSome then 5 else 4
  | legacy => if replication.isSome then 3 else 2

/-- The profile that a version belongs to. -/
def owner : Nat → Option Profile
  | 1 | 2 | 3 => some legacy
  | 4 | 5 => some memory
  | 7 => some composedLegacyMixed
  | _ => none

theorem owner_eq {version bytes : Nat} (sized : profile.headerBytes version = some bytes) :
    owner version = some profile := by
  cases profile with
  | legacy =>
    change Legacy.headerBytes version = _ at sized
    unfold Legacy.headerBytes at sized
    split at sized
    all_goals first | rfl | cases sized
  | memory =>
    change MemoryFormat.headerBytes version = _ at sized
    unfold MemoryFormat.headerBytes at sized
    split at sized
    all_goals first | rfl | cases sized
  | composedLegacyMixed =>
    change (if version = ComposedFormat.headerVersion then _ else _) = _ at sized
    split at sized
    · rename_i same
      rw [same]
      rfl
    · cases sized

/-- A version of no header of the profile is refused. -/
theorem refuses (foreign : 12 ≤ input.length → profile.headerBytes (numberAt input 8 4) = none) :
    ∃ error, profile.readHeader input = .error error := by
  by_cases tiny : input.length < 12
  · cases profile <;> exact ⟨_, if_pos tiny⟩
  have unknown := foreign (Nat.le_of_not_lt tiny)
  by_cases marked : input.take 8 ≠ magic
  · cases profile <;> exact ⟨_, (if_neg tiny).trans (if_pos marked)⟩
  refine ⟨.version (numberAt input 8 4), ?_⟩
  cases profile with
  | legacy =>
    refine (if_neg tiny).trans ((if_neg marked).trans ?_)
    dsimp only
    rw [show Legacy.headerBytes (numberAt input 8 4) = none from unknown]
  | memory =>
    refine (if_neg tiny).trans ((if_neg marked).trans ?_)
    dsimp only
    rw [show MemoryFormat.headerBytes (numberAt input 8 4) = none from unknown]
  | composedLegacyMixed =>
    refine (if_neg tiny).trans ((if_neg marked).trans (if_pos fun same => ?_))
    rw [headerBytes, if_pos same] at unknown
    cases unknown

/-- An accepted header states a version of the profile. -/
theorem owner_of_accepted {answer : Header × Bytes} (read : profile.readHeader input = .ok answer) :
    12 ≤ input.length ∧ owner (numberAt input 8 4) = some profile := by
  cases sized : profile.headerBytes (numberAt input 8 4) with
  | none =>
    obtain ⟨error, refused⟩ := refuses fun _ => sized
    cases read.symm.trans refused
  | some bytes =>
    refine ⟨Nat.le_of_not_lt fun tiny => ?_, owner_eq sized⟩
    obtain ⟨error, refused⟩ : ∃ error, profile.readHeader input = .error error :=
      refuses fun long => absurd tiny (not_lt.mpr long)
    cases read.symm.trans refused

/-- A header of one profile: it is read back whatever follows, refused by every other profile, and
refused by all of them when it is cut. -/
structure Owns (profile : Profile) (text : Bytes) (header : Header) : Prop
    extends Opens profile.readHeader text header where
  foreign : ∀ other : Profile, other ≠ profile → ∀ rest, ∃ error,
    other.readHeader (text ++ rest) = .error error
  cut : ∀ (reader : Profile) cut, cut <+: text → cut ≠ text → ∃ error,
    reader.readHeader cut = .error error

/-- The version at the start of a header tells the profiles apart. -/
theorem owns_of_opens {header : Header} (opens : Opens profile.readHeader text header) :
    profile.Owns text header := by
  have accepted := opens.reads []
  rw [List.append_nil] at accepted
  obtain ⟨long, own⟩ := owner_of_accepted accepted
  have apart (other : Profile) (different : other ≠ profile) {input : Bytes}
      (same : 12 ≤ input.length → numberAt input 8 4 = numberAt text 8 4) :
      ∃ error, other.readHeader input = .error error := by
    refine refuses fun enough => Option.eq_none_iff_forall_not_mem.mpr fun bytes sized => different ?_
    rw [same enough] at sized
    exact Option.some.inj ((owner_eq sized).symm.trans own)
  refine ⟨opens, fun other different rest =>
    apart other different fun _ => (numberAt_cut ⟨rest, rfl⟩ long).symm, fun reader cut cuts shorter => ?_⟩
  by_cases same : reader = profile
  · subst same
    exact opens.short cut cuts (lt_of_le_of_ne cuts.length_le fun whole =>
      shorter (cuts.eq_of_length whole))
  · exact apart reader same (numberAt_cut cuts)

/-- The header that a profile writes, it opens. -/
theorem writeHeader_opens {sequence : Nat} {layout : DurableLayout}
    {replication : Option ReplicationMetadata}
    (wrote : profile.writeHeader sequence layout replication = .ok text)
    (fits : sequence < 2 ^ 64) :
    profile.headerBytes (profile.formatVersion replication) = some text.length ∧
      Opens profile.readHeader text
        ⟨sequence, layout, profile.formatVersion replication, text.length, replication⟩ := by
  cases profile with
  | legacy => exact Legacy.opens wrote fits
  | memory => exact MemoryFormat.opens wrote fits
  | composedLegacyMixed => exact ComposedFormat.opens wrote fits

/-- **Every header belongs to one profile**: what a profile writes, and the older header without a
layout, is read back with its exact length, refused by the other profiles, and refused when cut. -/
theorem header_isolated (sequence : Nat) (fits : sequence < 2 ^ 64) :
    (∀ (profile : Profile) layout replication text,
      profile.writeHeader sequence layout replication = .ok text →
      profile.headerBytes (profile.formatVersion replication) = some text.length ∧
      profile.Owns text
        ⟨sequence, layout, profile.formatVersion replication, text.length, replication⟩) ∧
    legacy.Owns (Legacy.writeHeader sequence) ⟨sequence, .default, 1, 24, none⟩ := by
  refine ⟨fun profile layout replication text wrote => ?_, owns_of_opens (Legacy.opens_first fits)⟩
  obtain ⟨sized, opens⟩ := writeHeader_opens wrote fits
  exact ⟨sized, owns_of_opens opens⟩

/-- The header of a composed log with one shard is refused as a version 2 record log. -/
theorem header_isolated_composed :
    ∃ error, memory.readHeader
      (closeHeader (ComposedFormat.composedFields 5 .default (List.replicate 20 0))) = .error error := by
  have wrote : composedLegacyMixed.writeHeader 5 .default none =
      .ok (closeHeader (ComposedFormat.composedFields 5 .default (List.replicate 20 0))) := rfl
  have refused := ((header_isolated 5 (by decide)).1 _ _ _ _ wrote).2.foreign memory (by decide) []
  rwa [List.append_nil] at refused

end Profile

end Sider
