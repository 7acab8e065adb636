/-
**Headers of the log.**

Each profile has its own header: versions 1 to 3 for record version 1, versions 4 and 5 for record
version 2, version 7 for batches of several owners. A header states the base sequence, the layout and,
where the log is replicated, the role and epoch; its last four bytes are the CRC-32 of the others.

* `Opens read text header` — `text` is a complete header: it is read whatever follows it, and a
  shorter input is refused.
* `Legacy.opens`, `MemoryFormat.opens`, `ComposedFormat.opens` — what a writer accepts, its reader opens.
-/

import Sider.Persistence.Record
import Sider.Persistence.Layout

namespace Sider

variable {cut text : Bytes} {layout : DurableLayout} {version sequence value : Nat}
  {replication : Option ReplicationMetadata}

/-- "SIDERAOF". -/
def magic : Bytes := [83, 73, 68, 69, 82, 65, 79, 70]

structure Header where
  sequence : Nat
  layout : DurableLayout
  formatVersion : Nat
  bytes : Nat
  replication : Option ReplicationMetadata
  deriving DecidableEq

def Role.tag : Role → Byte
  | primary => 1
  | replica => 2

/-- Append the checksum of a header. -/
def closeHeader (fields : Bytes) : Bytes := fields ++ u32Bytes (checksum fields)

/-- The number in a field. -/
def numberAt (bytes : Bytes) (start size : Nat) : Nat := Bytes.littleEndian (bytes.field start size)

/-- The epoch in a field of sixteen bytes. -/
def epochAt (bytes : Bytes) (start : Nat) : Epoch :=
  if sixteen : (bytes.field start 16).length = 16 then ⟨_, sixteen⟩ else .zero

/-- Role, reserved bytes and epoch. -/
def roleBytes (tag : Byte) (epoch : Epoch) : Bytes :=
  [tag] ++ ([0, 0, 0] ++ epoch.bytes)

def encodeRole (metadata : ReplicationMetadata) : Bytes :=
  roleBytes metadata.role.tag metadata.epoch

/-- The role and epoch that start at a field. -/
def readRole (header : Bytes) (start : Nat) (reserved role : FormatError) :
    Except FormatError ReplicationMetadata :=
  if header.field (start + 1) 3 ≠ [0, 0, 0] then .error reserved
  else if header.field start 1 = [1] then .ok ⟨.primary, epochAt header (start + 4)⟩
  else if header.field start 1 = [2] then .ok ⟨.replica, epochAt header (start + 4)⟩
  else .error role

/-! ### Versions 1 to 3 -/

namespace Legacy

def writeHeaderWithReplication (sequence : Nat) (layout : DurableLayout)
    (replication : Option ReplicationMetadata) : Except FormatError Bytes :=
  match layout.validate with
  | .error _ => .error (.corrupt "shard configuration")
  | .ok () =>
    .ok (closeHeader (magic ++ (u32Bytes (if replication.isSome then 3 else 2) ++
      (u64Bytes sequence ++ (u32Bytes layout.shardCount ++ (u32Bytes layout.routingVersion ++
        (replication.map encodeRole).getD []))))))

/-- The header of version 1 states no layout. -/
def writeHeader (sequence : Nat) : Bytes :=
  closeHeader (magic ++ (u32Bytes 1 ++ u64Bytes sequence))

def headerBytes : Nat → Option Nat
  | 1 => some 24
  | 2 => some 32
  | 3 => some 52
  | _ => none

/-- Only version 3 states a role. -/
def readReplication (version : Nat) (header : Bytes) :
    Except FormatError (Option ReplicationMetadata) :=
  if version = 3 then do
    let metadata ← readRole header 28 (.corrupt "replication reserved field")
      (.corrupt "replication role")
    .ok (some metadata)
  else .ok none

def readHeaderWithLayout (input : Bytes) : Except FormatError (Header × Bytes) :=
  if input.length < 12 then .error .header
  else if input.take 8 ≠ magic then .error .header
  else
    let version := numberAt input 8 4
    match headerBytes version with
    | none => .error (.version version)
    | some bytes =>
      if input.length < bytes then .error .header
      else
        let header := input.take bytes
        if checksum (header.take (bytes - 4)) ≠ numberAt header (bytes - 4) 4 then .error .header
        else
          let layout := if version = 1 then DurableLayout.default
            else ⟨numberAt header 20 4, numberAt header 24 4⟩
          match layout.validate with
          | .error _ => .error (.corrupt "shard configuration")
          | .ok () => do
            let replication ← readReplication version header
            .ok (⟨numberAt header 12 8, layout, version, bytes, replication⟩, input.drop bytes)

end Legacy

/-! ### Versions 4 and 5 -/

namespace MemoryFormat

/-- A primary always has an epoch. -/
def primaryEpoch (metadata : ReplicationMetadata) : Bool :=
  metadata.role = .primary && metadata.epoch = .zero

def encodeHeader (sequence : Nat) (layout : DurableLayout)
    (replication : Option ReplicationMetadata) : Except FormatError Bytes :=
  match layout.validate with
  | .error _ => .error (.corrupt "layout")
  | .ok () =>
    if replication.any primaryEpoch then .error (.corrupt "primary epoch")
    else
      .ok (closeHeader (magic ++ (u32Bytes (if replication.isSome then 5 else 4) ++
        (u64Bytes sequence ++ (u32Bytes layout.shardCount ++ (u32Bytes layout.routingVersion ++
          (u32Bytes 2 ++ (replication.map encodeRole).getD [])))))))

def headerBytes : Nat → Option Nat
  | 4 => some 36
  | 5 => some 56
  | _ => none

/-- Only version 5 states a role. -/
def readReplication (version : Nat) (header : Bytes) :
    Except FormatError (Option ReplicationMetadata) :=
  if version = 5 then do
    let metadata ← readRole header 32 (.corrupt "reserved header bytes") (.corrupt "role")
    if primaryEpoch metadata then .error (.corrupt "primary epoch") else .ok (some metadata)
  else .ok none

def readHeader (input : Bytes) : Except FormatError (Header × Bytes) :=
  if input.length < 12 then .error .io
  else if input.take 8 ≠ magic then .error (.corrupt "magic")
  else
    let version := numberAt input 8 4
    match headerBytes version with
    | none => .error (.version version)
    | some bytes =>
      if input.length < bytes then .error .io
      else
        let header := input.take bytes
        if checksum (header.take (bytes - 4)) ≠ numberAt header (bytes - 4) 4 then
          .error (.corrupt "header checksum")
        else
          let layout : DurableLayout := ⟨numberAt header 20 4, numberAt header 24 4⟩
          match layout.validate with
          | .error _ => .error (.corrupt "layout")
          | .ok () =>
            if numberAt header 28 4 ≠ 2 then .error (.corrupt "record version")
            else do
              let replication ← readReplication version header
              .ok (⟨numberAt header 12 8, layout, version, bytes, replication⟩, input.drop bytes)

end MemoryFormat

/-! ### Version 7 -/

namespace ComposedFormat

def headerVersion : Nat := 7

def headerBytes : Nat := 64

/-- The header of the profile with version 1 records and batches of several owners. -/
def encodeHeader (sequence : Nat) (layout : DurableLayout)
    (replication : Option ReplicationMetadata) : Except FormatError Bytes :=
  match layout.validate with
  | .error _ => .error (.corrupt "shard configuration")
  | .ok () =>
    if replication.any (fun metadata => metadata.epoch = .zero) then
      .error (.corrupt "replication epoch")
    else
      .ok (closeHeader (magic ++ (u32Bytes headerVersion ++ (u32Bytes headerBytes ++
        (u64Bytes sequence ++ (u32Bytes layout.shardCount ++ (u32Bytes layout.routingVersion ++
          (u32Bytes 1 ++ (u32Bytes 1 ++
            (replication.map encodeRole).getD (List.replicate 20 0))))))))))

/-- Role, reserved bytes and epoch, where an independent log has neither. -/
def readRoleOrNone (header : Bytes) : Except FormatError (Option ReplicationMetadata) :=
  let epoch := epochAt header 44
  if header.field 41 3 ≠ [0, 0, 0] then .error (.corrupt "reserved header bytes")
  else if header.field 40 1 = [0] then
    if epoch = .zero then .ok none else .error (.corrupt "independent epoch")
  else if header.field 40 1 = [1] ∨ header.field 40 1 = [2] then
    if epoch = .zero then .error (.corrupt "replication epoch")
    else .ok (some ⟨if header.field 40 1 = [1] then .primary else .replica, epoch⟩)
  else .error (.corrupt "role")

/-- The reader also refuses a header of another profile. -/
def readHeader (input : Bytes) : Except FormatError (Header × Bytes) :=
  if input.length < 12 then .error .header
  else if input.take 8 ≠ magic then .error .header
  else if numberAt input 8 4 ≠ headerVersion then .error (.version (numberAt input 8 4))
  else if input.length < headerBytes then .error .header
  else
    let header := input.take headerBytes
    if numberAt header 12 4 ≠ headerBytes then .error (.corrupt "header length")
    else if checksum (header.take 60) ≠ numberAt header 60 4 then .error (.corrupt "header checksum")
    else
      let recordVersion := numberAt header 32 4
      if recordVersion ≠ 1 ∧ recordVersion ≠ 2 then .error (.corrupt "record version")
      else
        let capabilities := numberAt header 36 4
        if capabilities ≠ 0 ∧ capabilities ≠ 1 then .error (.corrupt "required capabilities")
        else
          match readRoleOrNone header with
          | .error error => .error error
          | .ok replication =>
            let layout : DurableLayout := ⟨numberAt header 24 4, numberAt header 28 4⟩
            match layout.validate with
            | .error _ => .error (.corrupt "shard configuration")
            | .ok () =>
              if recordVersion ≠ 1 ∨ capabilities ≠ 1 then
                .error (.corrupt "unsupported composed profile")
              else
                .ok (⟨numberAt header 16 8, layout, headerVersion, headerBytes, replication⟩,
                  input.drop headerBytes)

end ComposedFormat

/-! ### Fields of a header -/

theorem numberAt_skip {first rest : Bytes} {start size : Nat} (after : first.length ≤ start) :
    numberAt (first ++ rest) start size = numberAt rest (start - first.length) size := by
  unfold numberAt
  rw [Bytes.field_skip after]

theorem numberAt_u32 (fits : value ≤ u32Max) (rest : Bytes) :
    numberAt (u32Bytes value ++ rest) 0 4 = value := by
  unfold numberAt
  rw [Bytes.field_here (length_u32Bytes value), littleEndian_u32Bytes fits]

theorem numberAt_u64 (fits : value < 2 ^ 64) (rest : Bytes) :
    numberAt (u64Bytes value ++ rest) 0 8 = value := by
  unfold numberAt
  rw [Bytes.field_here (length_u64Bytes value)]
  exact Bytes.littleEndian_toLittleEndian (fits.trans_le (by decide))

/-- The checksum of a closed header is that of its fields. -/
theorem closeHeader_check {fields : Bytes} (bytes : Nat) (size : fields.length = bytes - 4) :
    checksum ((closeHeader fields).take (bytes - 4)) = numberAt (closeHeader fields) (bytes - 4) 4 := by
  unfold closeHeader
  rw [← size, List.take_left, numberAt_skip le_rfl, Nat.sub_self,
    ← List.append_nil (u32Bytes (checksum fields)),
    numberAt_u32 (Nat.le_pred_of_lt (checksum_lt fields))]

theorem length_roleBytes (tag : Byte) (epoch : Epoch) : (roleBytes tag epoch).length = 20 := by
  simp [roleBytes, epoch.sixteen]

/-- What stands at the fields of a role. -/
structure RoleAt (header : Bytes) (start : Nat) (tag : Byte) (epoch : Epoch) : Prop where
  tag_eq : header.field start 1 = [tag]
  reserved : header.field (start + 1) 3 = [0, 0, 0]
  epoch_eq : epochAt header (start + 4) = epoch

theorem roleAt (before after : Bytes) (tag : Byte) (epoch : Epoch) :
    RoleAt (before ++ (roleBytes tag epoch ++ after)) before.length tag epoch := by
  have found : (before ++ (roleBytes tag epoch ++ after)).field (before.length + 4) 16 =
      epoch.bytes := by
    unfold roleBytes
    rw [Bytes.field_skip (Nat.le_add_right ..), Nat.add_sub_cancel_left, List.append_assoc,
      Bytes.field_skip (by simp), List.append_assoc, Bytes.field_skip (by simp)]
    exact Bytes.field_here epoch.sixteen
  refine ⟨?_, ?_, ?_⟩
  · unfold roleBytes
    rw [Bytes.field_skip le_rfl, Nat.sub_self, List.append_assoc]
    exact Bytes.field_here rfl
  · unfold roleBytes
    rw [Bytes.field_skip (Nat.le_add_right ..), Nat.add_sub_cancel_left, List.append_assoc,
      Bytes.field_skip (by simp), List.append_assoc]
    exact Bytes.field_here rfl
  · unfold epochAt
    rw [dif_pos (by rw [found]; exact epoch.sixteen)]
    simp only [found]

/-- Role and epoch are read where they were written. -/
theorem readRole_encodeRole (before after : Bytes) (metadata : ReplicationMetadata)
    (reserved role : FormatError) :
    readRole (before ++ (encodeRole metadata ++ after)) before.length reserved role =
      .ok metadata := by
  obtain ⟨role, epoch⟩ := metadata
  have stands := roleAt before after role.tag epoch
  unfold readRole encodeRole
  rw [if_neg (not_not_intro stands.reserved), stands.tag_eq, stands.epoch_eq]
  cases role <;> rfl

/-! ### What a reader opens -/

/-- A complete header. -/
structure Opens (read : Bytes → Except FormatError (Header × Bytes)) (text : Bytes)
    (header : Header) : Prop where
  reads : ∀ rest, read (text ++ rest) = .ok (header, rest)
  length_eq : text.length = header.bytes
  short : ∀ cut, cut <+: text → cut.length < text.length → ∃ error, read cut = .error error

/-- The first twelve bytes of a longer beginning. -/
theorem numberAt_cut (begins : cut <+: text) (long : 12 ≤ cut.length) :
    numberAt cut 8 4 = numberAt text 8 4 := by
  obtain ⟨missing, rfl⟩ := begins
  unfold numberAt
  rw [Bytes.field_append (by omega)]

/-- The twelve bytes that every reader looks at first. -/
structure Begins (text : Bytes) (version : Nat) : Prop where
  long : ¬text.length < 12
  marked : ¬text.take 8 ≠ magic
  version_eq : numberAt text 8 4 = version

theorem Begins.append (begins : Begins text version) (rest : Bytes) :
    Begins (text ++ rest) version where
  long := by
    have long := begins.long
    rw [List.length_append]
    omega
  marked := by
    rw [List.take_append_of_le_length (Nat.le_of_lt_succ (by have := begins.long; omega))]
    exact begins.marked
  version_eq := by
    rw [← begins.version_eq]
    exact (numberAt_cut ⟨rest, rfl⟩ (Nat.le_of_not_lt begins.long)).symm

theorem Begins.shorten (begins : Begins text version) (cuts : cut <+: text) (long : ¬cut.length < 12) :
    Begins cut version where
  long := long
  marked := by
    have marked := begins.marked
    obtain ⟨missing, rfl⟩ := cuts
    rwa [List.take_append_of_le_length (by omega)] at marked
  version_eq := (numberAt_cut cuts (Nat.le_of_not_lt long)).trans begins.version_eq

theorem length_magic : magic.length = 8 := rfl

/-- The fields of a header that states a layout, and what its profile adds. -/
def layoutFields (version sequence : Nat) (layout : DurableLayout) (rest : Bytes) : Bytes :=
  magic ++ (u32Bytes version ++ (u64Bytes sequence ++ (u32Bytes layout.shardCount ++
    (u32Bytes layout.routingVersion ++ rest))))

def layoutHeader (version sequence : Nat) (layout : DurableLayout) (rest : Bytes) : Bytes :=
  closeHeader (layoutFields version sequence layout rest)

theorem length_layoutHeader (version sequence : Nat) (layout : DurableLayout) (rest : Bytes) :
    (layoutHeader version sequence layout rest).length = 32 + rest.length := by
  simp only [layoutHeader, layoutFields, closeHeader, List.length_append, length_magic,
    length_u32Bytes, length_u64Bytes]
  omega

/-- What the profile adds starts at the 28th byte. -/
theorem layoutHeader_eq (version sequence : Nat) (layout : DurableLayout) (rest : Bytes) :
    ∃ before after, before.length = 28 ∧
      layoutHeader version sequence layout rest = before ++ (rest ++ after) := by
  refine ⟨magic ++ (u32Bytes version ++ (u64Bytes sequence ++ (u32Bytes layout.shardCount ++
    u32Bytes layout.routingVersion))), u32Bytes (checksum (layoutFields version sequence layout rest)),
    by simp [length_magic], ?_⟩
  simp only [layoutHeader, layoutFields, closeHeader, List.append_assoc]

theorem numberAt_u32_skip (value : Nat) (rest : Bytes) (start size : Nat) :
    numberAt (u32Bytes value ++ rest) (start + 4) size = numberAt rest start size := by
  rw [numberAt_skip (by simp), length_u32Bytes, Nat.add_sub_cancel]

theorem numberAt_u64_skip (value : Nat) (rest : Bytes) (start size : Nat) :
    numberAt (u64Bytes value ++ rest) (start + 8) size = numberAt rest start size := by
  rw [numberAt_skip (by simp), length_u64Bytes, Nat.add_sub_cancel]

theorem numberAt_magic (rest : Bytes) (start size : Nat) :
    numberAt (magic ++ rest) (start + 8) size = numberAt rest start size := by
  rw [numberAt_skip (by simp [length_magic]), length_magic, Nat.add_sub_cancel]

/-- A whole header: its first bytes, its length, its checksum and its sequence. -/
structure Whole (headerBytes : Nat → Option Nat) (text : Bytes) (version sequence : Nat) : Prop
    extends Begins text version where
  sized : headerBytes version = some text.length
  check : checksum (text.take (text.length - 4)) = numberAt text (text.length - 4) 4
  sequence_eq : numberAt text 12 8 = sequence

/-- A whole header that states a layout. -/
structure StatesLayout (headerBytes : Nat → Option Nat) (text : Bytes) (version sequence : Nat)
    (layout : DurableLayout) : Prop extends Whole headerBytes text version sequence where
  layout_eq : (⟨numberAt text 20 4, numberAt text 24 4⟩ : DurableLayout) = layout

theorem DurableLayout.Valid.fits (valid : layout.Valid) :
    layout.shardCount ≤ u32Max ∧ layout.routingVersion ≤ u32Max := by
  refine ⟨valid.bounded.trans (by decide), ?_⟩
  rw [valid.version]
  decide

theorem statesLayout (headerBytes : Nat → Option Nat) (version : Nat) (valid : layout.Valid)
    (small : version ≤ u32Max) (fits : sequence < 2 ^ 64) (rest : Bytes)
    (sized : headerBytes version = some (32 + rest.length)) :
    StatesLayout headerBytes (layoutHeader version sequence layout rest) version sequence layout := by
  obtain ⟨count, routing⟩ := valid.fits
  rw [← length_layoutHeader version sequence layout rest] at sized
  have check := closeHeader_check (layoutHeader version sequence layout rest).length
    (show (layoutFields version sequence layout rest).length = _ by
      rw [layoutHeader, closeHeader, List.length_append, length_u32Bytes, Nat.add_sub_cancel])
  refine ⟨⟨⟨?_, ?_, ?_⟩, sized, check, ?_⟩, ?_⟩ <;>
    simp only [layoutHeader, layoutFields, closeHeader, List.append_assoc]
  · simp [length_magic]
    omega
  · exact not_not_intro (List.take_left' length_magic)
  all_goals
    simp only [numberAt_magic, numberAt_u32_skip, numberAt_u64_skip, numberAt_u32, numberAt_u64, *]

namespace Legacy

/-- The reader opens a whole header, by its fields, and refuses a shorter input. -/
theorem opens_of (whole : Whole headerBytes text version sequence)
    (layout_eq : (if version = 1 then DurableLayout.default
      else ⟨numberAt text 20 4, numberAt text 24 4⟩) = layout)
    (valid : layout.Valid) (role : readReplication version text = .ok replication) :
    Opens readHeaderWithLayout text ⟨sequence, layout, version, text.length, replication⟩ := by
  refine ⟨fun rest => ?_, rfl, fun cut cuts short => ?_⟩ <;> unfold readHeaderWithLayout
  · have more := whole.append rest
    rw [if_neg more.long, if_neg more.marked]
    dsimp only
    rw [more.version_eq, whole.sized]
    dsimp only
    rw [if_neg (by rw [List.length_append]; omega), List.take_left, List.drop_left,
      if_neg (not_not_intro whole.check), layout_eq, DurableLayout.validate_eq_ok.mpr valid, role,
      whole.sequence_eq]
    rfl
  · by_cases tiny : cut.length < 12
    · exact ⟨_, if_pos tiny⟩
    have less := whole.shorten cuts tiny
    rw [if_neg tiny, if_neg less.marked]
    dsimp only
    rw [less.version_eq, whole.sized]
    exact ⟨_, if_pos short⟩

theorem opens (wrote : writeHeaderWithReplication sequence layout replication = .ok text)
    (fits : sequence < 2 ^ 64) :
    headerBytes (if replication.isSome then 3 else 2) = some text.length ∧
      Opens readHeaderWithLayout text
        ⟨sequence, layout, if replication.isSome then 3 else 2, text.length, replication⟩ := by
  unfold writeHeaderWithReplication at wrote
  split at wrote
  · cases wrote
  rename_i checked
  have valid := DurableLayout.validate_eq_ok.mp checked
  cases wrote
  -- With or without a role, the version tells the length.
  cases replication with
  | none =>
    have states := statesLayout headerBytes 2 valid (by decide) fits [] rfl
    exact ⟨states.sized, opens_of states.toWhole states.layout_eq valid (if_neg (by decide))⟩
  | some metadata =>
    have states := statesLayout headerBytes 3 valid (by decide) fits (encodeRole metadata)
      (by rw [encodeRole, length_roleBytes]; rfl)
    refine ⟨states.sized, opens_of states.toWhole states.layout_eq valid ?_⟩
    obtain ⟨before, after, size, same⟩ := layoutHeader_eq 3 sequence layout (encodeRole metadata)
    show readReplication 3 (layoutHeader 3 sequence layout (encodeRole metadata)) = _
    rw [same, readReplication, if_pos rfl, ← size, readRole_encodeRole]
    rfl

theorem opens_first (fits : sequence < 2 ^ 64) :
    Opens readHeaderWithLayout (writeHeader sequence) ⟨sequence, .default, 1, 24, none⟩ := by
  have size : (writeHeader sequence).length = 24 := by
    simp [writeHeader, closeHeader, length_magic]
  have check : checksum ((writeHeader sequence).take ((writeHeader sequence).length - 4)) =
      numberAt (writeHeader sequence) ((writeHeader sequence).length - 4) 4 :=
    closeHeader_check _ (by simp [size, length_magic])
  have fields : numberAt (writeHeader sequence) 8 4 = 1 ∧
      numberAt (writeHeader sequence) 12 8 = sequence := by
    simp only [writeHeader, closeHeader, List.append_assoc]
    constructor <;> simp (disch := first | assumption | decide) only [numberAt_magic,
      numberAt_u32_skip, numberAt_u32, numberAt_u64]
  have whole : Whole headerBytes (writeHeader sequence) 1 sequence :=
    ⟨⟨by omega, not_not_intro (List.take_left' length_magic), fields.1⟩, congrArg some size.symm, check,
      fields.2⟩
  have opened := opens_of whole (if_pos rfl) DurableLayout.valid_default (if_neg (by decide))
  rwa [size] at opened

end Legacy

namespace MemoryFormat

theorem opens_of (states : StatesLayout headerBytes text version sequence layout) (valid : layout.Valid)
    (second : numberAt text 28 4 = 2) (role : readReplication version text = .ok replication) :
    Opens readHeader text ⟨sequence, layout, version, text.length, replication⟩ := by
  refine ⟨fun rest => ?_, rfl, fun cut cuts short => ?_⟩ <;> unfold readHeader
  · have more := states.append rest
    rw [if_neg more.long, if_neg more.marked]
    dsimp only
    rw [more.version_eq, states.sized]
    dsimp only
    rw [if_neg (by rw [List.length_append]; omega), List.take_left, List.drop_left,
      if_neg (not_not_intro states.check), states.layout_eq, DurableLayout.validate_eq_ok.mpr valid]
    rw [if_neg (not_not_intro second), role, states.sequence_eq]
    rfl
  · by_cases tiny : cut.length < 12
    · exact ⟨_, if_pos tiny⟩
    have less := states.shorten cuts tiny
    rw [if_neg tiny, if_neg less.marked]
    dsimp only
    rw [less.version_eq, states.sized]
    exact ⟨_, if_pos short⟩

theorem opens (wrote : encodeHeader sequence layout replication = .ok text)
    (fits : sequence < 2 ^ 64) :
    headerBytes (if replication.isSome then 5 else 4) = some text.length ∧
      Opens readHeader text
        ⟨sequence, layout, if replication.isSome then 5 else 4, text.length, replication⟩ := by
  unfold encodeHeader at wrote
  split at wrote
  · cases wrote
  rename_i checked
  have valid := DurableLayout.validate_eq_ok.mp checked
  split at wrote
  · cases wrote
  rename_i refused
  cases wrote
  have second (version : Nat) (role : Bytes) :
      numberAt (layoutHeader version sequence layout (u32Bytes 2 ++ role)) 28 4 = 2 := by
    obtain ⟨before, after, size, same⟩ := layoutHeader_eq version sequence layout (u32Bytes 2 ++ role)
    rw [same, numberAt_skip (by omega), size, Nat.sub_self, List.append_assoc]
    exact numberAt_u32 (by decide) _
  cases replication with
  | none =>
    have states := statesLayout headerBytes 4 valid (by decide) fits (u32Bytes 2 ++ []) rfl
    exact ⟨states.sized, opens_of states valid (second 4 []) (if_neg (by decide))⟩
  | some metadata =>
    have states := statesLayout headerBytes 5 valid (by decide) fits (u32Bytes 2 ++ encodeRole metadata)
      (by rw [List.length_append, encodeRole, length_roleBytes, length_u32Bytes]; rfl)
    refine ⟨states.sized, opens_of states valid (second 5 _) ?_⟩
    obtain ⟨before, after, size, same⟩ :=
      layoutHeader_eq 5 sequence layout (u32Bytes 2 ++ encodeRole metadata)
    show readReplication 5 (layoutHeader 5 sequence layout (u32Bytes 2 ++ encodeRole metadata)) = _
    have deeper : (before ++ u32Bytes 2).length = 32 := by rw [List.length_append, size]; rfl
    rw [same, readReplication, if_pos rfl, ← deeper, List.append_assoc, ← List.append_assoc before,
      readRole_encodeRole]
    exact if_neg refused

end MemoryFormat

namespace ComposedFormat

/-- The fields of the composed header, and its role. -/
def composedFields (sequence : Nat) (layout : DurableLayout) (role : Bytes) : Bytes :=
  magic ++ (u32Bytes headerVersion ++ (u32Bytes headerBytes ++ (u64Bytes sequence ++
    (u32Bytes layout.shardCount ++ (u32Bytes layout.routingVersion ++ (u32Bytes 1 ++ (u32Bytes 1 ++
      role)))))))

theorem length_composedHeader (sequence : Nat) (layout : DurableLayout) (role : Bytes)
    (twenty : role.length = 20) :
    (closeHeader (composedFields sequence layout role)).length = headerBytes := by
  simp only [closeHeader, composedFields, List.length_append, length_magic, length_u32Bytes,
    length_u64Bytes, twenty]
  rfl

theorem readRoleOrNone_some {before after : Bytes} (forty : before.length = 40)
    {metadata : ReplicationMetadata} (epoch : metadata.epoch ≠ .zero) :
    readRoleOrNone (before ++ (encodeRole metadata ++ after)) = .ok (some metadata) := by
  obtain ⟨role, found⟩ := metadata
  have stands := roleAt before after role.tag found
  rw [forty] at stands
  unfold readRoleOrNone encodeRole
  rw [if_neg (not_not_intro stands.reserved), stands.tag_eq, stands.epoch_eq]
  have nonzero : found ≠ .zero := epoch
  cases role <;> simp [Role.tag, nonzero]

theorem readRoleOrNone_none {before after : Bytes} (forty : before.length = 40) :
    readRoleOrNone (before ++ (List.replicate 20 0 ++ after)) = .ok none := by
  have stands := roleAt before after 0 .zero
  rw [forty] at stands
  show readRoleOrNone (before ++ (roleBytes 0 .zero ++ after)) = _
  unfold readRoleOrNone
  rw [if_neg (not_not_intro stands.reserved), if_pos stands.tag_eq, stands.epoch_eq, if_pos rfl]

/-- The reader on a whole header. -/
theorem opens_of (role : Bytes) (valid : layout.Valid) (fits : sequence < 2 ^ 64)
    (twenty : role.length = 20) (read : ∀ before after : Bytes, before.length = 40 →
      readRoleOrNone (before ++ (role ++ after)) = .ok replication) :
    Opens readHeader (closeHeader (composedFields sequence layout role))
      ⟨sequence, layout, headerVersion, headerBytes, replication⟩ := by
  obtain ⟨count, routing⟩ := valid.fits
  have size := length_composedHeader sequence layout role twenty
  have check : checksum ((closeHeader (composedFields sequence layout role)).take 60) =
      numberAt (closeHeader (composedFields sequence layout role)) 60 4 :=
    closeHeader_check 64 (by simp [composedFields, length_magic, twenty])
  have found : readRoleOrNone (closeHeader (composedFields sequence layout role)) =
      .ok replication := by
    have apart := read (magic ++ (u32Bytes headerVersion ++ (u32Bytes headerBytes ++
      (u64Bytes sequence ++ (u32Bytes layout.shardCount ++ (u32Bytes layout.routingVersion ++
        (u32Bytes 1 ++ u32Bytes 1))))))) (u32Bytes (checksum (composedFields sequence layout role)))
      (by simp [length_magic])
    simpa only [closeHeader, composedFields, List.append_assoc] using apart
  set text := closeHeader (composedFields sequence layout role) with isText
  obtain ⟨version, length, base, shards, rule, record, capabilities⟩ :
      numberAt text 8 4 = headerVersion ∧ numberAt text 12 4 = headerBytes ∧
        numberAt text 16 8 = sequence ∧ numberAt text 24 4 = layout.shardCount ∧
        numberAt text 28 4 = layout.routingVersion ∧ numberAt text 32 4 = 1 ∧
        numberAt text 36 4 = 1 := by
    simp only [isText, closeHeader, composedFields, List.append_assoc]
    refine ⟨?_, ?_, ?_, ?_, ?_, ?_, ?_⟩ <;>
      simp (disch := first | assumption | decide) only [numberAt_magic, numberAt_u32_skip,
        numberAt_u64_skip, numberAt_u32, numberAt_u64]
  have layout_eq : (⟨layout.shardCount, layout.routingVersion⟩ : DurableLayout) = layout := rfl
  have sixty : text.length = 64 := size
  have begins : Begins text headerVersion :=
    ⟨by omega, not_not_intro (List.take_left' length_magic), version⟩
  refine ⟨fun rest => ?_, size, fun cut cuts short => ?_⟩
  · have more := begins.append rest
    unfold readHeader
    rw [if_neg more.long, if_neg more.marked, if_neg (not_not_intro more.version_eq),
      if_neg (by rw [List.length_append, size]; omega), List.take_left' size, List.drop_left' size]
    rw [if_neg (not_not_intro length), if_neg (not_not_intro check), record, capabilities, found,
      if_neg (by decide), if_neg (by decide), shards, rule, layout_eq]
    dsimp only
    rw [DurableLayout.validate_eq_ok.mpr valid]
    dsimp only
    rw [if_neg (by decide), base]
  · unfold readHeader
    by_cases tiny : cut.length < 12
    · exact ⟨_, if_pos tiny⟩
    have less := begins.shorten cuts tiny
    rw [if_neg tiny, if_neg less.marked, if_neg (not_not_intro less.version_eq)]
    exact ⟨_, if_pos (size ▸ short)⟩

theorem opens (wrote : encodeHeader sequence layout replication = .ok text)
    (fits : sequence < 2 ^ 64) :
    some headerBytes = some text.length ∧
      Opens readHeader text ⟨sequence, layout, headerVersion, text.length, replication⟩ := by
  unfold encodeHeader at wrote
  split at wrote
  · cases wrote
  rename_i checked
  have valid := DurableLayout.validate_eq_ok.mp checked
  split at wrote
  · cases wrote
  rename_i refused
  cases wrote
  have each (role : Bytes) (twenty : role.length = 20) (read : ∀ before after : Bytes,
      before.length = 40 → readRoleOrNone (before ++ (role ++ after)) = .ok replication) := by
    have opened := opens_of role valid fits twenty read
    rw [← length_composedHeader sequence layout role twenty] at opened
    exact And.intro (congrArg some (length_composedHeader sequence layout role twenty).symm) opened
  cases replication with
  | none => exact each (List.replicate 20 0) rfl fun _ _ => readRoleOrNone_none
  | some metadata =>
    exact each (encodeRole metadata) (length_roleBytes _ _) fun _ _ forty =>
      readRoleOrNone_some forty (by simpa using refused)

end ComposedFormat

end Sider
