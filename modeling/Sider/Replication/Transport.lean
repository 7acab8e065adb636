/-
**Round trip and isolation of replication frames.**

`Carried` says what a transport makes of the body of a message: its kind and size pass the header check
and the body reads back as the message. Every message that a transport encodes is carried by it
(`encodeBody_carried`), so its frame decodes to the message and no other transport accepts it
(`transport_round_trip`). The frame of a batch exists exactly when its log record does (`batchFrame_iff`,
`memoryBatchFrame_iff`).
-/

import Sider.Replication.Protocol

open Cursor (Reads)

namespace Sider.Replication.Protocol

variable {label frame body text key : Bytes} {message : Message} {kind : Byte}
  {sequence length maxSnapshotBytes maxRecordBytes value recordVersion : Nat}
  {mutations : List MemoryMutation} {resolved : ResolvedBatch} {origin : MutationOrigin}
  {other : Transport}

/-! ### What machine types hold -/

def TypedCursor (cursor : Cursor) : Prop := cursor.sequence < 2 ^ 64

structure Hello.Typed (hello : Hello) : Prop where
  recordVersion : hello.recordVersion ≤ u32Max
  shardCount : hello.shardCount ≤ u32Max
  routingVersion : hello.routingVersion ≤ u32Max
  maxRecordBytes : hello.maxRecordBytes ≤ u32Max
  maxMutations : hello.maxMutations ≤ u32Max
  maxSnapshotBytes : hello.maxSnapshotBytes < 2 ^ 64
  cursor : ∀ cursor, hello.cursor = some cursor → TypedCursor cursor

/-- The numbers of a message are those its machine types hold. -/
def Message.Typed : Message → Prop
  | .hello greeting => greeting.Typed
  | .composedHello greeting => greeting.base.Typed ∧ greeting.aofHeaderVersion ≤ u32Max ∧
      greeting.requiredCapabilities ≤ u32Max
  | .exports _ maxRecordBytes maxSnapshotBytes => maxRecordBytes ≤ u32Max ∧ maxSnapshotBytes < 2 ^ 64
  | .memoryExport _ recordVersion maxRecordBytes maxSnapshotBytes => recordVersion ≤ u32Max ∧
      maxRecordBytes ≤ u32Max ∧ maxSnapshotBytes < 2 ^ 64
  | .composedExport _ recordVersion aofHeaderVersion requiredCapabilities maxRecordBytes
      maxSnapshotBytes => recordVersion ≤ u32Max ∧ aofHeaderVersion ≤ u32Max ∧
      requiredCapabilities ≤ u32Max ∧ maxRecordBytes ≤ u32Max ∧ maxSnapshotBytes < 2 ^ 64
  | .memorySnapshotEntry mutation => mutation.Typed
  | .memoryBatch sequence _ mutations => sequence < 2 ^ 64 ∧ ∀ mutation ∈ mutations, mutation.Typed
  | .snapshotEntry mutation => mutation.Typed
  | .batch sequence resolved => sequence < 2 ^ 64 ∧ ∀ mutation ∈ resolved.mutations, mutation.Typed
  | .continues cursor | .ack cursor | .heartbeat cursor | .promoted cursor => TypedCursor cursor
  | .fullStart cursor entries => TypedCursor cursor ∧ entries < 2 ^ 64
  | .fullEnd cursor entries digest => TypedCursor cursor ∧ entries < 2 ^ 64 ∧ digest ≤ u32Max
  | .reject _ | .statusRequest | .promote => True
  | .status _ cursor upstreamSequence _ backlogBytes fullSyncs partialSyncs => TypedCursor cursor ∧
      (∀ sequence, upstreamSequence = some sequence → sequence < 2 ^ 64) ∧ backlogBytes < 2 ^ 64 ∧
      fullSyncs < 2 ^ 64 ∧ partialSyncs < 2 ^ 64

/-! ### Fields -/

section Fields

variable {transport : Transport} {limits : Limits}

theorem reads_byte (value : Byte) : Reads Fields.byte [value] value.val :=
  Reads.digit _ value

theorem reads_u32 (fits : value ≤ u32Max) : Reads Fields.u32 (u32Bytes value) value :=
  Reads.number _ (Nat.lt_of_le_pred (by decide) fits)

theorem reads_u64 (fits : value < 2 ^ 64) : Reads Fields.u64 (u64Bytes value) value :=
  Reads.number _ (fits.trans_le (by decide))

theorem reads_boolean (value : Bool) : Reads Fields.boolean [encodeBool value] value := by
  cases value with
  | false => exact (reads_byte 0).last (Reads.pure _)
  | true => exact (reads_byte 1).last (Reads.pure _)

theorem reads_epoch (epoch : Epoch) : Reads Fields.epoch epoch.bytes epoch := by
  refine (Reads.take_of_length _ epoch.sixteen).last ?_
  rw [dif_pos epoch.sixteen]
  exact Reads.pure _

theorem reads_cursor {cursor : Cursor} (typed : TypedCursor cursor) :
    Reads Fields.cursor (encodeCursor cursor) cursor :=
  (reads_epoch cursor.epoch).bind ((reads_u64 typed).map (Cursor.mk cursor.epoch))

theorem reads_label (valid : isLabel label = true) :
    Reads Fields.label (encodeLabel label) label := by
  have short : label.length ≤ 32 := by
    simp only [isLabel, Bool.and_eq_true, decide_eq_true_eq] at valid
    exact valid.1.2
  have size : (Fin.ofNat 256 label.length).val = label.length := Nat.mod_eq_of_lt (by omega)
  have first := reads_byte (Fin.ofNat 256 label.length)
  rw [size] at first
  exact first.bind (Reads.take _ label)

theorem reads_optionalCursor {cursor : Option Cursor}
    (typed : ∀ found, cursor = some found → TypedCursor found) :
    Reads Fields.optionalCursor (encodeOptionalCursor cursor) cursor := by
  cases cursor with
  | none => exact (reads_byte 0).last (Reads.pure _)
  | some found => exact (reads_byte 1).bind ((reads_cursor (typed found rfl)).map some)

theorem reads_hello {hello : Hello} (typed : hello.Typed) (label : isLabel hello.siderVersion = true) :
    Reads Fields.hello (helloBytes hello) hello :=
  (reads_label label).bind ((reads_u32 typed.recordVersion).bind ((reads_u32 typed.shardCount).bind
    ((reads_u32 typed.routingVersion).bind ((reads_u32 typed.maxRecordBytes).bind
      ((reads_u32 typed.maxMutations).bind ((reads_u64 typed.maxSnapshotBytes).bind
        ((reads_optionalCursor typed.cursor).map fun cursor => (⟨hello.siderVersion,
          hello.recordVersion, hello.shardCount, hello.routingVersion, hello.maxRecordBytes,
          hello.maxMutations, hello.maxSnapshotBytes, cursor⟩ : Hello))))))))

theorem reads_reject (reason : Reject) : Reads Fields.reject [reason.code] reason := by
  cases reason <;> exact (reads_byte _).last (Reads.pure _)

theorem reads_checked (encoded : encodeProfile transport limits message = .ok frame) :
    Reads (Fields.checked transport limits message) [] message := by
  intro rest
  unfold Fields.checked
  rw [encoded]
  rfl

end Fields

/-! ### Bodies -/

section Bodies

variable {transport : Transport} {limits : Limits}

/-- The message of a body whose kind the header has declared. -/
def decodeBody (transport : Transport) (limits : Limits) (kind : Nat) (body : Bytes) :
    Except Error Message :=
  if kind = 4 ∨ kind = 6 then decodeRecord transport limits kind body
  else Cursor.whole (Fields.message transport limits kind) (.invalid "bytes after message") body

/-- What a transport makes of the body of a message. -/
structure Carried (transport : Transport) (limits : Limits) (message : Message) (kind : Byte)
    (body : Bytes) : Prop where
  range : 1 ≤ kind.val ∧ kind.val ≤ 14
  filled : 0 < body.length
  size : validSize transport kind.val body.length = true
  decodes : decodeBody transport limits kind.val body = .ok message

/-- A body that is read field by field. -/
theorem Carried.fields (range : 1 ≤ kind.val ∧ kind.val ≤ 14)
    (plain : ¬(kind.val = 4 ∨ kind.val = 6)) (filled : 0 < body.length)
    (size : validSize transport kind.val body.length = true)
    (reads : Reads (Fields.message transport limits kind.val) body message) :
    Carried transport limits message kind body := by
  refine ⟨range, filled, size, ?_⟩
  unfold decodeBody
  rw [if_neg plain]
  exact Cursor.whole_of_reads reads _

theorem length_encodeCursor (cursor : Cursor) : (encodeCursor cursor).length = 24 := by
  simp [encodeCursor, cursor.epoch.sixteen]

theorem length_encodeLabel (valid : isLabel label = true) :
    2 ≤ (encodeLabel label).length ∧ (encodeLabel label).length ≤ 33 := by
  simp only [isLabel, Bool.and_eq_true, decide_eq_true_eq, Bool.not_eq_true', List.isEmpty_eq_false_iff]
    at valid
  have some_ := List.length_pos_iff.mpr valid.1.1
  simp only [encodeLabel, List.length_cons]
  omega

theorem encodeHello_eq_ok {hello : Hello} (encoded : encodeHello hello = .ok body) :
    isLabel hello.siderVersion = true ∧ body = helloBytes hello := by
  unfold encodeHello at encoded
  split at encoded
  · cases encoded
  · rename_i accepted
    cases encoded
    refine ⟨?_, rfl⟩
    by_contra bad
    exact accepted (.inl (by simpa using bad))

theorem length_helloBytes {hello : Hello} (valid : isLabel hello.siderVersion = true) :
    0 < (helloBytes hello).length ∧ (helloBytes hello).length ≤ 86 := by
  have label := length_encodeLabel valid
  have cursor : (encodeOptionalCursor hello.cursor).length ≤ 25 := by
    cases hello.cursor with
    | none => decide
    | some cursor =>
      simp only [encodeOptionalCursor, List.length_cons, length_encodeCursor]
      omega
  simp only [helloBytes, List.length_append, length_u32Bytes, length_u64Bytes]
  omega

/-! ### Records -/

theorem frameRecord_mono {first second : Sider.Limits} {size : Nat}
    {payload : Except FormatError Bytes} (more : first.maxRecordBytes ≤ second.maxRecordBytes)
    (framed : frameRecord first size payload = .ok text) :
    frameRecord second size payload = .ok text := by
  obtain ⟨configured, fixed, body, found, rfl⟩ := frameRecord_eq_ok framed
  unfold frameRecord
  rw [if_neg (by omega), found]
  rfl

theorem inFrame_le (limits : Limits) : limits.inFrame.maxRecordBytes ≤ limits.record.maxRecordBytes :=
  Nat.min_le_left _ _

/-- A record accepted for the frame is accepted under the record limit. -/
theorem encode_inFrame {record : Record Mutation}
    (encoded : record.encode limits.inFrame = .ok text) :
    record.encode limits.record = .ok text := by
  obtain ⟨size, sized, framed⟩ := bind_eq_ok encoded
  have same : record.size limits.record = .ok size := by
    cases record <;> exact sized
  unfold Record.encode
  rw [same]
  exact frameRecord_mono (inFrame_le limits) framed

theorem encodeMemory_inFrame {record : Record MemoryMutation}
    (encoded : record.encodeMemory limits.inFrame = .ok text) :
    record.encodeMemory limits.record = .ok text := by
  obtain ⟨size, sized, framed⟩ := bind_eq_ok encoded
  have same : record.memorySize limits.record = .ok size := by
    cases record <;> exact sized
  unfold Record.encodeMemory
  rw [same]
  exact frameRecord_mono (inFrame_le limits) framed

theorem recordBody_eq_ok {found : Byte} {encoded : Except FormatError Bytes}
    (ok : recordBody kind encoded = .ok (found, body)) : kind = found ∧ encoded = .ok body := by
  unfold recordBody at ok
  split at ok
  · cases ok
    exact ⟨rfl, rfl⟩
  · cases ok

/-- A body that is one record of the log is carried as one message. -/
theorem Carried.record {μ : Type} {decode : Bytes → Except FormatError (Record μ)} {record : Record μ}
    (framed : IsFrame decode limits.record body record) (isRecord : kind.val = 4 ∨ kind.val = 6)
    (decodes : ¬(body.length < recordFraming ∨ numberAt body 0 4 ≠ body.length - recordFraming) →
      (∀ incomplete message,
        wholeRecord decode limits.record incomplete body message = message record) →
      decodeRecord transport limits kind.val body = .ok message) :
    Carried transport limits message kind body := by
  have read := framed.frames.reads []
  obtain ⟨payload, admits, _, rfl⟩ := framed
  have size := length_frame payload.length payload
  have length : numberAt (frame payload.length payload) 0 4 = payload.length := numberAt_u32 admits.u32 _
  refine ⟨by omega, by omega, ?_, ?_⟩
  · rcases isRecord with same | same <;> rw [same] <;> rfl
  · unfold decodeBody
    rw [if_pos isRecord]
    refine decodes (by rw [length, size, recordFraming]; omega) fun incomplete message => ?_
    rw [List.append_nil] at read
    have found : readRecord decode limits.record (frame payload.length payload) =
        .ok (.item record []) := read
    unfold wholeRecord
    rw [found]
    rfl

/-! ### Messages -/

/-- Every transport that encodes the message carries it. -/
def Carries (message : Message) : Prop :=
  ∀ ⦃transport limits frame kind body⦄, message.Typed →
    encodeProfile transport limits message = .ok frame →
    encodeBody transport limits.inFrame message = .ok (kind, body) →
    Carried transport limits message kind body

theorem carries_batch : Carries (.batch sequence resolved) := by
  intro transport limits frame kind body typed _ encoded
  obtain ⟨other, encoded⟩ := else_eq_ok encoded
  obtain ⟨rfl, record⟩ := recordBody_eq_ok encoded
  refine .record (Record.encode_isFrame (encode_inFrame record) typed) (.inr rfl) fun sized whole => ?_
  unfold decodeRecord
  rw [if_neg sized, if_neg other, whole]
  rfl

theorem carries_snapshotEntry {mutation : Mutation} : Carries (.snapshotEntry mutation) := by
  intro transport limits frame kind body typed _ encoded
  cases mutation with
  | put key value deadline =>
    obtain ⟨other, encoded⟩ := else_eq_ok encoded
    obtain ⟨rfl, record⟩ := recordBody_eq_ok encoded
    refine .record (Record.encode_isFrame (encode_inFrame record) typed) (.inl rfl) fun sized whole => ?_
    unfold decodeRecord
    rw [if_neg sized, if_neg other, whole]
    rfl
  | delete key => cases encoded

theorem carries_memoryBatch : Carries (.memoryBatch sequence origin mutations) := by
  intro transport limits frame kind body typed _ encoded
  simp only [encodeBody] at encoded
  split_ifs at encoded with own
  obtain ⟨rfl, record⟩ := recordBody_eq_ok encoded
  refine .record (Record.encodeMemory_framed (encodeMemory_inFrame record) typed) (.inr rfl)
    fun sized whole => ?_
  unfold decodeRecord
  rw [if_neg sized, if_pos own, whole]
  rfl

theorem carries_memorySnapshotEntry {mutation : MemoryMutation} :
    Carries (.memorySnapshotEntry mutation) := by
  intro transport limits frame kind body typed _ encoded
  simp only [encodeBody] at encoded
  split_ifs at encoded with own
  obtain ⟨rfl, record⟩ := recordBody_eq_ok encoded
  refine .record (Record.encodeMemory_framed (encodeMemory_inFrame record) typed) (.inl rfl)
    fun sized whole => ?_
  unfold decodeRecord
  rw [if_neg sized, if_pos own.1, whole]
  exact if_pos ⟨rfl, own.2⟩

/-- A message that is one cursor. -/
theorem Carried.cursor {cursor : Cursor} {make : Cursor → Message} (typed : TypedCursor cursor)
    (range : 1 ≤ kind.val ∧ kind.val ≤ 14) (plain : ¬(kind.val = 4 ∨ kind.val = 6))
    (size : validSize transport kind.val 24 = true)
    (reader : Fields.message transport limits kind.val = do return make (← Fields.cursor)) :
    Carried transport limits (make cursor) kind (encodeCursor cursor) := by
  refine .fields range plain ?_ ?_ ?_
  · rw [length_encodeCursor]
    decide
  · rw [length_encodeCursor]
    exact size
  · rw [reader]
    exact (reads_cursor typed).map make

theorem carries_hello {greeting : Hello} : Carries (.hello greeting) := by
  intro transport limits frame kind body typed framed encoded
  obtain ⟨other, encoded⟩ := else_eq_ok encoded
  obtain ⟨_, encoded⟩ := else_eq_ok encoded
  obtain ⟨text, written, same⟩ := bind_eq_ok encoded
  cases same
  obtain ⟨label, rfl⟩ := encodeHello_eq_ok written
  obtain ⟨filled, short⟩ := length_helloBytes label
  refine .fields (by decide) (by decide) filled ?_ ((reads_hello typed label).last ?_)
  · simp [validSize, other, short]
  · rw [if_neg other]
    exact reads_checked framed

theorem carries_composedHello {greeting : ComposedHello} : Carries (.composedHello greeting) := by
  intro transport limits frame kind body typed framed encoded
  obtain ⟨own, encoded⟩ := else_eq_ok encoded
  obtain rfl := not_not.mp own
  obtain ⟨_, encoded⟩ := else_eq_ok encoded
  obtain ⟨text, written, same⟩ := bind_eq_ok encoded
  cases same
  obtain ⟨label, rfl⟩ := encodeHello_eq_ok written
  obtain ⟨filled, short⟩ := length_helloBytes label
  refine .fields (by decide) (by decide) ?_ ?_ ((reads_hello typed.1 label).bind ?_)
  · rw [List.length_append]
    omega
  · simp [validSize]
    omega
  · exact (reads_u32 typed.2.1).bind ((reads_u32 typed.2.2).last (reads_checked framed))

/-- An export request: a label and numbers. -/
theorem Carried.export {bad : Prop} {rest : Bytes} (accepted : ¬((!isLabel label) = true ∨ bad))
    (size : ∀ length, length ≤ 33 + rest.length → validSize transport 10 length = true)
    (reads : isLabel label = true →
      Reads (Fields.message transport limits 10) (encodeLabel label ++ rest) message) :
    Carried transport limits message 10 (encodeLabel label ++ rest) := by
  have valid : isLabel label = true := by simpa using (not_or.mp accepted).1
  have short := length_encodeLabel valid
  refine .fields (by decide) (by decide) ?_ (size _ ?_) (reads valid)
  all_goals
    rw [List.length_append]
    omega

theorem carries_exports : Carries (.exports label maxRecordBytes maxSnapshotBytes) := by
  intro transport limits frame kind body typed framed encoded
  obtain ⟨own, encoded⟩ := else_eq_ok encoded
  obtain rfl := not_not.mp own
  obtain ⟨accepted, encoded⟩ := else_eq_ok encoded
  cases encoded
  refine .export accepted (fun length short => by simpa [validSize] using short) fun valid => ?_
  exact (reads_label valid).bind ((reads_u32 typed.1).bind
    ((reads_u64 typed.2).last (reads_checked framed)))

theorem carries_memoryExport :
    Carries (.memoryExport label recordVersion maxRecordBytes maxSnapshotBytes) := by
  intro transport limits frame kind body typed framed encoded
  obtain ⟨own, encoded⟩ := else_eq_ok encoded
  obtain rfl := not_not.mp own
  obtain ⟨accepted, encoded⟩ := else_eq_ok encoded
  cases encoded
  refine .export accepted (fun length short => by simpa [validSize] using short) fun valid => ?_
  exact (reads_label valid).bind ((reads_u32 typed.1).bind ((reads_u32 typed.2.1).bind
    ((reads_u64 typed.2.2).last (reads_checked framed))))

theorem carries_composedExport {aofHeaderVersion requiredCapabilities : Nat} :
    Carries (.composedExport label recordVersion aofHeaderVersion requiredCapabilities maxRecordBytes
      maxSnapshotBytes) := by
  intro transport limits frame kind body typed framed encoded
  obtain ⟨own, encoded⟩ := else_eq_ok encoded
  obtain rfl := not_not.mp own
  obtain ⟨accepted, encoded⟩ := else_eq_ok encoded
  cases encoded
  obtain ⟨first, second, third, fourth, fifth⟩ := typed
  refine .export accepted (fun length short => by simpa [validSize] using short) fun valid => ?_
  exact (reads_label valid).bind ((reads_u32 first).bind ((reads_u32 second).bind
    ((reads_u32 third).bind ((reads_u32 fourth).bind ((reads_u64 fifth).last (reads_checked framed))))))

theorem carries_status {readonly connected : Bool} {cursor : Cursor} {upstreamSequence : Option Nat}
    {backlogBytes fullSyncs partialSyncs : Nat} :
    Carries (.status readonly cursor upstreamSequence connected backlogBytes fullSyncs partialSyncs) := by
  intro transport limits frame kind body typed _ encoded
  obtain ⟨first, second, third, fourth, fifth⟩ := typed
  cases encoded
  have upstream : upstreamSequence.getD 0 < 2 ^ 64 := by
    cases upstreamSequence with
    | none => decide
    | some sequence => exact second sequence rfl
  refine .fields (by decide) (by decide) (Nat.succ_pos _) (by simp [length_encodeCursor, validSize]) ?_
  refine (reads_boolean readonly).bind ((reads_cursor first).bind ((reads_boolean _).bind
    ((reads_u64 upstream).bind ((Reads.reject ?_ _).skip ((reads_boolean connected).bind
      ((reads_u64 third).bind ((reads_u64 fourth).bind ((reads_u64 fifth).last ?_))))))))
  · cases upstreamSequence <;> simp
  · cases upstreamSequence <;> exact Reads.pure _

/-- **Every message a transport encodes is carried by it.** -/
theorem encodeBody_carried : ∀ message, Carries message := by
  intro message
  cases message with
  | hello => exact carries_hello
  | composedHello => exact carries_composedHello
  | exports => exact carries_exports
  | memoryExport => exact carries_memoryExport
  | composedExport => exact carries_composedExport
  | memorySnapshotEntry => exact carries_memorySnapshotEntry
  | memoryBatch => exact carries_memoryBatch
  | snapshotEntry => exact carries_snapshotEntry
  | batch => exact carries_batch
  | status => exact carries_status
  | continues | ack | heartbeat | promoted =>
    intro transport limits frame kind body typed _ encoded
    cases encoded
    exact .cursor typed (by decide) (by decide) rfl rfl
  | fullStart cursor entries =>
    intro transport limits frame kind body typed _ encoded
    cases encoded
    have size : (encodeCursor cursor ++ u64Bytes entries).length = 32 := by
      simp [length_encodeCursor]
    exact .fields (by decide) (by decide) (by rw [size]; decide) (by rw [size]; rfl)
      ((reads_cursor typed.1).bind ((reads_u64 typed.2).last (Reads.pure _)))
  | fullEnd cursor entries digest =>
    intro transport limits frame kind body typed _ encoded
    cases encoded
    have size : (encodeCursor cursor ++ (u64Bytes entries ++ u32Bytes digest)).length = 36 := by
      simp [length_encodeCursor]
    exact .fields (by decide) (by decide) (by rw [size]; decide) (by rw [size]; rfl)
      ((reads_cursor typed.1).bind ((reads_u64 typed.2.1).bind
        ((reads_u32 typed.2.2).last (Reads.pure _))))
  | reject reason =>
    intro transport limits frame kind body _ _ encoded
    cases encoded
    exact .fields (by decide) (by decide) (Nat.succ_pos _) rfl
      ((reads_reject reason).map Message.reject)
  | statusRequest | promote =>
    intro transport limits frame kind body _ _ encoded
    cases encoded
    exact .fields (by decide) (by decide) (by decide) rfl ((reads_byte 0).last (Reads.pure _))

end Bodies

/-! ### Frames -/

section Frames

variable {transport : Transport} {limits : Limits}

theorem validate_eq_ok :
    limits.validate = .ok () ↔ headerBytes + 1 ≤ limits.maxFrameBytes ∧
      limits.maxFrameBytes ≤ Protocol.maxFrameBytes ∧ limits.record.maxRecordBytes ≠ 0 ∧
      limits.record.maxRecordBytes ≤ Sider.maxRecordBytes ∧ limits.record.maxMutations ≠ 0 := by
  unfold Limits.validate
  split
  · rename_i refused
    constructor
    · intro ok
      cases ok
    · rintro ⟨least, most, some_, known, mutations⟩
      rcases refused with bad | bad | bad | bad
      · exact absurd ⟨least, most⟩ bad
      · exact absurd bad some_
      · exact absurd known (by omega)
      · exact absurd bad mutations
  · rename_i accepted
    simp only [not_or, not_not, Nat.not_lt] at accepted
    obtain ⟨⟨least, most⟩, some_, known, mutations⟩ := accepted
    exact ⟨fun _ => ⟨least, most, some_, known, mutations⟩, fun _ => rfl⟩

/-- The length of a body that fits has four bytes. -/
theorem fits_u32 (valid : limits.validate = .ok ())
    (fits : length + headerBytes ≤ limits.maxFrameBytes) : length ≤ u32Max := by
  have most := (validate_eq_ok.mp valid).2.1
  have bound : Protocol.maxFrameBytes ≤ u32Max := by decide
  omega

/-- What a frame is made of. -/
theorem encodeProfile_eq_ok :
    encodeProfile transport limits message = .ok frame ↔ limits.validate = .ok () ∧
      ∃ kind body, encodeBody transport limits.inFrame message = .ok (kind, body) ∧
        body.length + headerBytes ≤ limits.maxFrameBytes ∧ frame = encodeFrame transport kind body := by
  constructor
  · intro encoded
    obtain ⟨_, valid, encoded⟩ := bind_eq_ok encoded
    obtain ⟨⟨kind, body⟩, written, encoded⟩ := bind_eq_ok encoded
    refine ⟨valid, kind, body, written, ?_⟩
    simp only at encoded
    split at encoded
    · cases encoded
    · rename_i size total
      obtain ⟨_, rfl⟩ := Machine.checkedAdd_eq_some.mp total
      split at encoded
      · cases encoded
      split at encoded
      · cases encoded
      · cases encoded
        exact ⟨by omega, rfl⟩
  · rintro ⟨valid, kind, body, written, fits, rfl⟩
    have most := (validate_eq_ok.mp valid).2.1
    have bound : Protocol.maxFrameBytes ≤ u32Max := by decide
    have total : Machine.checkedAdd body.length headerBytes = some (body.length + headerBytes) :=
      Machine.checkedAdd_eq_some.mpr ⟨by simp only [Machine.word, u32Max] at *; omega, rfl⟩
    have small : ¬u32Max < body.length := by omega
    have inside : ¬limits.maxFrameBytes < body.length + headerBytes := by omega
    simp only [encodeProfile, valid, written, bind, Except.bind, total, if_neg small, if_neg inside]

/-- The fields that the header of a frame declares. -/
structure Declares (text : Bytes) (transport : Transport) (kind : Byte) (length : Nat) : Prop where
  magic_eq : text.field 0 8 = magic
  version_eq : numberAt text 8 2 = transport.version
  kind_eq : numberAt text 10 1 = kind.val
  reserved_eq : numberAt text 11 1 = 0
  length_eq : numberAt text 12 4 = length
  complement_eq : numberAt text 16 4 = u32Max - length

theorem header_eq (declares : Declares text transport kind length)
    (whole : text.length = headerBytes) (valid : limits.validate = .ok ())
    (range : 1 ≤ kind.val ∧ kind.val ≤ 14) (filled : 0 < length)
    (fits : length + headerBytes ≤ limits.maxFrameBytes)
    (size : validSize transport kind.val length = true) :
    header text limits transport = .ok (kind.val, length) := by
  unfold header
  rw [valid, declares.magic_eq, declares.version_eq, declares.kind_eq, declares.reserved_eq,
    declares.length_eq, declares.complement_eq, size]
  rw [if_neg (by simp [whole]), if_neg (not_not_intro rfl), if_neg (not_not_intro range),
    if_neg (not_not_intro rfl), if_neg (by omega)]
  rfl

theorem header_other (declares : Declares text transport kind length)
    (whole : text.length = headerBytes) (valid : limits.validate = .ok ())
    (differs : other ≠ transport) :
    header text limits other = .error (.version transport.version) := by
  have versions : transport.version ≠ other.version := by
    revert differs
    cases other <;> cases transport <;> decide
  unfold header
  rw [valid, declares.magic_eq, declares.version_eq, declares.reserved_eq]
  simp only [bind, Except.bind]
  rw [if_neg (by simp [whole]), if_pos versions]

section

variable (transport : Transport)

variable (kind : Byte)

theorem length_headerStart (length : Nat) : (headerStart transport kind length).length = 20 := by
  simp [headerStart, magic, Bytes.ascii]

theorem length_encodeFrame (body : Bytes) :
    (encodeFrame transport kind body).length = headerBytes + body.length := by
  simp only [encodeFrame, List.length_append, length_headerStart, length_u32Bytes, headerBytes]
  omega

theorem headerStart_declares (fits : length ≤ u32Max) (rest : Bytes) :
    Declares (headerStart transport kind length ++ rest) transport kind length := by
  have start : magic.length = 8 := by decide
  have version : (Bytes.toLittleEndian 2 transport.version).length = 2 := Bytes.length_toLittleEndian ..
  have reserved : ([kind, 0] : Bytes).length = 2 := rfl
  simp only [headerStart, List.append_assoc]
  refine ⟨Bytes.field_here start, ?_, ?_, ?_, ?_, ?_⟩
  · rw [numberAt_skip (by rw [start]), start]
    unfold numberAt
    rw [Bytes.field_here version]
    exact Bytes.littleEndian_toLittleEndian (by cases transport <;> decide)
  · rfl
  · rfl
  · exact numberAt_u32 fits _
  · exact numberAt_u32 (Nat.sub_le ..) _

theorem drop_encodeFrame (body : Bytes) :
    (encodeFrame transport kind body).drop headerBytes = body := by
  unfold encodeFrame
  rw [← List.append_assoc]
  exact List.drop_left' (by rw [List.length_append, length_headerStart, length_u32Bytes]; rfl)

/-- The checksum of a frame is the one its header holds. -/
theorem digest_encodeFrame (body : Bytes) :
    snapshotDigest (checksum ((encodeFrame transport kind body).take 20)) body =
      numberAt (encodeFrame transport kind body) 20 4 := by
  have start := length_headerStart transport kind body.length
  unfold encodeFrame
  exact (numberAt_u32 (Nat.le_pred_of_lt (checksum_lt _)) _).symm

theorem encodeFrame_header (fits : body.length ≤ u32Max) :
    Declares ((encodeFrame transport kind body).take headerBytes) transport kind body.length ∧
      ((encodeFrame transport kind body).take headerBytes).length = headerBytes := by
  constructor
  · exact headerStart_declares transport kind fits _
  · rw [List.length_take, length_encodeFrame]
    omega

end

/-- **A frame decodes to the message that its body carries.** -/
theorem decodeProfile_encodeFrame (carried : Carried transport limits message kind body)
    (valid : limits.validate = .ok ()) (fits : body.length + headerBytes ≤ limits.maxFrameBytes) :
    decodeProfile transport limits (encodeFrame transport kind body) = .ok message := by
  obtain ⟨declares, whole⟩ := encodeFrame_header transport kind (fits_u32 valid fits)
  have accepted := header_eq declares whole valid carried.range carried.filled fits carried.size
  have length := length_encodeFrame transport kind body
  unfold decodeProfile
  rw [if_neg (by omega), accepted]
  simp only [bind, Except.bind]
  rw [if_neg (not_not_intro length), drop_encodeFrame,
    if_neg (not_not_intro (digest_encodeFrame transport kind body))]
  exact carried.decodes

/-- **No other transport decodes it.** -/
theorem decodeProfile_other (valid : limits.validate = .ok ())
    (fits : body.length + headerBytes ≤ limits.maxFrameBytes) (differs : other ≠ transport) :
    decodeProfile other limits (encodeFrame transport kind body) = .error (.version transport.version) := by
  obtain ⟨declares, whole⟩ := encodeFrame_header transport kind (fits_u32 valid fits)
  have length := length_encodeFrame transport kind body
  unfold decodeProfile
  rw [if_neg (by omega), header_other declares whole valid differs]
  rfl

end Frames

/-! ### The frames of the writer -/

section Writer

variable {limits : Sider.Limits}

theorem writerLimits_valid (valid : validLimits limits = true) :
    (writerLimits limits).validate = .ok () := by
  simp only [validLimits, Bool.not_eq_true', Bool.or_eq_false_iff, decide_eq_false_iff_not] at valid
  obtain ⟨⟨⟨least, most⟩, mutations⟩, _⟩ := valid
  refine validate_eq_ok.mpr ⟨?_, ?_, ?_, Nat.not_lt.mp most, mutations⟩
  · simp only [writerLimits, headerBytes]
    omega
  · simp only [writerLimits, headerBytes, recordFraming, Protocol.maxFrameBytes]
    omega
  · show limits.maxRecordBytes ≠ 0
    omega

/-- The frame limit of the writer is exactly the room its records need. -/
theorem inFrame_writerLimits (limits : Sider.Limits) : (writerLimits limits).inFrame = limits := by
  simp [writerLimits, Limits.inFrame, headerBytes, recordFraming, Nat.add_assoc]

theorem length_le_of_isFrame {ρ : Type} {decode : Bytes → Except FormatError ρ} {record : ρ}
    (framed : IsFrame decode limits text record) :
    text.length + headerBytes ≤ (writerLimits limits).maxFrameBytes := by
  obtain ⟨payload, admits, _, rfl⟩ := framed
  have fits := admits.configured
  rw [length_frame]
  simp only [writerLimits, headerBytes, recordFraming]
  omega

theorem batchFrame_iff {profile : Profile} (other : profile ≠ .memory)
    (valid : validLimits limits = true) (typed : (Message.batch sequence resolved).Typed) :
    (∃ frame, batchFrame profile limits sequence resolved = .ok frame) ↔
      ∃ text, profile.encodeLegacy limits (.batch sequence resolved.origin resolved.mutations) =
        .ok text := by
  rw [Profile.encodeLegacy_batch other]
  unfold batchFrame
  have version1 : (if profile = .composedLegacyMixed then Transport.composed else .legacy) ≠ .memory := by
    split <;> decide
  constructor
  · rintro ⟨frame, encoded⟩
    obtain ⟨_, kind, body, written, _⟩ := encodeProfile_eq_ok.mp encoded
    rw [inFrame_writerLimits] at written
    simp only [encodeBody, if_neg version1] at written
    exact ⟨body, (recordBody_eq_ok written).2⟩
  · rintro ⟨text, encoded⟩
    refine ⟨_, encodeProfile_eq_ok.mpr ⟨writerLimits_valid valid, 6, text, ?_,
      length_le_of_isFrame (Record.encode_isFrame encoded typed), rfl⟩⟩
    rw [inFrame_writerLimits]
    simp only [encodeBody, if_neg version1, encoded, recordBody]

theorem memoryBatchFrame_iff (valid : validLimits limits = true)
    (typed : (Message.memoryBatch sequence origin mutations).Typed) :
    (∃ frame, memoryBatchFrame limits sequence origin mutations = .ok frame) ↔
      ∃ text, (Record.batch sequence origin mutations).encodeMemory limits = .ok text := by
  constructor
  · rintro ⟨frame, encoded⟩
    obtain ⟨_, kind, body, written, _⟩ := encodeProfile_eq_ok.mp encoded
    rw [inFrame_writerLimits] at written
    exact ⟨body, (recordBody_eq_ok written).2⟩
  · rintro ⟨text, encoded⟩
    refine ⟨_, encodeProfile_eq_ok.mpr ⟨writerLimits_valid valid, 6, text, ?_,
      length_le_of_isFrame (Record.encodeMemory_framed encoded typed), rfl⟩⟩
    rw [inFrame_writerLimits]
    simp only [encodeBody, if_true, encoded, recordBody]

end Writer

/-- **Round trip and isolation of the transports.** Every message that a transport encodes under given
limits is decoded by it under the same limits, its header declares the kind and size of the frame, and the
other transports refuse it. The writer's frame of a batch exists exactly when its record does. -/
theorem transport_round_trip :
    (∀ transport limits message frame, message.Typed → encodeProfile transport limits message = .ok frame →
      decodeProfile transport limits frame = .ok message ∧
      (∃ kind body, encodeBody transport limits.inFrame message = .ok (kind, body) ∧
        frame = encodeFrame transport kind body ∧
        header (frame.take headerBytes) limits transport = .ok (kind.val, body.length) ∧
        frame.length = headerBytes + body.length) ∧
      ∀ other, other ≠ transport → ∃ error, decodeProfile other limits frame = .error error) ∧
    ∀ limits sequence, validLimits limits = true →
      (∀ profile resolved, profile ≠ .memory → (Message.batch sequence resolved).Typed →
        ((∃ frame, batchFrame profile limits sequence resolved = .ok frame) ↔
          ∃ text, profile.encodeLegacy limits (.batch sequence resolved.origin resolved.mutations) =
            .ok text)) ∧
      ∀ origin mutations, (Message.memoryBatch sequence origin mutations).Typed →
        ((∃ frame, memoryBatchFrame limits sequence origin mutations = .ok frame) ↔
          ∃ text, (Record.batch sequence origin mutations).encodeMemory limits = .ok text) := by
  refine ⟨fun transport limits message frame typed encoded => ?_, fun limits sequence valid =>
    ⟨fun profile resolved other typed => batchFrame_iff other valid typed,
      fun origin mutations typed => memoryBatchFrame_iff valid typed⟩⟩
  obtain ⟨valid, kind, body, written, fits, rfl⟩ := encodeProfile_eq_ok.mp encoded
  have carried := encodeBody_carried message typed encoded written
  refine ⟨decodeProfile_encodeFrame carried valid fits, ⟨kind, body, written, rfl, ?_,
    length_encodeFrame transport kind body⟩, fun other differs => ⟨_, decodeProfile_other valid fits differs⟩⟩
  obtain ⟨declares, whole⟩ := encodeFrame_header transport kind (fits_u32 valid fits)
  exact header_eq declares whole valid carried.range carried.filled fits carried.size

/-- A batch that removes one key, in the composed transport. -/
theorem transport_round_trip_delete :
    ∃ frame, batchFrame .composedLegacyMixed ⟨512, 16⟩ 1 ⟨.client, [.delete [107]]⟩ = .ok frame ∧
      decodeProfile .composed (writerLimits ⟨512, 16⟩) frame = .ok (.batch 1 ⟨.client, [.delete [107]]⟩) ∧
      ∃ error, decodeProfile .legacy (writerLimits ⟨512, 16⟩) frame = .error error := by
  have typed : (Message.batch 1 ⟨.client, [.delete [107]]⟩).Typed := by
    refine ⟨by decide, fun mutation inside => ?_⟩
    obtain rfl := List.mem_singleton.mp inside
    trivial
  have published := (transport_round_trip.2 ⟨512, 16⟩ 1 (by decide)).1 .composedLegacyMixed
    ⟨.client, [.delete [107]]⟩ (by decide) typed
  obtain ⟨frame, encoded⟩ := published.mpr ⟨_, rfl⟩
  obtain ⟨decoded, _, refused⟩ := transport_round_trip.1 .composed _ _ frame typed encoded
  exact ⟨frame, encoded, decoded, refused .legacy (by decide)⟩

end Sider.Replication.Protocol
