/-
**Records of the log, version 1.**

A record is a snapshot entry, the seal that closes a snapshot, or a batch. It is written as a frame:
the length of its payload, the complement of the length, the CRC-32 of the payload, the payload.
`readRecord` tells the end of the log and an incomplete last frame apart from a corrupt one, which is
an error.

* `frames_of_decode` — what the reader makes of a complete frame and of its beginnings.
* `readRecord_damaged` — a frame with one byte changed, or a burst in its payload, is unreadable.
-/

import Sider.Lib.Crc
import Sider.Lib.Cursor
import Sider.Lib.FrameLog
import Sider.Persistence.Format

namespace Sider

open Float64

variable {word check input rest : Bytes} {position : Nat}

/-! ### Fields -/

structure Limits where
  maxRecordBytes : Nat
  maxMutations : Nat
  deriving DecidableEq, Repr

/-- CRC-32, reflected polynomial 0xedb88320. -/
def checksum (bytes : Bytes) : Nat :=
  (Crc.crc 0xedb88320#32 bytes).toNat

def u32Bytes (value : Nat) : Bytes := Bytes.toLittleEndian 4 value

def u64Bytes (value : Nat) : Bytes := Bytes.toLittleEndian 8 value

/-- Two's complement. -/
def i64Bytes (value : Int) : Bytes := u64Bytes (value % 2 ^ 64).toNat

def encodeBlob (value : Bytes) : Bytes := u32Bytes value.length ++ value

def encodeDeadline (deadline : Option Int) : Bytes :=
  (if deadline.isSome then 1 else 0) :: i64Bytes (deadline.getD 0)

@[simp] theorem length_u32Bytes (value : Nat) : (u32Bytes value).length = 4 :=
  Bytes.length_toLittleEndian 4 value

@[simp] theorem length_u64Bytes (value : Nat) : (u64Bytes value).length = 8 :=
  Bytes.length_toLittleEndian 8 value

@[simp] theorem length_encodeBlob (value : Bytes) :
    (encodeBlob value).length = 4 + value.length := by
  simp [encodeBlob]

@[simp] theorem length_encodeDeadline (deadline : Option Int) :
    (encodeDeadline deadline).length = 9 := by
  simp [encodeDeadline, i64Bytes]

/-- Chains the checksums of complete snapshot records. -/
def snapshotDigest (previous : Nat) (encoded : Bytes) : Nat :=
  checksum (u32Bytes previous ++ u32Bytes (checksum encoded))

/-! ### Encoding -/

def Value.tag : Value → Except FormatError Byte
  | string _ => .ok 1
  | hash _ => .ok 3
  | list _ => .ok 4
  | set _ => .ok 5
  | sortedSet _ => .ok 6
  | memory _ => .error (.version 2)

def Value.encode : Value → Except FormatError Bytes
  | memory _ => .error (.version 2)
  | string value => .ok (encodeBlob value)
  | sortedSet members =>
    .ok (u32Bytes members.len ++ members.iter.flatMap fun entry =>
      encodeBlob entry.2 ++ u64Bytes entry.1.value.bits.toNat)
  | set members => .ok (u32Bytes members.size ++ members.keys.flatMap encodeBlob)
  | list values => .ok (u32Bytes values.length ++ values.flatMap encodeBlob)
  | hash fields =>
    .ok (u32Bytes fields.size ++ fields.entries.flatMap fun entry =>
      encodeBlob entry.1 ++ encodeBlob entry.2)

def Mutation.encode : Mutation → Except FormatError Bytes
  | delete key => .ok (2 :: encodeBlob key)
  | put key value expiresAtUnixMs => do
    let tag ← value.tag
    let body ← value.encode
    .ok (tag :: (encodeBlob key ++ (body ++ encodeDeadline expiresAtUnixMs)))

/-- One record, over the mutations of its format. -/
inductive Record (μ : Type) where
  | snapshot (mutation : μ)
  | sealed (sequence entries digest : Nat)
  | batch (sequence : Nat) (origin : MutationOrigin) (mutations : List μ)
  deriving DecidableEq

/-- The mutations of a record. -/
def Record.mutations {μ : Type} : Record μ → List μ
  | snapshot mutation => [mutation]
  | sealed .. => []
  | batch _ _ mutations => mutations

def MutationOrigin.tag : MutationOrigin → Byte
  | client => 1
  | expiration => 2

def Record.payload {μ : Type} (encode : μ → Except FormatError Bytes) :
    Record μ → Except FormatError Bytes
  | snapshot mutation => do .ok (1 :: (← encode mutation))
  | sealed sequence entries digest =>
    .ok (2 :: (u64Bytes sequence ++ (u64Bytes entries ++ u32Bytes digest)))
  | batch sequence origin mutations => do
    let encoded ← mutations.mapM encode
    .ok (3 :: (u64Bytes sequence ++ ([origin.tag] ++ (u32Bytes mutations.length ++ encoded.flatten))))

/-- The frame of a payload whose predicted size is `size`. -/
def frame (size : Nat) (payload : Bytes) : Bytes :=
  u32Bytes size ++ (u32Bytes (u32Max - size) ++ (u32Bytes (checksum payload) ++ payload))

/-- The frame of a record whose predicted size fits in the limits. -/
def frameRecord (limits : Limits) (size : Nat) (payload : Except FormatError Bytes) :
    Except FormatError Bytes :=
  if limits.maxRecordBytes < size ∨ Sider.maxRecordBytes < size then .error .limit
  else do .ok (frame size (← payload))

/-- A batch is not empty and its count fits. -/
def Limits.refuses (limits : Limits) (count : Nat) : Bool :=
  count = 0 || limits.maxMutations < count || u32Max < count

/-- The predicted size of a version 1 record. -/
def Record.size (limits : Limits) : Record Mutation → Except FormatError Nat
  | snapshot mutation => do addSize 1 (← mutation.encodedBytes)
  | sealed .. => .ok 21
  | batch _ _ mutations =>
    if limits.refuses mutations.length then .error .limit
    else mutations.foldlM (fun size mutation =>
      match mutation.encodedBytes with
      | .ok more => addSize size more
      | .error _ => .error .limit) 14

def Record.encode (limits : Limits) (record : Record Mutation) : Except FormatError Bytes := do
  frameRecord limits (← record.size limits) (record.payload Mutation.encode)

/-! ### Decoding -/

namespace Read

abbrev M := Cursor FormatError

def take (count : Nat) : M Bytes := Cursor.take (.corrupt "internal length") count

def u32 : M Nat := Cursor.number (.corrupt "internal length") 4

def u64 : M Nat := Cursor.number (.corrupt "internal length") 8

def byte : M Nat := Cursor.number (.corrupt "internal length") 1

/-- The signed value of a 64-bit pattern. -/
def signed (bits : Nat) : Int := if bits < 2 ^ 63 then bits else bits - 2 ^ 64

def i64 : M Int := do return signed (← u64)

def blob : M Bytes := do take (← u32)

/-- A count of items that take at least `unit` bytes each. -/
def count (what : String) (unit : Nat) : M Nat := do
  let count ← u32
  let left ← Cursor.remaining
  Cursor.reject (count = 0 ∨ left / unit < count) (.corrupt what)
  return count

/-- What a flag and a value stand for; a member's deadline is positive. -/
def deadlineOf (member : Bool) (flag : Nat) (value : Int) : M (Option Int) :=
  if flag = 0 ∧ value = 0 then pure none
  else if flag = 1 ∧ (member = false ∨ 0 < value) then pure (some value)
  else throw (.corrupt "deadline")

def deadline (member : Bool) : M (Option Int) := do
  let flag ← byte
  let value ← i64
  deadlineOf member flag value

/-- The score of a bit pattern. -/
def score (bits : Nat) : M Score :=
  match Score.new (F64.ofBits bits) with
  | none => throw (.corrupt "score NaN")
  | some score => pure score

def scored (members : SortedSet) : M SortedSet := do
  let member ← blob
  let score ← score (← u64)
  let inserted := members.insert member score
  Cursor.reject (inserted.1 = false) (.corrupt "duplicate sorted-set member")
  return inserted.2.2

def member (members : OrdSet Bytes) : M (OrdSet Bytes) := do
  let member ← blob
  Cursor.reject (member ∈ members) (.corrupt "duplicate member")
  return members.add member

def element (values : List Bytes) : M (List Bytes) := do return values ++ [← blob]

def field (fields : OrdMap Bytes Bytes) : M (OrdMap Bytes Bytes) := do
  let field ← blob
  let value ← blob
  Cursor.reject (field ∈ fields) (.corrupt "duplicate field")
  return fields.insert field value

/-- The value of a put, by the tag of its mutation. -/
def value (tag : Nat) : M Value :=
  if tag = 1 then do return .string (← blob)
  else if tag = 6 then do
    return .sortedSet (← Cursor.repeatM scored (← count "sorted member count" 12) .empty)
  else if tag = 5 then do
    return .set (← Cursor.repeatM member (← count "member count" 4) ∅)
  else if tag = 4 then do
    return .list (← Cursor.repeatM element (← count "element count" 4) [])
  else do
    return .hash (← Cursor.repeatM field (← count "field count" 8) ∅)

def mutation : M Mutation := do
  let tag ← byte
  let key ← blob
  if tag = 1 ∨ (3 ≤ tag ∧ tag ≤ 6) then do
    let value ← value tag
    let expiresAtUnixMs ← deadline false
    return .put key value expiresAtUnixMs
  else if tag = 2 then return .delete key
  else throw (.corrupt "mutation type")

def origin : M MutationOrigin := do
  let tag ← byte
  if tag = 1 then return .client
  else if tag = 2 then return .expiration
  else throw (.corrupt "source")

/-- The payload of a seal. -/
def sealed {μ : Type} : M (Record μ) := do
  let sequence ← u64
  let entries ← u64
  let digest ← u32
  return .sealed sequence entries digest

/-- The payload of a version 1 record. -/
def record (limits : Limits) : M (Record Mutation) := do
  let tag ← byte
  if tag = 1 then return .snapshot (← mutation)
  else if tag = 2 then sealed
  else if tag = 3 then do
    let sequence ← u64
    let origin ← origin
    let count ← u32
    let left ← Cursor.remaining
    Cursor.reject (count = 0 ∨ limits.maxMutations < count ∨ left / 5 < count) .limit
    let mutations ← Cursor.repeatM (fun done => do return done ++ [← mutation]) count []
    return .batch sequence origin mutations
  else throw (.corrupt "record type")

end Read

def Record.decode (limits : Limits) (payload : Bytes) : Except FormatError (Record Mutation) :=
  Cursor.whole (Read.record limits) (.corrupt "bytes extras") payload

/-- Read one record: length and complement are checked before the payload, its checksum before it is
decoded. -/
def readRecord {ρ : Type} (decode : Bytes → Except FormatError ρ) (limits : Limits) (input : Bytes) :
    Except FormatError (FrameLog.Next ρ) :=
  if input.isEmpty then .ok .done
  else if input.length < 12 then .ok .torn
  else
    let size := Bytes.littleEndian (input.take 4)
    if u32Max - size ≠ Bytes.littleEndian ((input.drop 4).take 4) then .error (.corrupt "length")
    else if size = 0 ∨ limits.maxRecordBytes < size ∨ Sider.maxRecordBytes < size then .error .limit
    else
      let body := input.drop 12
      if body.length < size then .ok .torn
      else if checksum (body.take size) ≠ Bytes.littleEndian ((input.drop 8).take 4) then
        .error (.corrupt "checksum")
      else do
        let record ← decode (body.take size)
        .ok (.item record (body.drop size))

/-! ### Frames -/

section Frames

variable {ρ : Type} {decode : Bytes → Except FormatError ρ} {limits : Limits}

theorem checksum_lt (bytes : Bytes) : checksum bytes < 256 ^ 4 :=
  (Crc.crc 0xedb88320#32 bytes).isLt

theorem littleEndian_le_u32Max (size : word.length = 4) : Bytes.littleEndian word ≤ u32Max := by
  have bound := Bytes.littleEndian_lt word
  rw [size] at bound
  exact Nat.le_pred_of_lt bound

theorem littleEndian_u32Bytes {value : Nat} (fits : value ≤ u32Max) :
    Bytes.littleEndian (u32Bytes value) = value :=
  Bytes.littleEndian_toLittleEndian (Nat.lt_of_le_pred (by decide) fits)

/-- The reader on an input that holds a whole prefix of a frame. -/
theorem readRecord_eq {length complement : Bytes} (body : Bytes) (four : length.length = 4)
    (four' : complement.length = 4) (four'' : check.length = 4) :
    readRecord decode limits (length ++ (complement ++ (check ++ body))) =
      if u32Max - Bytes.littleEndian length ≠ Bytes.littleEndian complement then
        .error (.corrupt "length")
      else if Bytes.littleEndian length = 0 ∨ limits.maxRecordBytes < Bytes.littleEndian length ∨
          Sider.maxRecordBytes < Bytes.littleEndian length then .error .limit
      else if body.length < Bytes.littleEndian length then .ok .torn
      else if checksum (body.take (Bytes.littleEndian length)) ≠ Bytes.littleEndian check then
        .error (.corrupt "checksum")
      else decode (body.take (Bytes.littleEndian length)) >>= fun record =>
        .ok (.item record (body.drop (Bytes.littleEndian length))) := by
  have second : (length ++ (complement ++ (check ++ body))).drop 4 = complement ++ (check ++ body) := by
    rw [List.drop_left' four]
  have third : (length ++ (complement ++ (check ++ body))).drop 8 = check ++ body := by
    rw [show 8 = 4 + 4 from rfl, ← List.drop_drop, second, List.drop_left' four']
  have fourth : (length ++ (complement ++ (check ++ body))).drop 12 = body := by
    rw [show 12 = 8 + 4 from rfl, ← List.drop_drop, third, List.drop_left' four'']
  have filled : (length ++ (complement ++ (check ++ body))).isEmpty = false := by
    cases length with
    | nil => cases four
    | cons => rfl
  have long : ¬ (length ++ (complement ++ (check ++ body))).length < 12 := by
    simp only [List.length_append]
    omega
  unfold readRecord
  rw [filled, if_neg Bool.false_ne_true, if_neg long, List.take_left' four, second,
    List.take_left' four', third, List.take_left' four'', fourth]

theorem readRecord_short (filled : input ≠ []) (short : input.length < 12) :
    readRecord decode limits input = .ok .torn := by
  unfold readRecord
  rw [if_neg (by simpa using filled), if_pos short]

/-- A payload whose size fits in the limits. -/
structure Limits.Admits (limits : Limits) (payload : Bytes) : Prop where
  positive : 0 < payload.length
  configured : payload.length ≤ limits.maxRecordBytes
  fixed : payload.length ≤ Sider.maxRecordBytes

theorem Limits.Admits.u32 {payload : Bytes} (admits : limits.Admits payload) :
    payload.length ≤ u32Max :=
  admits.fixed.trans (by decide)

/-- `text` is the frame of a payload that fits in the limits and stands for `record`. -/
def IsFrame (decode : Bytes → Except FormatError ρ) (limits : Limits) (text : Bytes) (record : ρ) :
    Prop :=
  ∃ payload, limits.Admits payload ∧ decode payload = .ok record ∧
    text = frame payload.length payload

theorem length_frame (size : Nat) (payload : Bytes) :
    (frame size payload).length = payload.length + 12 := by
  simp only [frame, List.length_append, length_u32Bytes]
  omega

/-- What was read is a frame, and what follows it. -/
theorem readRecord_item {record : ρ}
    (found : readRecord decode limits input = .ok (.item record rest)) :
    ∃ text, input = text ++ rest ∧ IsFrame decode limits text record := by
  unfold readRecord at found
  split at found
  · cases found
  split at found
  · cases found
  dsimp only at found
  split at found
  · cases found
  rename_i matching
  split at found
  · cases found
  split at found
  · cases found
  rename_i whole
  split at found
  · cases found
  rename_i checked
  obtain ⟨decoded, decodes, found⟩ := bind_eq_ok found
  obtain ⟨rfl, rfl⟩ := FrameLog.Next.item.inj (Except.ok.inj found)
  have size : ((input.drop 12).take (Bytes.littleEndian (input.take 4))).length =
      Bytes.littleEndian (input.take 4) := by
    rw [List.length_take, Nat.min_eq_left (Nat.le_of_not_lt whole)]
  have word (start : Nat) (inside : start + 4 ≤ 12) :
      u32Bytes (Bytes.littleEndian ((input.drop start).take 4)) = (input.drop start).take 4 := by
    have four : ((input.drop start).take 4).length = 4 := by
      rw [List.length_take, List.length_drop]
      omega
    conv_rhs => rw [← Bytes.toLittleEndian_littleEndian ((input.drop start).take 4), four]
    rfl
  refine ⟨_, ?_, _, ⟨by omega, by omega, by omega⟩, decodes, rfl⟩
  rw [size, frame, not_not.mp matching, not_not.mp checked]
  have first := word 0 (by decide)
  rw [List.drop_zero] at first
  have second : input.drop 4 = (input.drop 4).take 4 ++ input.drop 8 := by
    rw [show 8 = 4 + 4 from rfl, ← List.drop_drop, List.take_append_drop]
  have third : input.drop 8 = (input.drop 8).take 4 ++ input.drop 12 := by
    rw [show 12 = 8 + 4 from rfl, ← List.drop_drop, List.take_append_drop]
  rw [first, word 4 (by decide), word 8 (by decide), List.append_assoc, List.append_assoc,
    List.append_assoc, List.take_append_drop, ← third, ← second, List.take_append_drop]

/-- A record consumes its whole frame. -/
theorem readRecord_shrinks {record : ρ}
    (found : readRecord decode limits input = .ok (.item record rest)) :
    rest.length < input.length := by
  obtain ⟨_, rfl, payload, _, _, rfl⟩ := readRecord_item found
  rw [List.length_append, length_frame]
  omega

/-- The reader of a format's records. -/
def recordReader (decode : Bytes → Except FormatError ρ) (limits : Limits) :
    FrameLog.Reader FormatError ρ :=
  ⟨readRecord decode limits, readRecord_shrinks⟩

/-- The reader on a frame that holds at least the prefix, and some of the payload. -/
theorem readRecord_frame {payload : Bytes} (admits : limits.Admits payload) (body : Bytes) :
    readRecord decode limits (u32Bytes payload.length ++ (u32Bytes (u32Max - payload.length) ++
        (u32Bytes (checksum payload) ++ body))) =
      if body.length < payload.length then .ok .torn
      else if checksum (body.take payload.length) ≠ checksum payload then .error (.corrupt "checksum")
      else decode (body.take payload.length) >>= fun record =>
        .ok (.item record (body.drop payload.length)) := by
  have positive := admits.positive
  have configured := admits.configured
  have fixed := admits.fixed
  rw [readRecord_eq body (length_u32Bytes _) (length_u32Bytes _) (length_u32Bytes _),
    littleEndian_u32Bytes admits.u32,
    littleEndian_u32Bytes (Nat.sub_le _ _),
    littleEndian_u32Bytes (Nat.le_pred_of_lt (checksum_lt payload)), if_neg (not_not_intro rfl),
    if_neg (by omega)]

/-- **A complete frame** is read whatever follows it, and its proper beginnings are torn. -/
theorem frames_of_decode {payload : Bytes} {record : ρ} (admits : limits.Admits payload)
    (decodes : decode payload = .ok record) :
    FrameLog.Frames (recordReader decode limits) (frame payload.length payload) record where
  reads rest := by
    show readRecord decode limits (frame payload.length payload ++ rest) = _
    unfold frame
    rw [List.append_assoc, List.append_assoc, List.append_assoc, readRecord_frame admits,
      List.take_left, List.drop_left, if_neg (by simp), if_neg (not_not_intro rfl), decodes]
    rfl
  torn cut begins filled partial_ := by
    show readRecord decode limits cut = _
    by_cases short : cut.length < 12
    · exact readRecord_short filled short
    obtain ⟨missing, whole⟩ := begins
    obtain ⟨body, rfl⟩ : ∃ body, cut = u32Bytes payload.length ++
        (u32Bytes (u32Max - payload.length) ++ (u32Bytes (checksum payload) ++ body)) := by
      have same := congrArg (List.take 12) whole
      rw [List.take_append_of_le_length (Nat.le_of_not_lt short)] at same
      refine ⟨cut.drop 12, ?_⟩
      conv_lhs => rw [← List.take_append_drop 12 cut, same]
      rfl
    have size : body.length + missing.length = payload.length := by
      have sizes := congrArg List.length whole
      unfold frame at sizes
      simp only [List.length_append] at sizes
      omega
    have shorter : body.length < payload.length := by
      refine lt_of_le_of_ne (by omega) fun full => partial_ ?_
      have none_ : missing = [] := List.length_eq_zero_iff.mp (by omega)
      rw [← whole, none_, List.append_nil]
    rw [readRecord_frame admits, if_pos shorter]
  done := rfl

theorem IsFrame.frames {text : Bytes} {record : ρ} (framed : IsFrame decode limits text record) :
    FrameLog.Frames (recordReader decode limits) text record := by
  obtain ⟨payload, admits, decodes, rfl⟩ := framed
  exact frames_of_decode admits decodes

/-! ### Damaged frames -/

/-- One byte of a frame changed, or bits within four consecutive bytes of its payload. -/
inductive Damages (text : Bytes) : Bytes → Prop where
  | byte (position : Nat) (byte : Byte) (inside : position < text.length)
      (different : text[position]? ≠ some byte) : Damages text (text.set position byte)
  | burst (before first second after : Bytes) (body : text.drop 12 = before ++ first ++ after)
      (sizes : first.length = second.length) (short : first.length ≤ 4)
      (different : first ≠ second) : Damages text (text.take 12 ++ (before ++ second ++ after))

theorem checksum_burst (before after : Bytes) {first second : Bytes}
    (sizes : first.length = second.length) (short : first.length ≤ 4) (different : first ≠ second) :
    checksum (before ++ second ++ after) ≠ checksum (before ++ first ++ after) := fun same =>
  Crc.crc_burst 0xedb88320#32 (by decide) (by decide) before after sizes (by omega) different
    (BitVec.eq_of_toNat_eq same.symm)

/-- A word of a frame with one byte changed stands for another number. -/
theorem littleEndian_set_ne {byte : Byte} (inside : position < word.length)
    (different : word[position]? ≠ some byte) :
    Bytes.littleEndian (word.set position byte) ≠ Bytes.littleEndian word := fun same => by
  have equal := Bytes.littleEndian_inj List.length_set same
  refine different ?_
  rw [← equal, List.getElem?_set_self inside]

/-- A changed payload of the same length fails its checksum. -/
theorem readRecord_body {payload body : Bytes} (admits : limits.Admits payload)
    (sizes : body.length = payload.length) (differs : checksum body ≠ checksum payload)
    (rest : Bytes) :
    readRecord decode limits (u32Bytes payload.length ++ (u32Bytes (u32Max - payload.length) ++
      (u32Bytes (checksum payload) ++ (body ++ rest)))) = .error (.corrupt "checksum") := by
  rw [readRecord_frame admits, if_neg (by simp [sizes]), List.take_left' sizes, if_pos differs]

/-- A length that is not the one whose complement follows it. -/
theorem readRecord_length {payload : Bytes} (small : payload.length ≤ u32Max)
    (four : word.length = 4) (changed : Bytes.littleEndian word ≠ payload.length)
    (four' : check.length = 4) (body : Bytes) :
    readRecord decode limits (word ++ (u32Bytes (u32Max - payload.length) ++ (check ++ body))) =
      .error (.corrupt "length") := by
  have bound := littleEndian_le_u32Max four
  rw [readRecord_eq body four (length_u32Bytes _) four', littleEndian_u32Bytes (Nat.sub_le _ _),
    if_pos (by omega)]

/-- A complement that is not that of the length before it. -/
theorem readRecord_complement {payload : Bytes} (small : payload.length ≤ u32Max)
    (four : word.length = 4) (changed : Bytes.littleEndian word ≠ u32Max - payload.length)
    (four' : check.length = 4) (body : Bytes) :
    readRecord decode limits (u32Bytes payload.length ++ (word ++ (check ++ body))) =
      .error (.corrupt "length") := by
  rw [readRecord_eq body (length_u32Bytes _) four four', littleEndian_u32Bytes small,
    if_pos changed.symm]

/-- A checksum that is not that of the payload. -/
theorem readRecord_check {payload : Bytes} (admits : limits.Admits payload) (four : word.length = 4)
    (changed : Bytes.littleEndian word ≠ checksum payload) (rest : Bytes) :
    readRecord decode limits (u32Bytes payload.length ++ (u32Bytes (u32Max - payload.length) ++
      (word ++ (payload ++ rest)))) = .error (.corrupt "checksum") := by
  have positive := admits.positive
  have configured := admits.configured
  have fixed := admits.fixed
  rw [readRecord_eq _ (length_u32Bytes _) (length_u32Bytes _) four, littleEndian_u32Bytes admits.u32,
    littleEndian_u32Bytes (Nat.sub_le _ _), if_neg (not_not_intro rfl), if_neg (by omega),
    if_neg (by simp), List.take_left, if_pos changed.symm]

/-- One changed byte of a payload. -/
theorem checksum_set {payload : Bytes} {byte : Byte} (inside : position < payload.length)
    (different : payload[position]? ≠ some byte) :
    checksum (payload.set position byte) ≠ checksum payload := by
  have old : payload = payload.take position ++ [payload.get ⟨position, inside⟩] ++
      payload.drop (position + 1) := by simp
  rw [List.set_eq_take_append_cons_drop, if_pos inside, ← List.singleton_append,
    ← List.append_assoc]
  conv_rhs => rw [old]
  refine checksum_burst _ _ rfl (Nat.le_of_ble_eq_true rfl) fun same => different ?_
  rw [List.getElem?_eq_getElem inside]
  exact congrArg some (List.singleton_inj.mp same)

/-- **A damaged frame is unreadable**, whatever follows it. -/
theorem readRecord_damaged {payload damaged : Bytes} (admits : limits.Admits payload)
    (damages : Damages (frame payload.length payload) damaged) (rest : Bytes) :
    ∃ error, readRecord decode limits (damaged ++ rest) = .error error := by
  have small := admits.u32
  cases damages with
  | burst before first second after body sizes short different =>
    have whole : payload = before ++ first ++ after := body
    refine ⟨.corrupt "checksum", ?_⟩
    show readRecord decode limits (u32Bytes _ ++ (u32Bytes _ ++ u32Bytes _) ++ _ ++ rest) = _
    refine readRecord_body admits (by simp [whole, sizes]) ?_ rest
    rw [whole]
    exact checksum_burst before after sizes short different
  | byte position byte inside different =>
    unfold frame at inside different ⊢
    simp only [List.length_append, length_u32Bytes] at inside
    -- The byte lies in the length, its complement, the checksum or the payload.
    rw [List.set_append]
    split_ifs with inLength
    · rw [List.getElem?_append_left inLength] at different
      have changed := littleEndian_set_ne inLength different
      rw [littleEndian_u32Bytes small] at changed
      refine ⟨.corrupt "length", ?_⟩
      rw [List.append_assoc, List.append_assoc, List.append_assoc]
      exact readRecord_length small (by simp) changed (by simp) _
    rw [List.getElem?_append_right (Nat.le_of_not_lt inLength)] at different
    rw [length_u32Bytes] at inLength different ⊢
    rw [List.set_append]
    split_ifs with inComplement
    · rw [List.getElem?_append_left inComplement] at different
      have changed := littleEndian_set_ne inComplement different
      rw [littleEndian_u32Bytes (Nat.sub_le _ _)] at changed
      refine ⟨.corrupt "length", ?_⟩
      rw [List.append_assoc, List.append_assoc, List.append_assoc]
      exact readRecord_complement small (by simp) changed (by simp) _
    rw [List.getElem?_append_right (Nat.le_of_not_lt inComplement)] at different
    rw [length_u32Bytes] at inComplement different ⊢
    rw [List.set_append]
    split_ifs with inCheck
    · rw [List.getElem?_append_left inCheck] at different
      have changed := littleEndian_set_ne inCheck different
      rw [littleEndian_u32Bytes (Nat.le_pred_of_lt (checksum_lt payload))] at changed
      refine ⟨.corrupt "checksum", ?_⟩
      rw [List.append_assoc, List.append_assoc, List.append_assoc]
      exact readRecord_check admits (by simp) changed rest
    rw [List.getElem?_append_right (Nat.le_of_not_lt inCheck)] at different
    rw [length_u32Bytes] at inCheck different ⊢
    refine ⟨.corrupt "checksum", ?_⟩
    exact readRecord_body admits (by simp) (checksum_set (by omega) different) rest

end Frames

end Sider
