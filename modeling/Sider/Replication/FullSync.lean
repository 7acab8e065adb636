/-
**A full synchronisation fits in the quota.**

The source sends the entries of a frozen node one frame each, between a start and an end that name the
cursor and the number of entries. Both sides add up the lengths of the entry frames and stop above the
dataset quota; the receiver also refuses more entries than the quota has room for.

The frame of an entry is never longer than what the entry is charged for (`entryFrame_le`), whatever the
type of its value. The quotas of the shards add up to the quota of the server, so `fullSync_fits`: a node
whose stores keep their quotas is never stopped by those limits, and an equally configured receiver reads
back exactly the entries that were sent.
-/

import Sider.Replication.Transport
import Sider.Server.Quota
import Sider.Storage.Frozen

namespace Sider.Replication

open Protocol (Message Transport)

variable {frame key : Bytes} {mutation : Mutation} {value : Value} {count : Nat}

/-! ### The session -/

/-- What both ends of a session are configured with. -/
structure Context where
  composed : Bool
  aofLimits : Sider.Limits
  storeConfig : StoreConfig
  valid : Protocol.validLimits aofLimits = true

inductive SessionError where
  | limit
  | sequence
  | io
  | protocol (error : Protocol.Error)
  deriving DecidableEq, Repr

/-- What the next frame of an admitted operation may be. -/
inductive InternalPhase where
  | hello
  | replicaStart
  | backupStart
  | snapshotEntry
  | snapshotEnd
  | replicaStream
  | replicaAck
  | status
  | promoted
  deriving DecidableEq, Repr

def InternalPhase.permits (phase : InternalPhase) (kind : Nat) : Bool :=
  if kind = 9 ∧ phase ≠ .replicaAck then true
  else
    match phase with
    | hello => kind = 1
    | replicaStart => kind = 2 || kind = 3
    | backupStart => kind = 3
    | snapshotEntry => kind = 4
    | snapshotEnd => kind = 5
    | replicaStream => kind = 6 || kind = 8
    | replicaAck => kind = 7
    | status => kind = 14
    | promoted => kind = 13

namespace Context

variable (context : Context)

def transport : Transport := if context.composed then .composed else .legacy

def limits : Protocol.Limits :=
  ⟨max (context.aofLimits.maxRecordBytes + Protocol.headerBytes + 12) 128, context.aofLimits⟩

def encode (message : Message) : Except SessionError Bytes :=
  (Protocol.encodeProfile context.transport context.limits message).mapError .protocol

/-- The length of the entry frames, which may not pass the quota. -/
def addFrame (bytes : Nat) (frame : Bytes) : Except SessionError Nat :=
  match (Machine.checkedAdd bytes frame.length).filter (· ≤ context.storeConfig.maxDatasetBytes) with
  | some bytes => .ok bytes
  | none => .error .limit

end Context

/-! ### Sending -/

/-- A sender, with what it has written. -/
abbrev Send := ExceptT SessionError (StateM Bytes)

namespace Send

def attempt {α : Type} (result : Except SessionError α) : Send α := ExceptT.mk (pure result)

def write (frame : Bytes) : Send Unit := modify (· ++ frame)

def writeProfile (context : Context) (message : Message) : Send Unit := do
  write (← attempt (context.encode message))

/-- One entry, after the bytes and the digest of those before it. -/
def entry (context : Context) (sent : Nat × Nat) (mutation : Mutation) : Send (Nat × Nat) := do
  let frame ← attempt (context.encode (.snapshotEntry mutation))
  let bytes ← attempt (context.addFrame sent.1 frame)
  write frame
  return (bytes, snapshotDigest sent.2 frame)

def snapshot (context : Context) (cursor : Cursor) (mutations : List Mutation) : Send Unit := do
  writeProfile context (.fullStart cursor mutations.length)
  let sent ← mutations.foldlM (entry context) (0, 0)
  writeProfile context (.fullEnd cursor mutations.length sent.2)

end Send

/-! ### Receiving -/

/-- A receiver, with what it has not read. -/
abbrev Receive := StateT Bytes (Except SessionError)

/-- The entries received, their bytes and digest, and the last key. -/
structure Received where
  mutations : List Mutation
  bytes : Nat
  digest : Nat
  previous : Option Bytes

namespace Receive

def readExact (count : Nat) : Receive Bytes := fun unread =>
  if unread.length < count then .error .io else .ok (unread.take count, unread.drop count)

/-- The header is checked before the body is read. -/
def readPhase (context : Context) (phase : InternalPhase) : Receive (Bytes × Message) := do
  let start ← readExact Protocol.headerBytes
  let (kind, size) ← StateT.lift
    ((Protocol.header start context.limits context.transport).mapError .protocol)
  if phase.permits kind then
    let body ← readExact size
    let message ← StateT.lift
      ((Protocol.decodeProfile context.transport context.limits (start ++ body)).mapError .protocol)
    return (start ++ body, message)
  else throw (.protocol (.invalid "permission denied"))

/-- Read an entry; the keys increase. -/
def entry (context : Context) (received : Received) : Receive Received := do
  let (frame, message) ← readPhase context .snapshotEntry
  match message with
  | .snapshotEntry mutation =>
    if received.previous.any (mutation.key ≤ ·) then throw .sequence
    else
      let bytes ← StateT.lift (context.addFrame received.bytes frame)
      return ⟨received.mutations ++ [mutation], bytes, snapshotDigest received.digest frame,
        some mutation.key⟩
  | _ => throw .sequence

/-- Read entries while some are missing, then the end. -/
def entries (context : Context) (cursor : Cursor) (count : Nat) :
    Nat → Received → Receive (List Mutation)
  | 0, received => do
    let (_, message) ← readPhase context .snapshotEnd
    match message with
    | .fullEnd last entries checksum =>
      if last = cursor ∧ entries = count ∧ received.mutations.length = count ∧
          checksum = received.digest then
        return received.mutations
      else throw .sequence
    | _ => throw .sequence
  | missing + 1, received => do
    let received ← entry context received
    entries context cursor count missing received

def snapshot (context : Context) (cursor : Cursor) (count : Nat) : Receive (List Mutation) :=
  if context.storeConfig.maxDatasetBytes / 128 < count then throw .limit
  else entries context cursor count count ⟨[], 0, 0, none⟩

end Receive

/-! ### Entry frames -/

section Frames

variable {context : Context}

theorem sum_le_of_le {α : Type} {items : List α} {small large : α → Nat}
    (each : ∀ item, small item ≤ large item) :
    4 + (items.map small).sum ≤ 4 + (items.map large).sum :=
  Nat.add_le_add_left (List.sum_le_sum fun item _ => each item) 4

/-- A value is encoded in no more than four bytes above its size. -/
theorem encodedBytes_le {size : Nat} (sized : value.encodedBytes = .ok size) :
    size ≤ 4 + value.size := by
  cases value with
  | memory collection => cases sized
  | string value =>
    obtain ⟨_, rfl⟩ := blobSize_eq_ok sized
    rfl
  | sortedSet members =>
    rw [(sortedSet_counted sized).total_eq]
    exact sum_le_of_le fun entry => by simp only [Value.sortedSetParts, List.sum_cons, List.sum_nil]; omega
  | set members =>
    rw [(set_counted sized).total_eq]
    exact sum_le_of_le fun member => by simp only [Value.setParts, List.sum_cons, List.sum_nil]; omega
  | list values =>
    rw [(list_counted sized).total_eq]
    exact sum_le_of_le fun value => by simp only [Value.listParts, List.sum_cons, List.sum_nil]; omega
  | hash fields =>
    rw [(hash_counted sized).total_eq]
    exact sum_le_of_le fun entry => by simp only [Value.hashParts, List.sum_cons, List.sum_nil]; omega

theorem transport_ne_memory (context : Context) : context.transport ≠ .memory := by
  unfold Context.transport
  split <;> decide

/-- An entry that is framed is a put whose record was encoded. -/
theorem encode_entry (encoded : context.encode (.snapshotEntry mutation) = .ok frame) :
    ∃ key value deadline body, mutation = .put key value deadline ∧
      Protocol.encodeBody context.transport context.limits.inFrame (.snapshotEntry mutation) =
        .ok (4, body) ∧
      (Record.snapshot mutation).encode context.limits.inFrame = .ok body ∧
      frame = Protocol.encodeFrame context.transport 4 body := by
  obtain ⟨_, kind, body, written, _, rfl⟩ := Protocol.encodeProfile_eq_ok.mp (mapError_eq_ok.mp encoded)
  cases mutation with
  | delete key => cases written
  | put key value deadline =>
    have body_eq := written
    simp only [Protocol.encodeBody, if_neg (transport_ne_memory context)] at body_eq
    obtain ⟨rfl, record⟩ := Protocol.recordBody_eq_ok body_eq
    exact ⟨key, value, deadline, body, rfl, written, record, rfl⟩

/-- **The frame of an entry is no longer than what the entry is charged for.** -/
theorem entryFrame_le (typed : mutation.Typed)
    (encoded : context.encode (.snapshotEntry mutation) = .ok frame) :
    frame.length ≤ mutation.charge := by
  obtain ⟨key, value, deadline, body, rfl, _, record, rfl⟩ := encode_entry encoded
  obtain ⟨size, sized, length⟩ := Record.encode_length record typed
  obtain ⟨inner, innerOk, sized⟩ := bind_eq_ok sized
  obtain rfl := addSize_eq_ok sized
  rw [Mutation.encodedBytes_put] at innerOk
  obtain ⟨valueSize, valueOk, innerOk⟩ := bind_eq_ok innerOk
  obtain ⟨extra, extraOk, innerOk⟩ := bind_eq_ok innerOk
  obtain rfl := addSize_eq_ok extraOk
  obtain ⟨_, rfl⟩ := keyedSize_eq_ok innerOk
  have most := encodedBytes_le valueOk
  rw [Protocol.length_encodeFrame, length]
  show 24 + _ ≤ key.length + value.size + 128
  omega

theorem limits_valid (context : Context) : context.limits.validate = .ok () := by
  have valid := context.valid
  simp only [Protocol.validLimits, Bool.not_eq_true', Bool.or_eq_false_iff, decide_eq_false_iff_not] at valid
  obtain ⟨⟨⟨least, most⟩, mutations⟩, _⟩ := valid
  refine Protocol.validate_eq_ok.mpr ⟨?_, ?_, ?_, Nat.not_lt.mp most, mutations⟩
  · simp only [Context.limits, Protocol.headerBytes]
    omega
  · simp only [Context.limits, Protocol.headerBytes, Protocol.maxFrameBytes, maxRecordBytes] at most ⊢
    omega
  · show context.aofLimits.maxRecordBytes ≠ 0
    omega

/-- The frame limit leaves the whole record limit. -/
theorem inFrame_limits (context : Context) : context.limits.inFrame = context.aofLimits := by
  obtain ⟨composed, ⟨maxRecordBytes, maxMutations⟩, storeConfig, valid⟩ := context
  simp only [Context.limits, Protocol.Limits.inFrame, Protocol.headerBytes, Protocol.recordFraming]
  congr 1
  omega

/-- An entry has a frame when it has a record. -/
theorem encode_entry_eq {deadline : Option Int} (typed : (Mutation.put key value deadline).Typed) :
    context.encode (.snapshotEntry (.put key value deadline)) =
      match (Record.snapshot (.put key value deadline)).encode context.aofLimits with
      | .ok body => .ok (Protocol.encodeFrame context.transport 4 body)
      | .error error => .error (.protocol (.record error)) := by
  have written : Protocol.encodeBody context.transport context.limits.inFrame
      (.snapshotEntry (.put key value deadline)) =
      Protocol.recordBody 4 ((Record.snapshot (.put key value deadline)).encode context.aofLimits) := by
    rw [inFrame_limits]
    simp only [Protocol.encodeBody, if_neg (transport_ne_memory context)]
  cases record : (Record.snapshot (.put key value deadline)).encode context.aofLimits with
  | error error =>
    rw [record] at written
    unfold Context.encode Protocol.encodeProfile
    rw [limits_valid, written]
    rfl
  | ok body =>
    rw [record] at written
    refine mapError_eq_ok.mpr (Protocol.encodeProfile_eq_ok.mpr
      ⟨limits_valid context, 4, body, written, ?_, rfl⟩)
    have fits := Protocol.length_le_of_isFrame (Record.encode_isFrame record typed)
    exact fits.trans (le_max_left _ _)

end Frames

/-! ### The sender -/

/-- The frames of a list of entries. -/
def Encodes (context : Context) : List Mutation → List Bytes → Prop :=
  List.Forall₂ fun mutation frame => context.encode (.snapshotEntry mutation) = .ok frame

section Transfer

variable {context : Context} {mutations : List Mutation} {frames : List Bytes} {cursor : Cursor}

theorem Encodes.length_le (encodes : Encodes context mutations frames)
    (typed : ∀ mutation ∈ mutations, mutation.Typed) :
    (frames.map List.length).sum ≤ (mutations.map Mutation.charge).sum := by
  induction encodes with
  | nil => rfl
  | cons head _ ih =>
    obtain ⟨first, rest⟩ := List.forall_mem_cons.mp typed
    have tail := ih rest
    have here := entryFrame_le first head
    simp only [List.map_cons, List.sum_cons]
    omega

theorem addFrame_eq {bytes : Nat}
    (fits : bytes + frame.length ≤ context.storeConfig.maxDatasetBytes) :
    context.addFrame bytes frame = .ok (bytes + frame.length) := by
  have word := Store.quota_lt_word context.storeConfig
  have sum : Machine.checkedAdd bytes frame.length = some (bytes + frame.length) :=
    Machine.checkedAdd_eq_some.mpr ⟨by omega, rfl⟩
  unfold Context.addFrame
  rw [sum, Option.filter_some, if_pos (decide_eq_true fits)]

theorem run_entry {sent : Nat × Nat}
    (encoded : context.encode (.snapshotEntry mutation) = .ok frame)
    (fits : sent.1 + frame.length ≤ context.storeConfig.maxDatasetBytes) (written : Bytes) :
    ((Send.entry context sent mutation).run.run written : Except SessionError (Nat × Nat) × Bytes) =
      (.ok (sent.1 + frame.length, snapshotDigest sent.2 frame), written ++ frame) := by
  unfold Send.entry
  rw [encoded]
  show ((Send.attempt (context.addFrame sent.1 frame) >>= fun bytes => Send.write frame >>= fun _ =>
    pure (bytes, snapshotDigest sent.2 frame)).run.run written :
      Except SessionError (Nat × Nat) × Bytes) = _
  rw [addFrame_eq fits]
  rfl

/-- The sender writes the frames of the entries, or stops at an entry that has none. -/
theorem run_entries (typed : ∀ mutation ∈ mutations, mutation.Typed) :
    (∃ frames, Encodes context mutations frames ∧ ∀ sent written,
      sent.1 + (mutations.map Mutation.charge).sum ≤ context.storeConfig.maxDatasetBytes →
      ((mutations.foldlM (Send.entry context) sent).run.run written :
        Except SessionError (Nat × Nat) × Bytes) =
          (.ok (sent.1 + (frames.map List.length).sum, frames.foldl snapshotDigest sent.2),
            written ++ frames.flatten)) ∨
      ∃ mutation ∈ mutations, ∃ error, context.encode (.snapshotEntry mutation) = .error error ∧
        ∀ sent written,
          sent.1 + (mutations.map Mutation.charge).sum ≤ context.storeConfig.maxDatasetBytes →
          ∃ after, ((mutations.foldlM (Send.entry context) sent).run.run written :
            Except SessionError (Nat × Nat) × Bytes) = (.error error, after) := by
  induction mutations with
  | nil => exact .inl ⟨[], .nil, fun sent written _ => by simp; rfl⟩
  | cons mutation rest ih =>
    obtain ⟨first, later⟩ := List.forall_mem_cons.mp typed
    simp only [List.map_cons, List.sum_cons, List.foldlM_cons, FailingProgram.run_bind]
    cases encoded : context.encode (.snapshotEntry mutation) with
    | error error =>
      refine .inr ⟨mutation, List.mem_cons_self, error, encoded, fun sent written _ => ⟨written, ?_⟩⟩
      unfold Send.entry
      rw [encoded]
      rfl
    | ok frame =>
      have here := entryFrame_le first encoded
      rcases ih later with ⟨frames, encodes, run⟩ | ⟨other, inside, error, refused, run⟩
      · refine .inl ⟨frame :: frames, .cons encoded encodes, fun sent written fits => ?_⟩
        rw [run_entry encoded (by omega)]
        refine (run _ _ (by dsimp only; omega)).trans ?_
        simp only [List.map_cons, List.sum_cons, List.foldl_cons, List.flatten_cons, List.append_assoc,
          Nat.add_assoc]
      · refine .inr ⟨other, List.mem_cons_of_mem _ inside, error, refused, fun sent written fits => ?_⟩
        rw [run_entry encoded (by omega)]
        exact run _ _ (by dsimp only; omega)

/-! ### The receiver -/

theorem readExact_append {start rest : Bytes} (length : start.length = count) :
    Receive.readExact count (start ++ rest) = .ok (start, rest) := by
  subst length
  unfold Receive.readExact
  rw [if_neg (by simp), List.take_left, List.drop_left]

/-- A frame that was encoded is read back in a phase that permits it. -/
theorem readPhase_encode (phase : InternalPhase) {message : Message} (rest : Bytes)
    (typed : message.Typed) (encoded : context.encode message = .ok frame)
    (permitted : ∀ kind body, Protocol.encodeBody context.transport context.limits.inFrame message =
      .ok (kind, body) → phase.permits kind.val = true) :
    Receive.readPhase context phase (frame ++ rest) = .ok ((frame, message), rest) := by
  have framed := mapError_eq_ok.mp encoded
  obtain ⟨valid, kind, body, written, fits, rfl⟩ := Protocol.encodeProfile_eq_ok.mp framed
  have carried := Protocol.encodeBody_carried _ typed framed written
  obtain ⟨declares, whole⟩ := Protocol.encodeFrame_header context.transport kind
    (Protocol.fits_u32 valid fits)
  have accepted := Protocol.header_eq declares whole valid carried.range carried.filled fits carried.size
  have decoded := Protocol.decodeProfile_encodeFrame carried valid fits
  have split : (Protocol.encodeFrame context.transport kind body).take Protocol.headerBytes ++ body =
      Protocol.encodeFrame context.transport kind body := by
    conv_rhs => rw [← List.take_append_drop Protocol.headerBytes
      (Protocol.encodeFrame context.transport kind body), Protocol.drop_encodeFrame]
  generalize (Protocol.encodeFrame context.transport kind body).take Protocol.headerBytes = start
    at split whole accepted
  rw [← split] at decoded ⊢
  rw [List.append_assoc]
  unfold Receive.readPhase
  simp only [bind, StateT.bind, readExact_append whole, Except.bind, StateT.lift, accepted,
    Except.mapError, pure, Except.pure, permitted kind body written, if_true, readExact_append rfl, decoded]
  rfl

theorem digest_lt (frames : List Bytes) {digest : Nat} (small : digest ≤ u32Max) :
    frames.foldl snapshotDigest digest ≤ u32Max := by
  induction frames generalizing digest with
  | nil => exact small
  | cons frame frames ih => exact ih (Nat.le_pred_of_lt (checksum_lt _))

/-- The receiver reads the entries that were sent, in key order, and then the end. -/
theorem entries_encoded {last rest : Bytes} {received : Received}
    (encodes : Encodes context mutations frames) (typed : ∀ mutation ∈ mutations, mutation.Typed)
    (fits : received.bytes + (frames.map List.length).sum ≤ context.storeConfig.maxDatasetBytes)
    (ordered : (received.previous.toList ++ mutations.map Mutation.key).Pairwise (· < ·))
    (counted : received.mutations.length + mutations.length = count)
    (ended : (Message.fullEnd cursor count (frames.foldl snapshotDigest received.digest)).Typed)
    (encoded : context.encode (.fullEnd cursor count (frames.foldl snapshotDigest received.digest)) =
      .ok last) :
    Receive.entries context cursor count mutations.length received (frames.flatten ++ (last ++ rest)) =
      .ok (received.mutations ++ mutations, rest) := by
  induction encodes generalizing received with
  | nil =>
    have read := readPhase_encode .snapshotEnd rest ended encoded fun kind body written => by
      cases written
      rfl
    show Receive.entries context cursor count 0 received (last ++ rest) = _
    unfold Receive.entries
    simp only [bind, StateT.bind, read, Except.bind]
    rw [if_pos ⟨trivial, trivial, counted, rfl⟩, List.append_nil]
    rfl
  | @cons mutation frame mutations frames head tail ih =>
    obtain ⟨first, later⟩ := List.forall_mem_cons.mp typed
    simp only [List.map_cons, List.sum_cons] at fits
    obtain ⟨key, value, deadline, body, rfl, written, _⟩ := encode_entry head
    have entry : (Message.snapshotEntry (.put key value deadline)).Typed := first
    have read := readPhase_encode .snapshotEntry (frames.flatten ++ (last ++ rest)) entry head
      fun kind other found => by
        obtain ⟨rfl, _⟩ := Prod.mk.inj (Except.ok.inj (written.symm.trans found))
        rfl
    have above : ¬received.previous.any ((Mutation.put key value deadline).key ≤ ·) = true := by
      intro before
      cases found : received.previous with
      | none => rw [found] at before; cases before
      | some previous =>
        rw [found] at before ordered
        have below := (List.pairwise_cons.mp ordered).1 key List.mem_cons_self
        exact absurd (of_decide_eq_true before) (not_le_of_gt below)
    have step : Receive.entry context received (frame ++ (frames.flatten ++ (last ++ rest))) =
        .ok (⟨received.mutations ++ [.put key value deadline], received.bytes + frame.length,
          snapshotDigest received.digest frame, some key⟩, frames.flatten ++ (last ++ rest)) := by
      unfold Receive.entry
      simp only [bind, StateT.bind, read, Except.bind]
      rw [if_neg above]
      simp only [addFrame_eq (show received.bytes + frame.length ≤
        context.storeConfig.maxDatasetBytes by omega)]
      rfl
    show Receive.entries context cursor count (mutations.length + 1) received _ = _
    rw [List.flatten_cons, List.append_assoc]
    unfold Receive.entries
    simp only [bind, StateT.bind, step, Except.bind]
    let next : Received := ⟨received.mutations ++ [.put key value deadline],
      received.bytes + frame.length, snapshotDigest received.digest frame, some key⟩
    have remains : (next.previous.toList ++ mutations.map Mutation.key).Pairwise (· < ·) :=
      (List.pairwise_append.mp ordered).2.1
    have missing : next.mutations.length + mutations.length = count := by
      rw [← counted]
      simp only [next, List.length_append, List.length_cons, List.length_nil]
      omega
    have budget : next.bytes + (frames.map List.length).sum ≤ context.storeConfig.maxDatasetBytes := by
      show received.bytes + frame.length + _ ≤ _
      omega
    have after := ih later budget remains missing ended encoded
    rw [after, List.append_assoc]
    rfl

/-! ### The whole transfer -/

theorem encode_fullStart (context : Context) (cursor : Cursor) (entries : Nat) :
    ∃ frame, context.encode (.fullStart cursor entries) = .ok frame := by
  refine ⟨_, mapError_eq_ok.mpr (Protocol.encodeProfile_eq_ok.mpr ⟨limits_valid context, 3, _, rfl, ?_,
    rfl⟩)⟩
  rw [List.length_append, Protocol.length_encodeCursor, length_u64Bytes]
  exact le_max_of_le_right (by decide)

theorem encode_fullEnd (context : Context) (cursor : Cursor) (entries digest : Nat) :
    ∃ frame, context.encode (.fullEnd cursor entries digest) = .ok frame := by
  refine ⟨_, mapError_eq_ok.mpr (Protocol.encodeProfile_eq_ok.mpr ⟨limits_valid context, 5, _, rfl, ?_,
    rfl⟩)⟩
  rw [List.length_append, Protocol.length_encodeCursor, List.length_append, length_u64Bytes,
    length_u32Bytes]
  exact le_max_of_le_right (by decide)

/-- The sender writes a start, the entries and an end, or stops at an entry that has no frame. -/
theorem run_snapshot (typed : ∀ mutation ∈ mutations, mutation.Typed)
    (fits : (mutations.map Mutation.charge).sum ≤ context.storeConfig.maxDatasetBytes) :
    (∃ start frames last, context.encode (.fullStart cursor mutations.length) = .ok start ∧
      Encodes context mutations frames ∧
      context.encode (.fullEnd cursor mutations.length (frames.foldl snapshotDigest 0)) = .ok last ∧
      ∀ written, ((Send.snapshot context cursor mutations).run.run written :
        Except SessionError Unit × Bytes) = (.ok (), written ++ (start ++ (frames.flatten ++ last)))) ∨
      ∃ mutation ∈ mutations, ∃ error, context.encode (.snapshotEntry mutation) = .error error ∧
        ∀ written, ∃ after, ((Send.snapshot context cursor mutations).run.run written :
          Except SessionError Unit × Bytes) = (.error error, after) := by
  obtain ⟨start, opened⟩ := encode_fullStart context cursor mutations.length
  have head : ∀ written, ((Send.writeProfile context (.fullStart cursor mutations.length)).run.run written :
      Except SessionError Unit × Bytes) = (.ok (), written ++ start) := fun written => by
    unfold Send.writeProfile
    rw [opened]
    rfl
  unfold Send.snapshot
  simp only [FailingProgram.run_bind, head]
  rcases run_entries typed with ⟨frames, encodes, run⟩ | ⟨mutation, inside, error, refused, run⟩
  · obtain ⟨last, closed⟩ :=
      encode_fullEnd context cursor mutations.length (frames.foldl snapshotDigest 0)
    refine .inl ⟨start, frames, last, opened, encodes, closed, fun written => ?_⟩
    rw [run (0, 0) _ (by omega)]
    unfold Send.writeProfile
    dsimp only
    rw [closed]
    show ((.ok (), (written ++ start ++ frames.flatten) ++ last) : Except SessionError Unit × Bytes) = _
    rw [List.append_assoc, List.append_assoc]
  · refine .inr ⟨mutation, inside, error, refused, fun written => ?_⟩
    obtain ⟨after, stopped⟩ := run (0, 0) (written ++ start) (by omega)
    exact ⟨after, by rw [stopped]⟩

end Transfer

open Store in
/-- **A full synchronisation always fits.** -/
theorem fullSync_fits (context : Context) (router : ShardRouter) (stores : Nat → Store) (cursor : Cursor)
    (sound : ∀ shard < router.count, Sound 0 (stores shard))
    (quotas : ∀ shard < router.count, (stores shard).config.maxDatasetBytes =
      shardQuota context.storeConfig.maxDatasetBytes router.count shard)
    (routed : ∀ shard < router.count, ∀ key ∈ (stores shard).values, router.shardFor key = shard)
    (typed : ∀ mutation ∈ frozen router stores, mutation.Typed) (position : Protocol.TypedCursor cursor) :
    (frozen router stores).length ≤ context.storeConfig.maxDatasetBytes / 128 ∧
    (∀ frames, Encodes context (frozen router stores) frames →
      (frames.map List.length).sum ≤ context.storeConfig.maxDatasetBytes) ∧
    ((∃ text, ∀ written rest,
        ((Send.snapshot context cursor (frozen router stores)).run.run written :
          Except SessionError Unit × Bytes) = (.ok (), written ++ text) ∧
        ∃ start body, Receive.readPhase context .replicaStart (text ++ rest) =
            .ok ((start, .fullStart cursor (frozen router stores).length), body) ∧
          Receive.snapshot context cursor (frozen router stores).length body =
            .ok (frozen router stores, rest)) ∨
      ∃ mutation ∈ frozen router stores, ∃ error,
        (Record.snapshot mutation).encode context.aofLimits = .error error ∧
        ∀ written, ∃ after, ((Send.snapshot context cursor (frozen router stores)).run.run written :
          Except SessionError Unit × Bytes) = (.error (.protocol (.record error)), after)) := by
  have charged : ((frozen router stores).map Mutation.charge).sum ≤
      context.storeConfig.maxDatasetBytes := by
    rw [frozen_charge]
    refine le_of_le_of_eq (Finset.sum_le_sum fun shard member => ?_) (sum_shardQuota router.positive)
    have inside := Finset.mem_range.mp member
    have used := (sound shard inside).used
    have within := (sound shard inside).quota
    rw [quotas shard inside] at within
    omega
  have count : (frozen router stores).length ≤ context.storeConfig.maxDatasetBytes / 128 := by
    refine (Nat.le_div_iff_mul_le (by decide)).mpr (le_trans ?_ charged)
    refine Read.length_mul_le_sum fun mutation member => ?_
    obtain ⟨shard, _, inside⟩ := mem_frozen.mp member
    obtain ⟨⟨key, entry⟩, _, rfl⟩ := List.mem_map.mp inside
    exact Nat.le_add_left _ _
  have small : (frozen router stores).length < 2 ^ 64 := by
    have word := quota_lt_word context.storeConfig
    simp only [Machine.word] at word
    omega
  refine ⟨count, fun frames encodes => (encodes.length_le typed).trans charged, ?_⟩
  rcases run_snapshot typed charged with
    ⟨start, frames, last, opened, encodes, closed, run⟩ | ⟨mutation, inside, error, refused, run⟩
  · refine .inl ⟨_, fun written rest => ⟨run written, start, frames.flatten ++ (last ++ rest), ?_, ?_⟩⟩
    · have started : (Message.fullStart cursor (frozen router stores).length).Typed := ⟨position, small⟩
      have read := readPhase_encode .replicaStart (frames.flatten ++ (last ++ rest)) started opened
        fun kind body written => by
          cases written
          rfl
      rw [List.append_assoc, List.append_assoc]
      exact read
    · have ended : (Message.fullEnd cursor (frozen router stores).length
          (frames.foldl snapshotDigest 0)).Typed := ⟨position, small, digest_lt frames (Nat.zero_le _)⟩
      unfold Receive.snapshot
      rw [if_neg (Nat.not_lt.mpr count)]
      exact entries_encoded encodes typed
        (by simpa using (encodes.length_le typed).trans charged) (frozen_sorted routed)
        (Nat.zero_add _) ended closed
  · refine .inr ⟨mutation, inside, ?_⟩
    obtain ⟨shard, _, member⟩ := mem_frozen.mp inside
    obtain ⟨⟨key, entry⟩, _, rfl⟩ := List.mem_map.mp member
    rw [encode_entry_eq (typed _ inside)] at refused
    cases record : (Record.snapshot (.put key entry.value entry.expiresAtUnixMs)).encode
        context.aofLimits with
    | ok body =>
      rw [record] at refused
      cases refused
    | error found =>
      rw [record] at refused
      obtain rfl := Except.error.inj refused
      exact ⟨found, rfl, run⟩

/-- `a` and the volatile `k` in the first of two shards, `b` in the second. -/
def sampleStores (shard : Nat) : Store :=
  let s := if shard = 0 then Store.volatileStore else Store.withConfig .kibibyte ⟨0, 0, 1000000000⟩ 0
  s.apply (s.prepare (.set [Fin.ofNat 256 (97 + shard)] [49]))

theorem fullSync_fits_two_shards :
    let context : Context := ⟨true, ⟨512, 16⟩, ⟨2048, by decide, by decide⟩, by decide⟩
    let mutations : List Mutation :=
      [.put [97] (.string [49]) none, .put [98] (.string [49]) none, .put [107] (.string [49]) (some 10)]
    frozen ⟨2, by decide, by decide⟩ sampleStores = mutations ∧ ∃ text, ∀ written rest,
      ((Send.snapshot context ⟨Epoch.zero, 1⟩ mutations).run.run written :
        Except SessionError Unit × Bytes) = (.ok (), written ++ text) ∧
      ∃ start body, Receive.readPhase context .replicaStart (text ++ rest) =
          .ok ((start, .fullStart ⟨Epoch.zero, 1⟩ 3), body) ∧
        Receive.snapshot context ⟨Epoch.zero, 1⟩ 3 body = .ok (mutations, rest) := by
  intro context mutations
  have listed : frozen ⟨2, by decide, by decide⟩ sampleStores = mutations := by decide +kernel
  have routed : ∀ shard < 2, ∀ key ∈ (sampleStores shard).values.keys,
      (⟨2, by decide, by decide⟩ : ShardRouter).shardFor key = shard := by decide +kernel
  have fits := fullSync_fits context ⟨2, by decide, by decide⟩ sampleStores ⟨Epoch.zero, 1⟩
    (fun shard _ => ?_) (show ∀ shard < 2, _ by decide +kernel)
    (fun shard inside key held => routed shard inside key (OrdMap.mem_keys.mpr held))
    (fun mutation member => ?_) (show 1 < 2 ^ 64 by decide)
  · rw [listed] at fits
    rcases fits.2.2 with sent | ⟨mutation, member, error, refused, _⟩
    · exact ⟨listed, sent⟩
    · have encoded : ∀ mutation ∈ mutations,
          ((Record.snapshot mutation).encode ⟨512, 16⟩).toBool = true := by decide +kernel
      have here := encoded mutation member
      rw [show (Record.snapshot mutation).encode ⟨512, 16⟩ = .error error from refused] at here
      cases here
  · have valid : (if shard = 0 then Store.volatileStore
        else Store.withConfig .kibibyte ⟨0, 0, 1000000000⟩ 0).Valid := by
      split_ifs
      exacts [Store.volatileStore_valid, Store.valid_withConfig ..]
    exact ((Store.prepare_admissible valid.sound _).valid valid).sound
  · rw [listed] at member
    simp only [mutations, List.mem_cons, List.not_mem_nil, or_false] at member
    rcases member with rfl | rfl | rfl <;> intro deadline found <;> cases found
    exact ⟨by decide, Bool.noConfusion⟩

end Sider.Replication
