/-
**Torn and damaged logs.**

A `Log` is a header and frames as a profile writes them; one that is `Built` from a snapshot and batches
describes a dataset after each of its records (`Dataset.ofRecords`). If these fit the quotas, the log can
be cut anywhere at or after its seal: it recovers to the dataset after its complete records, and once
repaired to the same again; cut before, it is refused (`load_torn`). With a damaged record, it is refused
whatever follows (`load_damaged`).
-/

import Mathlib.Algebra.BigOperators.Group.Finset.Piecewise
import Sider.Persistence.Load
import Sider.Persistence.RoutedUsage

namespace Sider

variable {contents rest : Bytes} {generation count position : Nat} {state : Loading}
  {directory : Directory} {record : Record MemoryMutation} {recovered : Recovered} {header : Header}
  {snapshot : List MemoryMutation} {batches : List (MutationOrigin × List MemoryMutation)}

/-- The dataset that records describe, from nothing. -/
def Dataset.ofRecords (records : List (Record MemoryMutation)) : Except ReplayError Dataset :=
  records.foldlM (fun d record => d.apply record.mutations) fun _ => none

/-- A header and frames, as a profile writes them. -/
structure Log (profile : Profile) (limits : Limits) where
  sequence : Nat
  layout : DurableLayout
  replication : Option ReplicationMetadata
  header : Bytes
  frames : List (Bytes × Record MemoryMutation)
  numbered : sequence < 2 ^ 64
  writes : profile.writeHeader sequence layout replication = .ok header
  encodes : ∀ frame ∈ frames, profile.encode limits frame.2 = .ok frame.1
  typed : ∀ frame ∈ frames, frame.2.Typed MemoryMutation.Typed

namespace Log

variable {profile : Profile} {limits : Limits}

def records (log : Log profile limits) : List (Record MemoryMutation) :=
  log.frames.map Prod.snd

/-- The frames, one after the other. -/
def body (log : Log profile limits) : Bytes :=
  (log.frames.map Prod.fst).flatten

def text (log : Log profile limits) : Bytes :=
  log.header ++ log.body

/-- How many records are complete in the first `position` bytes of the frames. -/
def complete (log : Log profile limits) (position : Nat) : Nat :=
  FrameLog.complete (log.frames.map Prod.fst) position

/-- The log of a snapshot, its seal and batches: the snapshot in strict key order, the seal with its size
and digest, and the batches numbered without gaps. -/
structure Built (log : Log profile limits) (snapshot : List MemoryMutation)
    (batches : List (MutationOrigin × List MemoryMutation)) : Prop where
  records : log.records = snapshot.map .snapshot ++
    .sealed log.sequence snapshot.length
        (((log.frames.take snapshot.length).map Prod.fst).foldl snapshotDigest 0) ::
      batches.mapIdx fun index batch => .batch (log.sequence + (index + 1)) batch.1 batch.2
  puts : ∀ mutation ∈ snapshot, mutation.isPut = true
  sorted : (snapshot.map MemoryMutation.key).Pairwise (· < ·)
  numbers : log.sequence + batches.length < Machine.word

/-- The end of the first `count` records. -/
def endOf (log : Log profile limits) (count : Nat) : Nat :=
  log.header.length + ((log.frames.map Prod.fst).take count).flatten.length

section

variable (log : Log profile limits)

theorem framed {frame : Bytes × Record MemoryMutation} (inside : frame ∈ log.frames) :
    IsFrame (profile.decode limits) limits frame.1 frame.2 :=
  Profile.encode_framed (log.encodes frame inside) (log.typed frame inside)

theorem length_records : log.records.length = log.frames.length :=
  List.length_map _

theorem length_header_le_endOf (count : Nat) : log.header.length ≤ log.endOf count :=
  Nat.le_add_right _ _

theorem endOf_mono {first second : Nat} (le : first ≤ second) :
    log.endOf first ≤ log.endOf second := by
  unfold endOf
  rw [← Nat.add_sub_cancel' le, List.take_add, List.flatten_append, List.length_append]
  omega

theorem endOf_le_text (count : Nat) : log.endOf count ≤ log.text.length := by
  unfold endOf text body
  conv_rhs => rw [← List.take_append_drop count (log.frames.map Prod.fst)]
  rw [List.length_append, List.flatten_append, List.length_append]
  omega

/-- The first records end exactly where they are the complete ones. -/
theorem complete_endOf (inside : count ≤ log.records.length) :
    log.complete (log.endOf count - log.header.length) = count := by
  unfold complete endOf
  rw [Nat.add_sub_cancel_left]
  refine FrameLog.complete_flatten (fun text member => ?_) (by rwa [List.length_map, ← length_records])
  obtain ⟨frame, at_, rfl⟩ := List.mem_map.mp member
  exact (log.framed at_).frames.nonempty

end

section Position

variable (log : Log profile limits) (after : log.header.length ≤ position)

theorem complete_le_records (position : Nat) : log.complete position ≤ log.records.length := by
  rw [length_records, ← List.length_map Prod.fst]
  exact FrameLog.complete_le _ _

include after

theorem endOf_complete_le : log.endOf (log.complete (position - log.header.length)) ≤ position := by
  have le := FrameLog.length_complete_le (log.frames.map Prod.fst) (position - log.header.length)
  unfold endOf complete
  omega

theorem lt_endOf_succ (more : log.complete (position - log.header.length) < log.records.length) :
    position < log.endOf (log.complete (position - log.header.length) + 1) := by
  rw [length_records, ← List.length_map Prod.fst] at more
  have lt := FrameLog.lt_length_complete more
  unfold endOf complete
  omega

/-- A record is complete once its end is reached. -/
theorem lt_complete_iff {index : Nat} (inside : index < log.records.length) :
    index < log.complete (position - log.header.length) ↔ log.endOf (index + 1) ≤ position := by
  constructor
  · intro complete
    exact (log.endOf_mono complete).trans (log.endOf_complete_le after)
  · intro ends
    by_contra early
    have more : log.complete (position - log.header.length) < log.records.length := by omega
    have beyond := log.lt_endOf_succ after more
    have le := log.endOf_mono (show log.complete (position - log.header.length) + 1 ≤ index + 1 by omega)
    omega

end Position

end Log

namespace LoadRequest

variable {request : LoadRequest}

/-- A log of the profile and limits of a request. -/
abbrev OwnLog (request : LoadRequest) := Log request.profile request.config.limits

theorem frames_of_framed {text : Bytes}
    (framed : IsFrame (request.profile.decode request.config.limits) request.config.limits text
      record) : FrameLog.Frames request.reader text record :=
  framed.frames.mapError AofError.format

theorem reader_nil : request.reader.read [] = .ok .done := rfl

/-- What recovery reports once the loop has ended. -/
def report (header : Header) (size : Nat) (scanned : Loading × Nat × Bool) :
    Except AofError Recovered :=
  if scanned.1.sealed = false then .error .sequence
  else .ok ⟨scanned.1.routed.store, {
    layout := header.layout
    sequence := scanned.1.sequence
    formatVersion := header.formatVersion
    shardUsage := scanned.1.routed.usage
    validBytes := scanned.2.1
    incompleteTailBytes := if scanned.2.2 then size - scanned.2.1 else 0
    replication := header.replication }⟩

/-- Recovery once the header is read. -/
theorem loadFile_eq (reads : request.profile.readHeader contents = .ok (header, rest))
    (same : header.layout = request.config.layout) :
    request.loadFile contents =
      (FrameLog.scan request.reader (request.loadRecord header.sequence)
        (request.start header.sequence) header.bytes rest >>= report header contents.length) := by
  unfold loadFile
  rw [reads]
  show (if header.layout ≠ request.config.layout then _ else _) = _
  rw [if_neg (not_not_intro same)]
  rfl

/-- Recovery of a log cut after its header: the complete records are folded. -/
theorem loadFile_take (log : request.OwnLog) (same : log.layout = request.config.layout) :
    ∃ version, ∀ position, log.header.length ≤ position → position ≤ log.text.length →
      request.loadFile (log.text.take position) =
        ((log.records.take (log.complete (position - log.header.length))).foldlM
          (request.loadRecord log.sequence) (request.start log.sequence) >>= fun state =>
            report ⟨log.sequence, log.layout, version, log.header.length, log.replication⟩ position
              (state, log.endOf (log.complete (position - log.header.length)),
                decide (log.endOf (log.complete (position - log.header.length)) < position))) := by
  obtain ⟨_, opens⟩ := Profile.writeHeader_opens log.writes log.numbered
  refine ⟨request.profile.formatVersion log.replication, fun position after inside => ?_⟩
  have cut : log.text.take position = log.header ++ log.body.take (position - log.header.length) := by
    rw [Log.text, List.take_append, List.take_of_length_le after]
  have sizes : position - log.header.length ≤ log.body.length := by
    rw [Log.text, List.length_append] at inside
    omega
  rw [loadFile_eq (by rw [cut]; exact opens.reads _) same, Log.body,
    FrameLog.scan_take _ (fun frame member => frames_of_framed (log.framed member)) reader_nil _ _ _ sizes,
    bind_assoc, List.length_take, Nat.min_eq_left inside]
  congr 1
  funext state
  show report _ position (state, log.endOf _, _) = report _ position (state, log.endOf _, _)
  congr 3
  rw [Log.endOf, Log.complete]
  congr 1
  rw [eq_iff_iff]
  omega

/-- A log cut inside its header. -/
theorem loadFile_header (log : request.OwnLog) (before : position < log.header.length) :
    ∃ error, request.loadFile (log.text.take position) = .error error := by
  obtain ⟨_, opens⟩ := Profile.writeHeader_opens log.writes log.numbered
  have cut : log.text.take position = log.header.take position := by
    rw [Log.text, List.take_append_of_le_length before.le]
  obtain ⟨error, refused⟩ := opens.short (log.header.take position) ⟨_, List.take_append_drop ..⟩
    (by rw [List.length_take]; omega)
  refine ⟨request.headerError error, ?_⟩
  unfold loadFile
  rw [cut, refused]
  rfl

/-! ### The records of a log -/

/-- Every record acts on the dataset described before it, and what it leaves fits. -/
def Admits (request : LoadRequest) (records : List (Record MemoryMutation)) : Prop :=
  ∀ count record d, records[count]? = some record → Dataset.ofRecords (records.take count) = .ok d →
    ∃ next, d.apply record.mutations = .ok next ∧
      Routable request.config.layout (request.profile = .composedLegacyMixed) record.mutations ∧
      next.Fits request.config.layout request.storeConfig.maxDatasetBytes request.clock

/-- The layout and the quotas pass the checks made first. -/
theorem layout_of_check (ready : request.check = .ok ()) : request.config.layout.Valid ∧
    ∃ quota, request.config.layout.quota request.storeConfig.maxDatasetBytes 0 = .ok quota := by
  unfold check at ready
  split at ready
  · cases ready
  · obtain ⟨_, valid, ready⟩ := bind_eq_ok ready
    obtain ⟨quota, known, _⟩ := bind_eq_ok ready
    obtain ⟨_, layout, _⟩ := bind_eq_ok (mapError_eq_ok.mp valid)
    exact ⟨DurableLayout.validate_eq_ok.mp layout, quota, mapError_eq_ok.mp known⟩

/-- How far the loop is after some records of a log. -/
structure Progress (request : LoadRequest) (log : request.OwnLog) (snapshot : List MemoryMutation)
    (count : Nat) (state : Loading) : Prop where
  described : ∃ d, Dataset.ofRecords (log.records.take count) = .ok d ∧
    state.routed.Describes request.config.layout request.storeConfig request.clock d
  closed : state.sealed = decide (snapshot.length < count)
  entries : count ≤ snapshot.length → state.snapshotEntries = count
  digest : count ≤ snapshot.length → state.snapshotDigest =
    ((log.frames.take count).map Prod.fst).foldl snapshotDigest 0
  previous : ∀ mutation ∈ snapshot.drop count, state.previousKey.any (mutation.key ≤ ·) = false
  sequence : state.sequence = log.sequence + (count - (snapshot.length + 1))

section Progress

variable {log : request.OwnLog}

theorem progress_start (log : request.OwnLog) (snapshot : List MemoryMutation) :
    request.Progress log snapshot 0 (request.start log.sequence) where
  described := ⟨fun _ => none, rfl, Store.valid_withConfig .., exact_withConfig .., rfl, rfl, rfl⟩
  closed := rfl
  entries _ := rfl
  digest _ := rfl
  previous _ _ := rfl
  sequence := by
    rw [Nat.zero_sub]
    rfl

theorem ofRecords_succ {d next : Dataset} {records : List (Record MemoryMutation)}
    (before : Dataset.ofRecords (records.take count) = .ok d) (found : records[count]? = some record)
    (applied : d.apply record.mutations = .ok next) :
    Dataset.ofRecords (records.take (count + 1)) = .ok next := by
  unfold Dataset.ofRecords at before ⊢
  rw [List.take_add_one, found, List.foldlM_append, before]
  show (d.apply record.mutations >>= fun d => [].foldlM _ d) = _
  rw [applied]
  rfl

section

variable (progress : request.Progress log snapshot count state) (ready : request.check = .ok ())
  (admits : request.Admits log.records)

include progress ready admits

/-- The mutations of a record are replayed. -/
theorem Progress.replay (found : log.records[count]? = some record) :
    ∃ routed, request.replay state.routed record.mutations = .ok routed ∧
      ∃ d, Dataset.ofRecords (log.records.take (count + 1)) = .ok d ∧
        routed.Describes request.config.layout request.storeConfig request.clock d := by
  obtain ⟨layout, quotas⟩ := layout_of_check ready
  obtain ⟨d, before, describes⟩ := progress.described
  obtain ⟨next, applied, routable, fits⟩ := admits count record d found before
  obtain ⟨routed, replayed, after⟩ :=
    replayRoutedMemory_described layout quotas describes applied routable fits
  exact ⟨routed, replayed, next, ofRecords_succ before found applied, after⟩

variable (built : log.Built snapshot batches)

include built

/-- A snapshot entry. -/
theorem Progress.entry (inside : count < snapshot.length)
    (found : log.records[count]? = some (.snapshot snapshot[count])) :
    ∃ next, request.loadRecord log.sequence state (.snapshot snapshot[count]) = .ok next ∧
      request.Progress log snapshot (count + 1) next := by
  obtain ⟨routed, replayed, described⟩ := progress.replay ready admits found
  obtain ⟨bound, at_⟩ := List.getElem?_eq_some_iff.mp found
  rw [log.length_records] at bound
  have framed : log.frames[count].2 = .snapshot snapshot[count] :=
    ((List.getElem_map Prod.snd).symm).trans at_
  have encoded := log.encodes log.frames[count] (List.getElem_mem bound)
  rw [framed] at encoded
  have opened : state.sealed = false := by
    rw [progress.closed, decide_eq_false_iff_not]
    omega
  have rest := List.drop_eq_getElem_cons inside
  have ascends := progress.previous snapshot[count] (by rw [rest]; exact List.mem_cons_self)
  have later : ∀ mutation ∈ snapshot.drop (count + 1), snapshot[count].key < mutation.key := by
    have sorted := List.Pairwise.sublist ((List.drop_sublist count snapshot).map MemoryMutation.key)
      built.sorted
    rw [rest, List.map_cons, List.pairwise_cons] at sorted
    exact fun mutation member => sorted.1 _ (List.mem_map.mpr ⟨mutation, member, rfl⟩)
  refine ⟨{ state with
    routed := routed
    previousKey := some snapshot[count].key
    snapshotEntries := state.snapshotEntries + 1
    snapshotDigest := snapshotDigest state.snapshotDigest log.frames[count].1 }, ?_,
    described, ?_, fun _ => ?_, fun _ => ?_, fun mutation member => ?_, ?_⟩
  · unfold loadRecord
    dsimp only
    rw [if_pos (by rw [opened, built.puts _ (List.getElem_mem inside)]; rfl)]
    unfold loadSnapshot
    rw [ascends, if_neg Bool.false_ne_true, encoded]
    show (request.replay state.routed [snapshot[count]] >>= _) = _
    rw [show request.replay state.routed [snapshot[count]] = .ok routed from replayed]
    rfl
  · rw [opened, eq_comm, decide_eq_false_iff_not]
    omega
  · rw [progress.entries inside.le]
  · rw [List.take_add_one, List.getElem?_eq_getElem bound, List.map_append, List.foldl_append,
      ← progress.digest inside.le]
    rfl
  · simpa using later mutation member
  · rw [progress.sequence]
    congr 1
    omega

/-- **One record of a log.** -/
theorem Progress.step (found : log.records[count]? = some record) :
    ∃ next, request.loadRecord log.sequence state record = .ok next ∧
      request.Progress log snapshot (count + 1) next := by
  have shape := found
  rw [built.records, List.getElem?_append, List.length_map] at shape
  split_ifs at shape with inside
  · rw [List.getElem?_map, List.getElem?_eq_getElem inside] at shape
    cases shape
    exact progress.entry ready admits built inside found
  cases same : count - snapshot.length with
  | zero =>
    -- The seal.
    obtain rfl : count = snapshot.length := by omega
    rw [same] at shape
    cases shape
    obtain ⟨d, before, describes⟩ := progress.described
    have opened : state.sealed = false := by rw [progress.closed, decide_eq_false (lt_irrefl _)]
    refine ⟨{ state with sealed := true },
      if_pos ⟨opened, rfl, (progress.entries le_rfl).symm, (progress.digest le_rfl).symm⟩,
      ⟨d, ofRecords_succ before found rfl, describes⟩, ?_, fun le => ?_, fun le => ?_,
      fun mutation member => ?_, ?_⟩
    · exact (decide_eq_true (Nat.lt_succ_self _)).symm
    · omega
    · omega
    · rw [List.drop_eq_nil_of_le (Nat.le_succ _)] at member
      cases member
    · rw [progress.sequence]
      congr 1
      omega
  | succ index =>
    -- A batch.
    rw [same, List.getElem?_cons_succ, List.getElem?_mapIdx] at shape
    obtain ⟨batch, at_, rfl⟩ := Option.map_eq_some_iff.mp shape
    obtain ⟨routed, replayed, described⟩ := progress.replay ready admits found
    have closed : state.sealed = true := by
      rw [progress.closed, decide_eq_true_eq]
      omega
    have next : Machine.checkedAdd state.sequence 1 = some (log.sequence + (index + 1)) := by
      have few := (List.getElem?_eq_some_iff.mp at_).1
      have numbers := built.numbers
      have sequence := progress.sequence
      exact Machine.checkedAdd_eq_some.mpr ⟨by omega, by omega⟩
    refine ⟨{ state with routed := routed, sequence := log.sequence + (index + 1) }, ?_, described, ?_,
      fun le => ?_, fun le => ?_, fun mutation member => ?_, ?_⟩
    · unfold loadRecord
      dsimp only
      rw [if_pos ⟨closed, next⟩, show request.replay state.routed batch.2 = .ok routed from replayed]
      rfl
    · rw [closed, eq_comm, decide_eq_true_eq]
      omega
    · omega
    · omega
    · rw [List.drop_eq_nil_of_le (by omega)] at member
      cases member
    · show log.sequence + (index + 1) = _
      omega

end

/-- **The records of a log are read**, as far as it goes. -/
theorem exists_progress (log : request.OwnLog) (ready : request.check = .ok ())
    (built : log.Built snapshot batches) (admits : request.Admits log.records)
    (inside : count ≤ log.records.length) :
    ∃ state, (log.records.take count).foldlM (request.loadRecord log.sequence)
        (request.start log.sequence) = .ok state ∧ request.Progress log snapshot count state := by
  induction count with
  | zero => exact ⟨_, rfl, progress_start log snapshot⟩
  | succ count ih =>
    obtain ⟨state, reached, progress⟩ := ih (by omega)
    have found := List.getElem?_eq_getElem (show count < log.records.length by omega)
    obtain ⟨next, read, after⟩ := progress.step ready admits built found
    refine ⟨next, ?_, after⟩
    rw [List.take_add_one, found, List.foldlM_append, reached]
    show (request.loadRecord log.sequence state log.records[count] >>= _) = _
    rw [read]
    rfl

end Progress

/-! ### Recovery of a directory -/

/-- The file that recovery leaves. -/
def repaired (request : LoadRequest) (contents : Bytes) (recovered : Recovered) : Bytes :=
  if recovered.metadata.incompleteTailBytes = 0 ∨ request.readOnly then contents
  else contents.take recovered.metadata.validBytes

/-- Recovery cuts off exactly the incomplete tail. -/
theorem repaired_eq (writable : request.readOnly = false)
    (whole : recovered.metadata.validBytes + recovered.metadata.incompleteTailBytes =
      contents.length) :
    request.repaired contents recovered = contents.take recovered.metadata.validBytes := by
  unfold repaired
  by_cases complete : recovered.metadata.incompleteTailBytes = 0
  · rw [if_pos (.inl complete), List.take_of_length_le (by omega)]
  · rw [if_neg (by simp [complete, writable])]

/-- A directory whose highest generation has these contents. -/
structure Holds (directory : Directory) (generation : Nat) (contents : Bytes) : Prop where
  named : directory.misnamed = false
  highest : directory.highest? = some (generation, contents)

theorem Holds.put (holds : Holds directory generation contents) (other : Bytes) :
    Holds (directory.put generation other) generation other :=
  ⟨holds.named, OrdMap.last?_insert holds.highest other⟩

theorem put_put (directory : Directory) (generation : Nat) (first second : Bytes) :
    (directory.put generation first).put generation second = directory.put generation second := by
  unfold Directory.put
  rw [OrdMap.insert_insert]

/-- Recovery of a directory is recovery of its highest generation. -/
theorem load_eq (ready : request.check = .ok ()) (holds : Holds directory generation contents) :
    request.load directory = (request.loadFile contents >>= fun recovered =>
      .ok (recovered, directory.put generation (request.repaired contents recovered))) := by
  unfold load select
  rw [ready, holds.named, holds.highest]
  rfl

/-- A log without an incomplete tail is left as it is. -/
theorem load_complete (ready : request.check = .ok ()) (holds : Holds directory generation contents)
    (loaded : request.loadFile contents = .ok recovered)
    (complete : recovered.metadata.incompleteTailBytes = 0) :
    request.load directory = .ok (recovered, directory.put generation contents) := by
  rw [load_eq ready holds, loaded]
  show Except.ok (recovered, directory.put generation (request.repaired contents recovered)) = _
  rw [repaired, if_pos (.inl complete)]

/-- What is recovered from the first `count` records of a log: the dataset that they describe, less the
ordinary values whose deadline has passed, and the number of the last batch. -/
structure Recovers (request : LoadRequest) (log : request.OwnLog) (snapshot : List MemoryMutation)
    (count : Nat) (recovered : Recovered) : Prop where
  dataset : ∃ d, Dataset.ofRecords (log.records.take count) = .ok d ∧
    recovered.store.dataset = d.live request.clock
  valid : recovered.store.Valid
  usage : Routed.Exact request.config.layout ⟨recovered.store, recovered.metadata.shardUsage⟩
  sequence : recovered.metadata.sequence = log.sequence + (count - (snapshot.length + 1))
  layout : recovered.metadata.layout = log.layout
  replication : recovered.metadata.replication = log.replication

/-- What is reported once the seal is complete. -/
theorem report_eq {size valid : Nat} (closed : state.sealed = true) (inside : valid ≤ size) :
    report header size (state, valid, decide (valid < size)) = .ok ⟨state.routed.store, {
      layout := header.layout
      sequence := state.sequence
      formatVersion := header.formatVersion
      shardUsage := state.routed.usage
      validBytes := valid
      incompleteTailBytes := size - valid
      replication := header.replication }⟩ := by
  unfold report
  rw [closed, if_neg (by decide)]
  have tail : (if decide (valid < size) = true then size - valid else 0) = size - valid := by
    split_ifs with torn
    · rfl
    · rw [decide_eq_true_eq] at torn
      omega
  rw [tail]

/-! ### A small log -/

/-- A writable log of one shard. -/
def plainRequest : LoadRequest where
  config := ⟨false, "aof", .default, .always, 32, ⟨1024, 16⟩, 4096⟩
  storeConfig := ⟨4096, by decide, by decide⟩
  clock := ⟨0, 1000, 2 ^ 64⟩
  profile := .legacy
  readOnly := false

def plainEntry : Record MemoryMutation :=
  .snapshot (.legacy (.put (Bytes.ascii "a") (.string (Bytes.ascii "1")) none))

/-- The bytes of a record. -/
def plainFrame (record : Record MemoryMutation) : Bytes :=
  ((plainRequest.profile.encode plainRequest.config.limits record).toOption).getD []

/-- A snapshot of one key, its seal, and two batches. -/
def plainRecords : List (Record MemoryMutation) :=
  [plainEntry, .sealed 0 1 (snapshotDigest 0 (plainFrame plainEntry)),
    .batch 1 .client [.legacy (.put (Bytes.ascii "a") (.string (Bytes.ascii "2")) none)],
    .batch 2 .client [.legacy (.delete (Bytes.ascii "a"))]]

def plainLog : plainRequest.OwnLog where
  sequence := 0
  layout := .default
  replication := none
  header := closeHeader (magic ++ (u32Bytes 2 ++ (u64Bytes 0 ++ (u32Bytes 1 ++ (u32Bytes 1 ++ [])))))
  frames := plainRecords.map fun record => (plainFrame record, record)
  numbered := by decide
  writes := rfl
  encodes := by
    intro frame member
    obtain ⟨record, inside, rfl⟩ := List.mem_map.mp member
    have known : ∀ record ∈ plainRecords,
        (plainRequest.profile.encode plainRequest.config.limits record).isOk = true := by decide +kernel
    have accepted := known record inside
    unfold plainFrame
    cases encoded : plainRequest.profile.encode plainRequest.config.limits record with
    | error error =>
      rw [encoded] at accepted
      cases accepted
    | ok bytes => rfl
  typed := by
    intro frame member
    simp only [plainRecords, List.map_cons, List.map_nil, List.mem_cons, List.not_mem_nil, or_false] at member
    rcases member with rfl | rfl | rfl | rfl
    · exact nofun
    · exact ⟨by decide, by decide, by decide +kernel⟩
    · refine ⟨by decide, fun mutation inside => ?_⟩
      rw [List.mem_singleton.mp inside]
      exact nofun
    · refine ⟨by decide, fun mutation inside => ?_⟩
      rw [List.mem_singleton.mp inside]
      trivial

theorem plain_built : plainLog.Built [.legacy (.put (Bytes.ascii "a") (.string (Bytes.ascii "1")) none)]
    [(.client, [.legacy (.put (Bytes.ascii "a") (.string (Bytes.ascii "2")) none)]),
      (.client, [.legacy (.delete (Bytes.ascii "a"))])] :=
  ⟨by simp [Log.records, plainLog, plainRecords, plainEntry], by decide, by decide, by decide⟩

/-- At most one key, with a byte. -/
def Little (d : Dataset) : Prop :=
  ∀ key found, d key = some found → key = Bytes.ascii "a" ∧ ∃ byte, found = (.string [byte], none)

theorem Little.put {d : Dataset} (small : Little d) {mutation : Mutation}
    (own : mutation.key = Bytes.ascii "a")
    (image : ∀ found, mutation.image = some found → ∃ byte, found = (.string [byte], none)) :
    Little (d.put mutation) := by
  intro key found hit
  rw [Dataset.put_eq, Function.update_apply] at hit
  split_ifs at hit with same
  · exact ⟨same.trans own, image found hit⟩
  · exact small key found hit

theorem Little.fits {d : Dataset} (small : Little d) : d.Fits .default 4096 plainRequest.clock := by
  have each : ∀ key, d.bytes key ≤ if key = Bytes.ascii "a" then 512 else 0 := fun key => by
    unfold Dataset.bytes
    cases found : d key with
    | none => exact Nat.zero_le _
    | some entry =>
      obtain ⟨rfl, byte, rfl⟩ := small key entry found
      exact show 1 + 1 + entryOverheadBytes ≤ 512 by decide
  have whole : ∀ keys : Finset Bytes, ∑ key ∈ keys, d.bytes key ≤ 512 := fun keys => by
    refine (Finset.sum_le_sum fun key _ => each key).trans ?_
    rw [Finset.sum_ite_eq']
    split_ifs <;> decide
  refine ⟨fun key value expiresAtUnixMs kept => ?_, fun keys => (whole keys).trans (by decide),
    fun shard quota known keys _ => (whole keys).trans ?_⟩
  · obtain ⟨_, byte, same⟩ := small key _ (Option.filter_eq_some_iff.mp kept).1
    cases same
    exact ⟨rfl, rfl, nofun, nofun⟩
  · cases shard with
    | zero =>
      cases known
      decide
    | succ shard => cases known

theorem plain_admits : plainRequest.Admits plainLog.records := by
  intro count record d found described
  have bound : count < 4 := (List.getElem?_eq_some_iff.mp found).1
  have first : Little
      (Dataset.put (fun _ => none) (.put (Bytes.ascii "a") (.string (Bytes.ascii "1")) none)) :=
    Little.put (fun _ _ none_ => by cases none_) rfl fun _ same => ⟨_, (Option.some.inj same).symm⟩
  have second : Little (Dataset.put _ (.put (Bytes.ascii "a") (.string (Bytes.ascii "2")) none)) :=
    first.put rfl fun _ same => ⟨_, (Option.some.inj same).symm⟩
  obtain rfl | rfl | rfl | rfl : count = 0 ∨ count = 1 ∨ count = 2 ∨ count = 3 := by omega
  all_goals
    cases found
    cases described
  · exact ⟨_, rfl, ⟨by decide, .inr ⟨0, by decide⟩⟩, first.fits⟩
  · exact ⟨_, rfl, ⟨by decide, .inr ⟨0, by decide⟩⟩, first.fits⟩
  · exact ⟨_, rfl, ⟨by decide, .inr ⟨0, by decide⟩⟩, second.fits⟩
  · have third : Little (Dataset.put _ (.delete (Bytes.ascii "a"))) :=
      second.put rfl nofun
    exact ⟨_, rfl, ⟨by decide, .inr ⟨0, by decide⟩⟩, third.fits⟩

/-- A directory with one generation. -/
def oneFile (contents : Bytes) : Directory :=
  ⟨.ofList [(0, contents)], false⟩

theorem oneFile_holds (contents : Bytes) : Holds (oneFile contents) 0 contents := ⟨rfl, rfl⟩

/-- **A torn log**: cut at or after its seal, it recovers to the dataset that its longest prefix of complete
records describes, and the repaired log to the same; cut before, it is refused. -/
theorem load_torn (log : request.OwnLog) (ready : request.check = .ok ())
    (same : log.layout = request.config.layout) (built : log.Built snapshot batches)
    (admits : request.Admits log.records) {position : Nat} (inside : position ≤ log.text.length)
    {directory : Directory} {generation : Nat}
    (holds : Holds directory generation (log.text.take position)) :
    (position < log.endOf (snapshot.length + 1) → ∃ error, request.load directory = .error error) ∧
    (log.endOf (snapshot.length + 1) ≤ position → ∃ count recovered repaired,
      snapshot.length < count ∧ count ≤ log.records.length ∧ log.endOf count ≤ position ∧
      (count < log.records.length → position < log.endOf (count + 1)) ∧
      request.load directory = .ok (recovered, repaired) ∧
      request.Recovers log snapshot count recovered ∧
      recovered.metadata.validBytes = log.endOf count ∧
      recovered.metadata.incompleteTailBytes = position - log.endOf count ∧
      (request.readOnly = false →
        repaired = directory.put generation (log.text.take (log.endOf count)) ∧
        request.load repaired = .ok (⟨recovered.store,
          { recovered.metadata with incompleteTailBytes := 0 }⟩, repaired))) := by
  have bound : snapshot.length < log.records.length := by
    rw [built.records, List.length_append, List.length_map, List.length_cons]
    omega
  obtain ⟨version, loads⟩ := loadFile_take log same
  constructor
  · intro early
    suffices refused : ∃ error, request.loadFile (log.text.take position) = .error error by
      obtain ⟨error, refused⟩ := refused
      exact ⟨error, by rw [load_eq ready holds, refused]; rfl⟩
    by_cases after : log.header.length ≤ position
    · -- The frames before the cut are read, but the seal is not among them.
      obtain ⟨state, reached, progress⟩ := exists_progress log ready built admits
        (log.complete_le_records (position - log.header.length))
      have opened : state.sealed = false := by
        rw [progress.closed, decide_eq_false_iff_not, log.lt_complete_iff after bound]
        omega
      refine ⟨.sequence, ?_⟩
      rw [loads position after inside, reached]
      show report _ _ _ = _
      rw [report, opened, if_pos rfl]
    · exact loadFile_header log (Nat.lt_of_not_le after)
  · intro late
    have after := (log.length_header_le_endOf _).trans late
    have few := log.complete_le_records (position - log.header.length)
    have before := log.endOf_complete_le after
    have beyond := log.lt_endOf_succ after
    have counted := (log.lt_complete_iff after bound).mpr late
    have loaded := loads position after inside
    generalize log.complete (position - log.header.length) = count at few before beyond counted loaded
    obtain ⟨state, reached, progress⟩ := exists_progress log ready built admits few
    have closed : state.sealed = true := by rw [progress.closed, decide_eq_true counted]
    obtain ⟨d, described, describes⟩ := progress.described
    rw [reached] at loaded
    have whole := loaded.trans (report_eq closed before)
    refine ⟨count, _, _, counted, few, before, beyond, by rw [load_eq ready holds, whole]; rfl,
      ⟨⟨d, described, describes.dataset⟩, describes.valid, describes.exact, progress.sequence, rfl, rfl⟩,
      rfl, rfl, fun writable => ?_⟩
    have sizes : (log.text.take position).length = position := by
      rw [List.length_take, Nat.min_eq_left inside]
    rw [repaired_eq writable (by rw [sizes]; exact Nat.add_sub_cancel' before), List.take_take,
      Nat.min_eq_left before]
    refine ⟨rfl, ?_⟩
    have again := loads (log.endOf count) (log.length_header_le_endOf count) (log.endOf_le_text count)
    rw [log.complete_endOf few, reached] at again
    have second := again.trans (report_eq closed le_rfl)
    rw [Nat.sub_self] at second
    have reloaded := load_complete ready (holds.put (log.text.take (log.endOf count))) second rfl
    rwa [put_put] at reloaded

/-- Cut inside its second batch, which removes the key, the log gives back what its first batch wrote. -/
theorem load_torn_plain :
    ∃ recovered repaired,
      plainRequest.load (oneFile (plainLog.text.take (plainLog.endOf 3 + 5))) = .ok (recovered, repaired) ∧
      recovered.store.dataset (Bytes.ascii "a") = some (.string (Bytes.ascii "2"), none) ∧
      recovered.metadata.sequence = 1 ∧ recovered.metadata.incompleteTailBytes = 5 ∧
      plainRequest.load repaired =
        .ok (⟨recovered.store, { recovered.metadata with incompleteTailBytes := 0 }⟩, repaired) := by
  have ends : plainLog.endOf 2 ≤ plainLog.endOf 3 + 5 ∧ plainLog.endOf 3 + 5 < plainLog.endOf 4 ∧
      plainLog.endOf 3 + 5 ≤ plainLog.text.length := by decide +kernel
  obtain ⟨count, recovered, repaired, _, few, before, beyond, loaded, recovers, _, tail, again⟩ :=
    (load_torn plainLog rfl rfl plain_built plain_admits ends.2.2 (oneFile_holds _)).2 ends.1
  have size : plainLog.records.length = 4 := rfl
  obtain rfl : count = 3 := by
    by_contra other
    rcases Nat.lt_or_gt_of_ne other with less | more
    · have := plainLog.endOf_mono (show count + 1 ≤ 3 by omega)
      have := beyond (by omega)
      omega
    · have := plainLog.endOf_mono (show 4 ≤ count by omega)
      omega
  obtain ⟨d, described, holds⟩ := recovers.dataset
  cases described
  refine ⟨recovered, repaired, loaded, ?_, recovers.sequence, by omega, (again rfl).2⟩
  rw [holds]
  rfl

/-- **A damaged log**: with one byte of a complete record changed, or bits within four consecutive
bytes of its payload, recovery fails, whatever follows. -/
theorem load_damaged (log : request.OwnLog) {before after : List (Bytes × Record MemoryMutation)}
    {frame : Bytes × Record MemoryMutation} (split : log.frames = before ++ frame :: after)
    {damaged : Bytes} (damages : Damages frame.1 damaged) (rest : Bytes) {directory : Directory}
    {generation : Nat}
    (highest : directory.highest? = some (generation,
      log.header ++ ((before.map Prod.fst).flatten ++ (damaged ++ rest)))) :
    ∃ error, request.load directory = .error error := by
  obtain ⟨_, opens⟩ := Profile.writeHeader_opens log.writes log.numbered
  have earlier (other : Bytes × Record MemoryMutation) (member : other ∈ before) :
      FrameLog.Frames request.reader other.1 other.2 :=
    frames_of_framed (log.framed (by rw [split]; exact List.mem_append_left _ member))
  have unreadable : ∃ error, request.reader.read (damaged ++ rest) = .error error := by
    obtain ⟨payload, admits, _, whole⟩ := log.framed (show frame ∈ log.frames by rw [split]; simp)
    rw [whole] at damages
    obtain ⟨error, refused⟩ := readRecord_damaged admits damages rest
    exact ⟨.format error, congrArg (Except.mapError AofError.format) refused⟩
  obtain ⟨error, unreadable⟩ := unreadable
  have refused : ∃ error, request.loadFile
      (log.header ++ ((before.map Prod.fst).flatten ++ (damaged ++ rest))) = .error error := by
    by_cases same : log.layout = request.config.layout
    · obtain ⟨error, refused⟩ := FrameLog.scan_damaged (request.loadRecord log.sequence) earlier
        unreadable (request.start log.sequence) log.header.length
      exact ⟨error, by rw [loadFile_eq (opens.reads _) same, refused]; rfl⟩
    · refine ⟨.layoutMismatch request.config.layout log.layout, ?_⟩
      unfold loadFile
      rw [opens.reads]
      exact if_pos same
  obtain ⟨error, refused⟩ := refused
  unfold load select
  cases request.check with
  | error error => exact ⟨error, rfl⟩
  | ok =>
    rw [highest]
    cases directory.misnamed with
    | true => exact ⟨.sequence, rfl⟩
    | false => exact ⟨error, by
        show (request.loadFile _ >>= _) = _
        rw [refused]
        rfl⟩

/-- The first byte of the seal's frame, behind the snapshot, is changed. -/
theorem load_damaged_plain :
    ∃ before frame after, plainLog.frames = before ++ frame :: after ∧ before.length = 1 ∧
      Damages frame.1 (frame.1.set 0 0) ∧
      ∃ error, plainRequest.load (oneFile (plainLog.header ++
        ((before.map Prod.fst).flatten ++ (frame.1.set 0 0 ++ [])))) = .error error := by
  obtain ⟨closing, split⟩ : ∃ closing, plainLog.frames =
      [(plainFrame plainEntry, plainEntry)] ++ (plainFrame closing, closing) :: plainLog.frames.drop 2 ∧
        closing = .sealed 0 1 (snapshotDigest 0 (plainFrame plainEntry)) := ⟨_, rfl, rfl⟩
  have damages : Damages (plainFrame closing) ((plainFrame closing).set 0 0) := by
    rw [split.2]
    exact .byte 0 0 (by decide +kernel) (by decide +kernel)
  exact ⟨_, _, _, split.1, rfl, damages, load_damaged plainLog split.1 damages []
    (show (oneFile _).highest? = some (0, _) from rfl)⟩

end LoadRequest

end Sider
