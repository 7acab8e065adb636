/-
**Version 2 records are read back.**

As for version 1: descriptors, members, images and deltas that the encoder accepts have the predicted
length and are read back, and so are the records made of them (`Record.encodeMemory_framed`). The
reader repeats every check of a member and of a collection; what was valid when it was written passes
them.
-/

import Sider.Persistence.RoundTrip
import Sider.Persistence.MemoryRecord

namespace Sider

open Cursor (Reads)

variable {value text key : Bytes} {maximum size minimum : Nat} {limits : Limits}
  {record : Record MemoryMutation} {keyDeadline : Option Int} {previous : Option Bytes}
  {found : Collection} {edits : List Edit}

/-! ### Bounds of a valid member -/

/-- The bounds of a valid descriptor. -/
structure Descriptor.Checked (descriptor : Descriptor) : Prop where
  dimension : 1 ≤ descriptor.dimension ∧ descriptor.dimension ≤ maxDimension
  provider : 1 ≤ descriptor.provider.length ∧ descriptor.provider.length ≤ 256
  model : 1 ≤ descriptor.model.length ∧ descriptor.model.length ≤ 256
  revision : 1 ≤ descriptor.revision.length ∧ descriptor.revision.length ≤ 256
  transform : 1 ≤ descriptor.transform.length ∧ descriptor.transform.length ≤ 256

theorem Descriptor.checked {descriptor : Descriptor} (ok : descriptor.validate = .ok ()) :
    descriptor.Checked := by
  obtain ⟨_, dimension, ok⟩ := bind_eq_ok ok
  obtain ⟨_, provider, ok⟩ := bind_eq_ok ok
  obtain ⟨_, model, ok⟩ := bind_eq_ok ok
  obtain ⟨_, revision, ok⟩ := bind_eq_ok ok
  obtain ⟨_, transform, ok⟩ := bind_eq_ok ok
  have inside := rejectWhen_eq_ok.mp dimension
  simp only [Bool.not_eq_false', Bool.and_eq_true, decide_eq_true_eq] at inside
  exact ⟨inside, bounded_eq_ok.mp provider, bounded_eq_ok.mp model, bounded_eq_ok.mp revision,
    bounded_eq_ok.mp transform⟩

/-- The bounds of a valid member. -/
structure Member.Checked (member : Member) (descriptor : Descriptor) : Prop where
  id : 1 ≤ member.id.length ∧ member.id.length ≤ 256
  nameSpace : member.nameSpace.length ≤ 256
  content : member.content.length ≤ 65536
  vector : member.vector.length = descriptor.dimension * 4
  deadline : ∀ value, member.deadline = some value → 0 < value
  fields : member.metadata.size ≤ 32 ∧ member.provenance.size ≤ 16
  metadata : ∀ entry ∈ member.metadata.entries,
    (1 ≤ entry.1.length ∧ entry.1.length ≤ 64) ∧ entry.2.boundedBytes = .ok ()
  provenance : ∀ entry ∈ member.provenance.entries,
    (1 ≤ entry.1.length ∧ entry.1.length ≤ 64) ∧ entry.2.length ≤ 4096

/-- Every item that a checked fold went through passed its check. -/
theorem foldlM_each {σ α ε : Type} {step : σ → α → Except ε σ} {good : α → Prop}
    (check : ∀ state item next, step state item = .ok next → good item) {items : List α}
    {start final : σ} (ok : items.foldlM step start = .ok final) : ∀ item ∈ items, good item := by
  induction items generalizing start with
  | nil => exact nofun
  | cons item items ih =>
    obtain ⟨next, first, ok⟩ := bind_eq_ok ok
    exact List.forall_mem_cons.mpr ⟨check _ _ _ first, ih ok⟩

theorem Member.checked {member : Member} {descriptor : Descriptor}
    (ok : member.validate descriptor = .ok ()) : member.Checked descriptor := by
  obtain ⟨_, _, ok⟩ := bind_eq_ok ok
  obtain ⟨_, id, ok⟩ := bind_eq_ok ok
  obtain ⟨_, nameSpace, ok⟩ := bind_eq_ok ok
  obtain ⟨_, content, ok⟩ := bind_eq_ok ok
  obtain ⟨_, vector, ok⟩ := bind_eq_ok ok
  obtain ⟨_, _, ok⟩ := bind_eq_ok ok
  obtain ⟨_, deadline, ok⟩ := bind_eq_ok ok
  obtain ⟨_, fields, ok⟩ := bind_eq_ok ok
  obtain ⟨_, metadata, ok⟩ := bind_eq_ok ok
  obtain ⟨_, provenance, _⟩ := bind_eq_ok ok
  have few := rejectWhen_eq_ok.mp fields
  simp only [Bool.or_eq_false_iff, decide_eq_false_iff_not, Nat.not_lt] at few
  refine ⟨bounded_eq_ok.mp id, (bounded_eq_ok.mp nameSpace).2, (bounded_eq_ok.mp content).2,
    by simpa using rejectWhen_eq_ok.mp vector, fun value found => ?_, few,
    foldlM_each (fun _ entry _ step => ?_) metadata, foldlM_each (fun _ entry _ step => ?_) provenance⟩
  · have positive := rejectWhen_eq_ok.mp deadline
    rw [found] at positive
    simpa using positive
  · obtain ⟨_, field, step⟩ := bind_eq_ok step
    obtain ⟨_, value, _⟩ := bind_eq_ok step
    exact ⟨bounded_eq_ok.mp field, value⟩
  · obtain ⟨_, field, step⟩ := bind_eq_ok step
    obtain ⟨_, value, _⟩ := bind_eq_ok step
    exact ⟨bounded_eq_ok.mp field, (bounded_eq_ok.mp value).2⟩

/-! ### Loops over increasing keys -/

/-- Add an item and remember its key. -/
def trail {σ ι : Type} (key : ι → Bytes) (add : σ → ι → σ) (state : Option Bytes × σ) (item : ι) :
    Option Bytes × σ :=
  (some (key item), add state.2 item)

theorem foldl_trail {σ ι : Type} (key : ι → Bytes) (add : σ → ι → σ) (items : List ι)
    (state : Option Bytes × σ) :
    items.foldl (trail key add) state =
      ((items.map key).getLast?.or state.1, items.foldl add state.2) := by
  induction items generalizing state with
  | nil => rfl
  | cons item items ih =>
    rw [List.foldl_cons, ih, List.map_cons, List.foldl_cons, List.getLast?_cons]
    cases (items.map key).getLast? <;> rfl

/-- The next key of an increasing list is above the one remembered. -/
theorem trail_above {σ ι : Type} {key : ι → Bytes} {add : σ → ι → σ} {start : σ}
    {items done rest : List ι} {item : ι} (increasing : (items.map key).Pairwise (· < ·))
    (split : items = done ++ item :: rest) :
    ¬ (done.foldl (trail key add) (none, start)).1.any (key item ≤ ·) = true := by
  rw [foldl_trail, Option.or_none]
  cases last : (done.map key).getLast? with
  | none => simp
  | some previous =>
    have inside : previous ∈ done.map key := List.mem_of_getLast? last
    rw [split, List.map_append, List.map_cons, List.pairwise_append] at increasing
    have below := increasing.2.2 previous inside (key item) (List.mem_cons_self ..)
    simpa using below

namespace Read

/-- One field of a loop over increasing names. -/
def namedField {α : Type} (reader : M α) (state : Option Bytes × OrdMap Bytes α) :
    M (Option Bytes × OrdMap Bytes α) := do
  let field ← boundedBlob 1 64
  ordered state.1 field
  let value ← reader
  return (some field, state.2.insert field value)

/-- One item of a loop over increasing names. -/
def namedItem {ι : Type} (reader : M ι) (name : ι → Bytes) (state : Option Bytes × List ι) :
    M (Option Bytes × List ι) := do
  let item ← reader
  ordered state.1 (name item)
  return (some (name item), state.2 ++ [item])

/-! ### Fields -/

theorem reads_boundedBlob (low : minimum ≤ value.length) (high : value.length ≤ maximum)
    (fits : maximum ≤ u32Max) : Reads (boundedBlob minimum maximum) (encodeBlob value) value :=
  (reads_u32 (high.trans fits)).bind ((Reads.reject (by omega) _).skip (Reads.take _ value))

theorem reads_memoryCount {β : Type} {next : Nat → M β} {unit count : Nat} {result : β}
    (few : count ≤ maximum) (small : count ≤ u32Max) (positive : 0 < unit)
    (room : count * unit ≤ text.length) (rest : Reads (next count) text result) :
    Reads (memoryCount maximum unit >>= next) (u32Bytes count ++ text) result := by
  simp only [memoryCount, bind_assoc, pure_bind]
  refine (reads_u32 small).bind (Reads.remaining fun left enough => ?_)
  have passes : ¬ (maximum < count ∨ left / unit < count) := by
    rw [not_or, Nat.not_lt, Nat.not_lt]
    exact ⟨few, (Nat.le_div_iff_mul_le positive).mpr (room.trans enough)⟩
  exact (Reads.reject passes _).skip rest

theorem reads_ordered (above : ¬ previous.any (value ≤ ·) = true) :
    Reads (ordered previous value) [] () :=
  Reads.reject above _

theorem reads_descriptor {found : Descriptor} (checked : found.Checked) :
    Reads descriptor (encodeDescriptor found) found := by
  have dimension := checked.dimension
  have small : found.dimension ≤ u32Max := dimension.2.trans (by decide)
  have text {value : Bytes} (bounds : 1 ≤ value.length ∧ value.length ≤ 256) :
      Reads (boundedBlob 1 256) (encodeBlob value) value :=
    reads_boundedBlob bounds.1 bounds.2 (by decide)
  have one : Reads byte [1] 1 := reads_byte 1
  refine (reads_u32 (by decide)).bind ((Reads.reject (by simp) _).skip ((reads_u32 small).bind
    ((Reads.reject (not_not_intro dimension) _).skip (one.bind ((Reads.reject (by simp) _).skip
      (one.bind ((Reads.reject (by simp) _).skip ?_)))))))
  exact (text checked.provider).bind ((text checked.model).bind ((text checked.revision).bind
    ((text checked.transform).map (Descriptor.mk found.dimension found.provider found.model
      found.revision))))

end Read

/-! ### Members -/

/-- The integer of a scalar is a signed 64-bit one. -/
def Scalar.Typed : Scalar → Prop
  | integer value => Machine.IsI64 value
  | _ => True

/-- So are the deadline and the metadata of a member. -/
structure Member.Typed (member : Member) : Prop where
  deadline : ∀ value, member.deadline = some value → Machine.IsI64 value
  metadata : ∀ entry ∈ member.metadata.entries, entry.2.Typed

@[simp] theorem length_i64Bytes (value : Int) : (i64Bytes value).length = 8 :=
  length_u64Bytes _

theorem length_encodeScalar (scalar : Scalar) :
    (encodeScalar scalar).length = scalar.encodedBytes := by
  cases scalar with
  | bytes value => simp [encodeScalar, Scalar.encodedBytes]; omega
  | integer value => simp [encodeScalar, Scalar.encodedBytes]
  | bool value => rfl

theorem two_le_encodeScalar (scalar : Scalar) : 2 ≤ (encodeScalar scalar).length := by
  rw [length_encodeScalar]
  cases scalar <;> simp [Scalar.encodedBytes]
  omega

theorem length_encodeDescriptor (descriptor : Descriptor) :
    (encodeDescriptor descriptor).length = descriptor.encodedBytes := by
  simp [encodeDescriptor, Descriptor.encodedBytes]
  omega

theorem length_encodeMember (dimension : Nat) (member : Member) :
    (encodeMember dimension member).length = member.encodedBytes := by
  have metadata : (member.metadata.entries.flatMap fun entry =>
      encodeBlob entry.1 ++ encodeScalar entry.2).length =
      member.metadata.total fun field value => 4 + field.length + value.encodedBytes := by
    simp [List.length_flatMap, OrdMap.total, length_encodeScalar]
  have provenance : (member.provenance.entries.flatMap fun entry =>
      encodeBlob entry.1 ++ encodeBlob entry.2).length =
      member.provenance.total fun field value => 8 + field.length + value.length := by
    simp only [List.length_flatMap, OrdMap.total, List.length_append, length_encodeBlob]
    congr 2
    funext entry
    omega
  simp only [encodeMember, List.length_append, length_encodeBlob, length_u32Bytes,
    length_encodeDeadline, metadata, provenance, Member.encodedBytes]
  omega

namespace Read

theorem reads_flag (value : Bool) : Reads flag [if value then 1 else 0] value := by
  cases value with
  | false => exact (reads_byte 0).last ((Reads.reject (by simp) _).skip (Reads.pure _))
  | true => exact (reads_byte 1).last ((Reads.reject (by simp) _).skip (Reads.pure _))

theorem reads_scalar {found : Scalar} (typed : found.Typed) (bounds : found.boundedBytes = .ok ()) :
    Reads scalar (encodeScalar found) found := by
  cases found with
  | bytes value =>
    have short := (bounded_eq_ok.mp bounds).2
    exact (reads_byte 1).bind ((reads_boundedBlob (Nat.zero_le _) short (by decide)).map Scalar.bytes)
  | integer value => exact (reads_byte 2).bind ((reads_i64 typed).map Scalar.integer)
  | bool value => exact (reads_byte 3).bind ((reads_flag value).map Scalar.bool)

/-- **A loop over increasing names** reads the entries of a map and builds it again. -/
theorem reads_fields {α : Type} {reader : M α} {encode : α → Bytes} {fields : OrdMap Bytes α}
    (each : ∀ entry ∈ fields.entries, (1 ≤ entry.1.length ∧ entry.1.length ≤ 64) ∧
      Reads reader (encode entry.2) entry.2) :
    Reads (Cursor.repeatM (namedField reader) fields.size (none, ∅))
      (fields.entries.flatMap fun entry => encodeBlob entry.1 ++ encode entry.2)
      (fields.keys.getLast?, fields) := by
  have loop := Reads.repeatM (namedField reader) (fun entry => encodeBlob entry.1 ++ encode entry.2)
    (trail Prod.fst fun fields entry => fields.insert entry.1 entry.2) (none, ∅) fields.entries
    fun done entry rest split => by
      obtain ⟨⟨low, high⟩, value⟩ := each entry (mem_of_split split)
      exact (reads_boundedBlob low high (by decide)).bind ((reads_ordered
        (trail_above fields.sorted split)).skip (value.map fun value =>
          (some entry.1, OrdMap.insert _ entry.1 value)))
  have all : fields.entries.foldl (fun fields entry => fields.insert entry.1 entry.2) ∅ = fields :=
    OrdMap.ofList_sorted fields.sorted
  rwa [foldl_trail, Option.or_none, all] at loop

/-- So does a loop that collects a list of items. -/
theorem reads_items {ι : Type} {reader : M ι} {name encode : ι → Bytes} {items : List ι}
    (increasing : (items.map name).Pairwise (· < ·))
    (each : ∀ item ∈ items, Reads reader (encode item) item) :
    Reads (Cursor.repeatM (namedItem reader name) items.length (none, [])) (items.flatMap encode)
      ((items.map name).getLast?, items) := by
  have loop := Reads.repeatM (namedItem reader name) encode
    (trail name fun items item => items ++ [item]) (none, []) items
    fun done item rest split => (each item (mem_of_split split)).last
      ((reads_ordered (trail_above increasing split)).skip (Reads.pure _))
  have all : items.foldl (fun items item => items ++ [item]) [] = items := by
    simpa using foldl_concat id [] items
  rwa [foldl_trail, Option.or_none, all] at loop

/-- **A valid member** is read back. -/
theorem reads_memoryMember {descriptor : Descriptor} {found : Member}
    (valid : found.validate descriptor = .ok ()) (typed : found.Typed)
    (dimension : descriptor.dimension ≤ maxDimension) :
    Reads (memoryMember descriptor) (encodeMember descriptor.dimension found) found := by
  have checked := Member.checked valid
  have accepts : Accepts true found.deadline := fun value some_ =>
    ⟨typed.deadline value some_, fun _ => checked.deadline value some_⟩
  have room : found.metadata.size * 6 ≤ (found.metadata.entries.flatMap fun entry =>
      encodeBlob entry.1 ++ encodeScalar entry.2).length := by
    rw [List.length_flatMap]
    refine length_mul_le_sum fun entry _ => ?_
    have two := two_le_encodeScalar entry.2
    simp only [List.length_append, length_encodeBlob]
    omega
  have room' : found.provenance.size * 9 ≤ (found.provenance.entries.flatMap fun entry =>
      encodeBlob entry.1 ++ encodeBlob entry.2).length := by
    rw [List.length_flatMap]
    refine length_mul_le_sum fun entry inside => ?_
    have one := (checked.provenance entry inside).1.1
    simp only [List.length_append, length_encodeBlob]
    omega
  refine (reads_boundedBlob checked.id.1 checked.id.2 (by decide)).bind
    ((reads_boundedBlob (Nat.zero_le _) checked.nameSpace (by decide)).bind
      ((reads_boundedBlob (Nat.zero_le _) checked.content (by decide)).bind
        ((reads_u32 (dimension.trans (by decide))).bind ((Reads.reject (not_not_intro rfl) _).skip
          ((Reads.take_of_length _ checked.vector).bind ((reads_deadline accepts).bind ?_))))))
  refine reads_memoryCount checked.fields.1 (checked.fields.1.trans (by decide)) (by decide)
    (room.trans (by simp)) ?_
  refine (reads_fields fun entry inside => ⟨(checked.metadata entry inside).1,
    reads_scalar (typed.metadata entry inside) (checked.metadata entry inside).2⟩).bind ?_
  refine reads_memoryCount checked.fields.2 (checked.fields.2.trans (by decide)) (by decide) room' ?_
  refine (reads_fields fun entry inside => ⟨(checked.provenance entry inside).1,
    reads_boundedBlob (Nat.zero_le _) (checked.provenance entry inside).2 (by decide)⟩).last ?_
  exact (Reads.reject (not_not_intro valid) _).skip (Reads.pure _)

end Read

/-! ### Mutations -/

/-- The numbers of a version 2 mutation are those its machine types hold. -/
def MemoryMutation.Typed : MemoryMutation → Prop
  | legacy mutation => mutation.Typed
  | image _ collection keyDeadline =>
    (∀ member ∈ collection.members.values, member.Typed) ∧ Read.Accepts false keyDeadline
  | delta _ _ edits keyDeadline =>
    (∀ member, Edit.upsert member ∈ edits → member.Typed) ∧ Read.Accepts false keyDeadline

/-- What the checks of a list of edits give. -/
theorem validateEditsFrom_increasing {descriptor : Descriptor}
    (checked : validateEditsFrom descriptor previous edits = .ok ()) :
    (edits.map Edit.id).Pairwise (· < ·) ∧
      ∀ edit ∈ edits, (1 ≤ edit.id.length ∧ edit.id.length ≤ 256) ∧
        previous.any (edit.id ≤ ·) = false := by
  induction edits generalizing previous with
  | nil => exact ⟨List.Pairwise.nil, nofun⟩
  | cons edit edits ih =>
    obtain ⟨_, bounds, checked⟩ := bind_eq_ok checked
    obtain ⟨_, above, checked⟩ := bind_eq_ok checked
    obtain ⟨_, _, checked⟩ := bind_eq_ok checked
    obtain ⟨increasing, each⟩ := ih checked
    have above := rejectWhen_eq_ok.mp above
    have next : ∀ later ∈ edits, edit.id < later.id := fun later inside => by
      simpa using (each later inside).2
    refine ⟨?_, List.forall_mem_cons.mpr ⟨⟨bounded_eq_ok.mp bounds, above⟩, fun later inside =>
      ⟨(each later inside).1, ?_⟩⟩⟩
    · rw [List.map_cons, List.pairwise_cons]
      refine ⟨fun id inside => ?_, increasing⟩
      obtain ⟨later, member, rfl⟩ := List.mem_map.mp inside
      exact next later member
    · cases previous with
      | none => rfl
      | some last =>
        simp only [Option.any_some, decide_eq_false_iff_not, not_le] at above ⊢
        exact above.trans (next later inside)

theorem length_encodeEdit (dimension : Nat) (edit : Edit) :
    (encodeEdit dimension edit).length = edit.encodedBytes := by
  cases edit with
  | upsert member =>
    rw [encodeEdit, List.length_cons, length_encodeMember, Nat.add_comm]
    rfl
  | remove id =>
    simp only [encodeEdit, List.length_cons, length_encodeBlob, Edit.encodedBytes]
    omega

theorem length_encodeMembers (dimension : Nat) (members : OrdMap Bytes Member) :
    (members.values.flatMap (encodeMember dimension)).length =
      members.total fun _ member => member.encodedBytes := by
  simp only [List.length_flatMap, length_encodeMember, OrdMap.values, List.map_map, OrdMap.total]
  rfl

theorem length_encodeEdits (dimension : Nat) (edits : List Edit) :
    (edits.flatMap (encodeEdit dimension)).length = (edits.map Edit.encodedBytes).sum := by
  simp only [List.length_flatMap, length_encodeEdit]

namespace Read

theorem reads_collection (quota : found.validateKey key = .ok ()) :
    Reads (collection found.descriptor found.members.values key) [] found := by
  unfold collection
  rw [Collection.fromMembers_values quota]
  exact Reads.pure found

theorem reads_image (quota : found.validateKey key = .ok ())
    (typed : (MemoryMutation.image key found keyDeadline).Typed) :
    Reads (image key found.descriptor) (u32Bytes found.members.size ++
      (found.members.values.flatMap (encodeMember found.descriptor.dimension) ++
        encodeDeadline keyDeadline)) (.image key found keyDeadline) := by
  obtain ⟨_, few, components, _⟩ := Collection.checkQuota_eq_ok.mp quota
  have dimension := (Descriptor.checked found.valid.descriptor_ok).dimension
  have increasing : (found.members.values.map Member.id).Pairwise (· < ·) := by
    have ids : found.members.entries.map (Member.id ∘ Prod.snd) = found.members.keys :=
      List.map_congr_left fun entry inside =>
        Collection.member_id_eq (OrdMap.get?_eq_some_iff.mpr inside)
    rw [OrdMap.values, List.map_map, ids]
    exact found.members.sorted
  have valid : ∀ member ∈ found.members.values, member.validate found.descriptor = .ok () := by
    intro member inside
    obtain ⟨⟨id, _⟩, entry, rfl⟩ := List.mem_map.mp inside
    exact (found.valid.member_ok id _ (OrdMap.get?_eq_some_iff.mpr entry)).2
  have count : found.members.values.length = found.members.size := List.length_map _
  have room : found.members.size * 38 ≤ (found.members.values.flatMap
      (encodeMember found.descriptor.dimension)).length := by
    rw [List.length_flatMap, ← count]
    refine length_mul_le_sum fun member inside => ?_
    have checked := Member.checked (valid member inside)
    rw [length_encodeMember, Member.encodedBytes]
    have one := checked.id.1
    have vector := checked.vector
    omega
  have product : ¬ (Machine.checkedMul found.members.size found.descriptor.dimension).all
      (maxComponents < ·) = true := by
    rw [Bool.not_eq_true, Machine.checkedMul_within (by decide)]
    exact components
  refine reads_memoryCount few (few.trans (by decide)) (by decide) (room.trans (by simp)) ?_
  refine (Reads.reject product _).skip ?_
  have loop := reads_items increasing fun member inside =>
    reads_memoryMember (valid member inside) (typed.1 member inside) dimension.2
  rw [count] at loop
  exact loop.bind ((reads_deadline typed.2).last ((reads_collection quota).skip (Reads.pure _)))

theorem reads_edit {descriptor : Descriptor} {found : Edit}
    (valid : found.validate descriptor = .ok ())
    (bounds : 1 ≤ found.id.length ∧ found.id.length ≤ 256)
    (typed : ∀ member, found = .upsert member → member.Typed)
    (dimension : descriptor.dimension ≤ maxDimension) :
    Reads (edit descriptor) (encodeEdit descriptor.dimension found) found := by
  cases found with
  | upsert member =>
    exact (reads_byte 1).bind ((reads_memoryMember valid (typed member rfl) dimension).map Edit.upsert)
  | remove id =>
    exact (reads_byte 2).bind ((reads_boundedBlob bounds.1 bounds.2 (by decide)).map Edit.remove)

theorem reads_delta {descriptor : Descriptor} (checked : validateEdits descriptor edits = .ok ())
    (few : edits.length ≤ maxEdits)
    (typed : (MemoryMutation.delta key descriptor edits keyDeadline).Typed) :
    Reads (delta key descriptor) (u32Bytes edits.length ++
      (edits.flatMap (encodeEdit descriptor.dimension) ++ encodeDeadline keyDeadline))
      (.delta key descriptor edits keyDeadline) := by
  have valid := validateEdits_mem checked
  obtain ⟨_, described, checked⟩ := bind_eq_ok checked
  have dimension := (Descriptor.checked described).dimension
  obtain ⟨increasing, bounds⟩ := validateEditsFrom_increasing checked
  have room : edits.length * 6 ≤ (edits.flatMap (encodeEdit descriptor.dimension)).length := by
    rw [List.length_flatMap]
    refine length_mul_le_sum fun edit inside => ?_
    have one := (bounds edit inside).1.1
    rw [length_encodeEdit]
    cases edit with
    | upsert member =>
      simp only [Edit.encodedBytes, Member.encodedBytes]
      omega
    | remove id =>
      simp only [Edit.id] at one
      simp only [Edit.encodedBytes]
      omega
  refine reads_memoryCount few (few.trans (by decide)) (by decide) (room.trans (by simp)) ?_
  have loop := reads_items increasing fun edit inside => reads_edit (valid edit inside)
    (bounds edit inside).1 (fun member same => typed.1 member (same ▸ inside)) dimension.2
  exact loop.bind ((reads_deadline typed.2).last (Reads.pure _))

/-- A mutation of version 2 starts with its own tag. -/
theorem reads_own {tag : Byte} {found : MemoryMutation} (own : tag = 7 ∨ tag = 8)
    (rest : Reads (boundedBlob 1 256 >>= fun key => descriptor >>= fun descriptor =>
      if tag.val = 7 then image key descriptor else delta key descriptor) text found) :
    Reads memoryMutation (tag :: text) found := by
  intro more
  show (peek (tag :: (text ++ more)) >>= fun p => _) = _
  have high : ¬ (1 ≤ tag.val ∧ tag.val ≤ 6) := by
    rcases own with rfl | rfl <;> decide
  have kind : ¬ ¬ (tag.val = 7 ∨ tag.val = 8) := by
    rcases own with rfl | rfl <;> decide
  show (if 1 ≤ tag.val ∧ tag.val ≤ 6 then _ else _ : M MemoryMutation) (tag :: (text ++ more)) = _
  rw [if_neg high]
  have body : Reads (byte >>= fun tag => if ¬ (tag = 7 ∨ tag = 8) then
      throw (.corrupt "mutation type") else boundedBlob 1 256 >>= fun key =>
        descriptor >>= fun descriptor =>
          if tag = 7 then image key descriptor else delta key descriptor) ([tag] ++ text) found := by
    refine (reads_byte tag).bind ?_
    rw [if_neg kind]
    exact rest
  exact body more

/-- A mutation of version 1 is read as such. -/
theorem reads_legacy {tag : Byte} {found : Mutation} (low : 1 ≤ tag.val ∧ tag.val ≤ 6)
    (reads : Reads mutation (tag :: text) found) :
    Reads memoryMutation (tag :: text) (.legacy found) := by
  intro more
  show (peek (tag :: (text ++ more)) >>= fun p => _) = _
  show (if 1 ≤ tag.val ∧ tag.val ≤ 6 then _ else _ : M MemoryMutation) (tag :: (text ++ more)) = _
  rw [if_pos low]
  exact (reads.map MemoryMutation.legacy) more

end Read

/-- The encoding of a version 1 mutation starts with a tag of version 1. -/
theorem Mutation.encode_tag {mutation : Mutation} (encoded : mutation.encode = .ok text) :
    ∃ tag rest, text = tag :: rest ∧ 1 ≤ tag.val ∧ tag.val ≤ 6 := by
  cases mutation with
  | delete key =>
    cases encoded
    exact ⟨2, _, rfl, by decide⟩
  | put key value expiresAtUnixMs =>
    obtain ⟨tag, tagged, encoded⟩ := bind_eq_ok encoded
    obtain ⟨body, _, encoded⟩ := bind_eq_ok encoded
    cases encoded
    refine ⟨tag, _, rfl, ?_⟩
    cases value with
    | memory collection => cases tagged
    | string value => obtain rfl := Except.ok.inj tagged; decide
    | hash fields => obtain rfl := Except.ok.inj tagged; decide
    | list values => obtain rfl := Except.ok.inj tagged; decide
    | set members => obtain rfl := Except.ok.inj tagged; decide
    | sortedSet members => obtain rfl := Except.ok.inj tagged; decide

/-- **A version 2 mutation that was given a size** is encoded in that many bytes and read back. -/
theorem MemoryMutation.readable {mutation : MemoryMutation}
    (sized : mutation.encodedBytes = .ok size) (typed : mutation.Typed) :
    ∃ text, Readable MemoryMutation.encode Read.memoryMutation mutation size text := by
  cases mutation with
  | legacy mutation =>
    obtain ⟨text, readable⟩ := Mutation.readable sized typed
    obtain ⟨tag, rest, rfl, low⟩ := Mutation.encode_tag readable.encodes
    exact ⟨_, readable.encodes, readable.length_eq, readable.five,
      Read.reads_legacy low readable.reads⟩
  | image key collection keyDeadline =>
    unfold MemoryMutation.encodedBytes at sized
    dsimp only at sized
    split at sized
    · cases sized
    rename_i quota
    cases sized
    have bounds := bounded_eq_ok.mp (Collection.checkQuota_eq_ok.mp quota).1
    have described := Descriptor.checked collection.valid.descriptor_ok
    have exact_ := collection.valid.encoded_exact
    refine ⟨_, rfl, ?_, by omega, Read.reads_own (.inl rfl) ?_⟩
    · simp only [List.length_cons, List.length_append, length_encodeBlob, length_encodeDescriptor,
        length_u32Bytes, length_encodeMembers, length_encodeDeadline]
      omega
    · exact (Read.reads_boundedBlob bounds.1 bounds.2 (by decide)).bind
        ((Read.reads_descriptor described).bind (Read.reads_image quota typed))
  | delta key descriptor edits keyDeadline =>
    unfold MemoryMutation.encodedBytes at sized
    dsimp only at sized
    split_ifs at sized with refused
    split at sized
    · cases sized
    rename_i checked
    simp only [Bool.or_eq_true, decide_eq_true_eq, not_or, Nat.not_lt] at refused
    obtain ⟨_, rfl⟩ := foldlM_size Edit.encodedBytes (fun _ => True)
      (fun size edit next ok => ⟨trivial, addSize_eq_ok ok⟩) sized
    obtain ⟨_, described, _⟩ := bind_eq_ok checked
    have one : 1 ≤ key.length := List.length_pos_iff.mpr (by simpa using refused.1.1)
    refine ⟨_, rfl, ?_, by omega, Read.reads_own (.inr rfl) ?_⟩
    · simp only [List.length_cons, List.length_append, length_encodeBlob, length_encodeDescriptor,
        length_u32Bytes, length_encodeEdits, length_encodeDeadline]
      omega
    · exact (Read.reads_boundedBlob one refused.1.2 (by decide)).bind
        ((Read.reads_descriptor (Descriptor.checked described)).bind
          (Read.reads_delta checked refused.2 typed))

/-! ### Records -/

/-- The size of a version 2 mutation that has one. -/
def MemoryMutation.sizeOf (mutation : MemoryMutation) : Nat :=
  mutation.encodedBytes.toOption.getD 0

/-- A batch that was given a size names each key once, and its mutations have sizes. -/
theorem foldlM_batchSize {mutations : List MemoryMutation} {state final : OrdSet Bytes × Nat}
    (ok : mutations.foldlM batchSize state = .ok final) :
    (mutations.map MemoryMutation.key).Nodup ∧
      (∀ mutation ∈ mutations, mutation.key ∉ state.1 ∧
        mutation.encodedBytes = .ok mutation.sizeOf) ∧
      final.2 = state.2 + (mutations.map MemoryMutation.sizeOf).sum := by
  induction mutations generalizing state with
  | nil =>
    cases ok
    exact ⟨List.nodup_nil, nofun, rfl⟩
  | cons mutation mutations ih =>
    obtain ⟨next, first, ok⟩ := bind_eq_ok ok
    unfold batchSize at first
    split_ifs at first with fresh
    obtain ⟨size, sized, first⟩ := bind_eq_ok first
    obtain ⟨sum, summed, first⟩ := bind_eq_ok first
    cases first
    obtain rfl := addSize_eq_ok summed
    have same : mutation.sizeOf = size := by
      rw [MemoryMutation.sizeOf, sized]
      rfl
    obtain ⟨nodup, each, total⟩ := ih ok
    refine ⟨?_, List.forall_mem_cons.mpr ⟨⟨fresh, same ▸ sized⟩, fun later inside =>
      ⟨fun old => (each later inside).1 (OrdMap.mem_add.mpr (.inr old)), (each later inside).2⟩⟩, ?_⟩
    · rw [List.map_cons, List.nodup_cons]
      refine ⟨fun repeated => ?_, nodup⟩
      obtain ⟨later, inside, key⟩ := List.mem_map.mp repeated
      exact (each later inside).1 (OrdMap.mem_add.mpr (.inl key))
    · rw [total, List.map_cons, List.sum_cons, same]
      omega

/-- The mutation of a snapshot that was given a size is no delta and has a size. -/
theorem Record.memorySize_snapshot {mutation : MemoryMutation}
    (sized : (Record.snapshot mutation).memorySize limits = .ok size) :
    Read.isDelta mutation = false ∧
      (mutation.encodedBytes >>= fun inner => addSize inner 1) = .ok size := by
  cases mutation with
  | delta => cases sized
  | legacy mutation => exact ⟨rfl, sized⟩
  | image => exact ⟨rfl, sized⟩

/-- Collect a batch's keys and mutations. -/
def gather (state : OrdSet Bytes × List MemoryMutation) (pair : MemoryMutation × Bytes) :
    OrdSet Bytes × List MemoryMutation :=
  (state.1.add pair.1.key, state.2 ++ [pair.1])

theorem foldl_gather (pairs : List (MemoryMutation × Bytes))
    (state : OrdSet Bytes × List MemoryMutation) :
    pairs.foldl gather state = ((pairs.map fun pair => pair.1.key).foldl OrdMap.add state.1,
      state.2 ++ pairs.map Prod.fst) := by
  induction pairs generalizing state with
  | nil => simp
  | cons pair pairs ih => simp [ih, gather]

theorem Record.memoryReadable (sized : record.memorySize limits = .ok size)
    (typed : record.Typed MemoryMutation.Typed) :
    ∃ payload, record.Readable MemoryMutation.encode (Read.memoryRecord limits) size payload := by
  cases record with
  | snapshot mutation =>
    obtain ⟨whole, sized⟩ := Record.memorySize_snapshot sized
    obtain ⟨inner, innerOk, sized⟩ := bind_eq_ok sized
    obtain rfl := addSize_eq_ok sized
    obtain ⟨text, readable⟩ := mutation.readable innerOk typed
    refine ⟨1 :: text, ?_, ?_, by omega, ?_⟩
    · show (mutation.encode >>= fun text => _) = _
      rw [readable.encodes]
      rfl
    · rw [List.length_cons, readable.length_eq]
    · exact (Read.reads_byte 1).bind (readable.reads.last
        ((Reads.reject (by rw [whole]; decide) _).skip (Reads.pure _)))
  | sealed sequence entries digest =>
    cases sized
    obtain ⟨fits, fits', fits''⟩ := typed
    exact ⟨_, rfl, by simp, by decide,
      (Read.reads_byte 2).bind (Read.reads_sealed fits fits' fits'')⟩
  | batch sequence origin mutations =>
    obtain ⟨fits, typed⟩ := typed
    unfold Record.memorySize at sized
    dsimp only at sized
    split_ifs at sized with accepted
    obtain ⟨nonempty, few, short⟩ := Limits.refuses_eq_false accepted
    obtain ⟨final, folded, sized⟩ := bind_eq_ok sized
    obtain ⟨nodup, each, total⟩ := foldlM_batchSize folded
    cases sized
    have parts : ∀ mutation ∈ mutations, ∃ text,
        Sider.Readable MemoryMutation.encode Read.memoryMutation mutation mutation.sizeOf text :=
      fun mutation inside => mutation.readable (each mutation inside).2 (typed mutation inside)
    obtain ⟨pairs, rfl, encodes, readable⟩ := mapM_readable parts
    obtain ⟨sum, five⟩ := length_flatten_pairs readable
    rw [List.length_map] at nonempty few short
    refine ⟨3 :: (u64Bytes sequence ++ ([origin.tag] ++ (u32Bytes (pairs.map Prod.fst).length ++
      (pairs.map Prod.snd).flatten))), ?_, ?_, by omega, ?_⟩
    · show (List.mapM MemoryMutation.encode _ >>= fun encoded => _) = _
      rw [encodes]
      rfl
    · simp only [List.length_cons, List.length_append, length_u64Bytes, length_u32Bytes, sum, total,
        List.length_nil]
      omega
    · rw [List.length_map]
      refine (Read.reads_byte 3).bind ((Read.reads_u64 fits).bind ((Read.reads_origin origin).bind
        (Read.reads_memoryCount few short (by decide) five ((Reads.reject nonempty _).skip ?_))))
      refine (Reads.repeatM _ Prod.snd gather (∅, []) pairs fun done pair rest split => ?_).last ?_
      · refine (readable pair (mem_of_split split)).reads.last ((Reads.reject ?_ _).skip (Reads.pure _))
        rw [foldl_gather, OrdMap.mem_foldl_add, not_or]
        refine ⟨?_, OrdMap.not_mem_empty _⟩
        rw [List.map_map] at nodup
        exact FailingProgram.fresh_of_nodup nodup split
      · rw [foldl_gather, List.nil_append]
        exact Reads.pure _

/-- **A version 2 record that the encoder accepted** is framed. -/
theorem Record.encodeMemory_framed (encoded : record.encodeMemory limits = .ok text)
    (typed : record.Typed MemoryMutation.Typed) :
    IsFrame (Record.decodeMemory limits) limits text record := by
  obtain ⟨size, sized, framed⟩ := bind_eq_ok encoded
  obtain ⟨payload, readable⟩ := Record.memoryReadable sized typed
  exact readable.framed framed id

end Sider
