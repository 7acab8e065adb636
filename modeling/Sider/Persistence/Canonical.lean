/-
**Version 2 records are canonical.**

What the reader of version 2 accepts has one encoding only: the strict order of ids and field names,
the reserved values of flags and the exact counts leave no choice. Every reader of the format is shown
to have consumed the encoding of what it returns (`Read.consumes_*`), up to records made of images and
deltas; `Record.memory_roundTrip` puts this together with reading what was encoded.
-/

import Sider.Persistence.MemoryRoundTrip

namespace Sider

open Cursor (Consumes)

variable {α : Type} {record : Record MemoryMutation} {limits : Limits} {texts : List Bytes}

/-! ### Fields -/

namespace Read

theorem consumes_u32 : Consumes u32 fun value text => text = u32Bytes value ∧ value ≤ u32Max :=
  (Consumes.number _ 4).weaken fun _ _ holds => ⟨holds.1, Nat.le_pred_of_lt holds.2⟩

theorem consumes_u64 : Consumes u64 fun value text => text = u64Bytes value ∧ value < 2 ^ 64 :=
  (Consumes.number _ 8).weaken fun _ _ holds => ⟨holds.1, holds.2.trans_le (by decide)⟩

theorem consumes_byte : Consumes byte fun value text => ∃ byte : Byte, text = [byte] ∧ value = byte.val :=
  (Consumes.number _ 1).weaken fun value _ holds => by
    obtain ⟨rfl, fits⟩ := holds
    exact ⟨⟨value, fits⟩, congrArg (· :: []) (Fin.ext (Nat.mod_eq_of_lt fits)), rfl⟩

/-- A reader that starts with a tag. -/
theorem consumes_tag {next : Nat → M α} {spec : α → Bytes → Prop}
    (tail : ∀ tag : Byte, Consumes (next tag.val) fun result more => spec result (tag :: more)) :
    Consumes (byte >>= next) spec := by
  refine consumes_byte.bind fun _ _ read => ?_
  obtain ⟨tag, rfl, rfl⟩ := read
  exact tail tag

theorem consumes_i64 : Consumes i64 fun value text => text = i64Bytes value ∧ Machine.IsI64 value := by
  refine consumes_u64.bind fun bits text holds => Consumes.pure ?_
  obtain ⟨rfl, fits⟩ := holds
  have back : ((signed bits) % 2 ^ 64).toNat = bits := by
    unfold signed
    split_ifs <;> omega
  refine ⟨by rw [List.append_nil, i64Bytes, back], ?_⟩
  unfold Machine.IsI64 Machine.i64Min Machine.i64Max signed
  split_ifs <;> omega

theorem consumes_boundedBlob (minimum maximum : Nat) :
    Consumes (boundedBlob minimum maximum) fun value text =>
      text = encodeBlob value ∧ minimum ≤ value.length ∧ value.length ≤ maximum := by
  refine consumes_u32.bind fun size word holds => ?_
  refine (Consumes.reject _ _).silent fun _ inside => ?_
  refine (Consumes.take _ size).weaken fun value text taken => ?_
  obtain ⟨rfl, rfl⟩ := taken
  refine ⟨by rw [holds.1]; rfl, ?_⟩
  omega

theorem consumes_deadline (member : Bool) :
    Consumes (deadline member) fun value text => text = encodeDeadline value ∧ Accepts member value := by
  refine consumes_tag fun tag => consumes_i64.bind fun value second valued => ?_
  obtain ⟨rfl, fits⟩ := valued
  refine Consumes.ite (fun absent => Consumes.pure ?_) fun _ =>
    Consumes.ite (fun present => Consumes.pure ?_) fun _ => Consumes.throw _
  · obtain ⟨zero, rfl⟩ := absent
    obtain rfl : tag = 0 := Fin.ext zero
    exact ⟨by simp [encodeDeadline], nofun⟩
  · obtain ⟨one, positive⟩ := present
    obtain rfl : tag = 1 := Fin.ext one
    refine ⟨by simp [encodeDeadline], fun found same => ?_⟩
    cases same
    refine ⟨fits, fun isMember => ?_⟩
    rw [isMember] at positive
    simpa using positive

theorem consumes_memoryCount (maximum unit : Nat) :
    Consumes (memoryCount maximum unit) fun value text =>
      text = u32Bytes value ∧ value ≤ maximum ∧ value ≤ u32Max := by
  refine consumes_u32.bind fun count text counted => ?_
  refine Consumes.remaining.silent fun left _ => ?_
  refine (Consumes.reject _ _).silent fun _ inside => Consumes.pure ?_
  rw [List.append_nil]
  exact ⟨counted.1, by omega, counted.2⟩

theorem consumes_ordered (previous : Option Bytes) (value : Bytes) :
    Consumes (ordered previous value) fun _ text =>
      text = [] ∧ previous.any (value ≤ ·) = false :=
  (Consumes.reject _ _).weaken fun _ _ holds => ⟨holds.1, Bool.eq_false_iff.mpr holds.2⟩

end Read

/-- Bounds make a descriptor valid. -/
theorem Descriptor.Checked.validate {descriptor : Descriptor} (checked : descriptor.Checked) :
    descriptor.validate = .ok () := by
  obtain ⟨dimension, provider, model, revision, transform⟩ := checked
  simp [Descriptor.validate, Descriptor.texts, rejectWhen, bounded, dimension, provider, model,
    revision, transform, bind, Except.bind]
  rfl

theorem Read.consumes_descriptor :
    Consumes descriptor fun found text => text = encodeDescriptor found ∧ found.Checked := by
  refine consumes_u32.bind fun version first versioned => ?_
  refine (Consumes.reject _ _).silent fun _ one => ?_
  refine consumes_u32.bind fun dimension second sized => ?_
  refine (Consumes.reject _ _).silent fun _ inside => ?_
  refine consumes_byte.bind fun encoding third encoded => ?_
  refine (Consumes.reject _ _).silent fun _ known => ?_
  refine consumes_byte.bind fun metric fourth measured => ?_
  refine (Consumes.reject _ _).silent fun _ known' => ?_
  refine (consumes_boundedBlob 1 256).bind fun provider fifth provided => ?_
  refine (consumes_boundedBlob 1 256).bind fun model sixth modelled => ?_
  refine (consumes_boundedBlob 1 256).bind fun revision seventh revised => ?_
  refine (consumes_boundedBlob 1 256).bind fun transform eighth transformed => Consumes.pure ?_
  obtain ⟨tag, rfl, rfl⟩ := encoded
  obtain ⟨tag', rfl, rfl⟩ := measured
  obtain rfl : version = 1 := not_not.mp one
  obtain rfl : tag = 1 := Fin.ext (not_not.mp known)
  obtain rfl : tag' = 1 := Fin.ext (not_not.mp known')
  refine ⟨?_, not_not.mp inside, provided.2, modelled.2, revised.2, transformed.2⟩
  rw [versioned.1, sized.1, provided.1, modelled.1, revised.1, transformed.1]
  simp only [encodeDescriptor, List.append_nil]

/-! ### Members -/

namespace Read

theorem consumes_flag : Consumes flag fun value text => text = [if value then 1 else 0] := by
  refine consumes_tag fun tag => (Consumes.reject _ _).silent fun _ known => Consumes.pure ?_
  rcases not_not.mp known with zero | one
  · obtain rfl : tag = 0 := Fin.ext zero
    rfl
  · obtain rfl : tag = 1 := Fin.ext one
    rfl

theorem consumes_scalar : Consumes scalar fun value text => text = encodeScalar value ∧ value.Typed := by
  refine consumes_tag fun tag => Consumes.ite (fun one => ?_) fun _ => Consumes.ite (fun two => ?_) fun _ =>
    Consumes.ite (fun three => ?_) fun _ => Consumes.throw _
  · obtain rfl : tag = 1 := Fin.ext one
    refine (consumes_boundedBlob 0 4096).bind fun value more bytes => Consumes.pure ?_
    rw [List.append_nil, bytes.1]
    exact ⟨rfl, trivial⟩
  · obtain rfl : tag = 2 := Fin.ext two
    refine consumes_i64.bind fun value more integer => Consumes.pure ?_
    rw [List.append_nil, integer.1]
    exact ⟨rfl, integer.2⟩
  · obtain rfl : tag = 3 := Fin.ext three
    refine consumes_flag.bind fun value more flagged => Consumes.pure ?_
    rw [List.append_nil, flagged]
    exact ⟨rfl, trivial⟩

/-- **A loop over increasing names** has consumed the entries of the map it returns. -/
theorem consumes_fields {reader : M α} {encode : α → Bytes} {typed : α → Prop}
    (values : Consumes reader fun value text => text = encode value ∧ typed value) (count : Nat) :
    Consumes (Cursor.repeatM (namedField reader) count (none, ∅)) fun final text =>
      final.2.size = count ∧ (∀ entry ∈ final.2.entries, typed entry.2) ∧
        text = final.2.entries.flatMap fun entry => encodeBlob entry.1 ++ encode entry.2 := by
  refine (Consumes.repeatM (fun done state text => OrdMap.Below state.1 state.2 ∧ state.2.size = done ∧
    (∀ entry ∈ state.2.entries, typed entry.2) ∧
      text = state.2.entries.flatMap fun entry => encodeBlob entry.1 ++ encode entry.2)
    (fun done state text holds => ?_) ⟨fun _ inside => absurd inside (OrdMap.not_mem_empty _), rfl,
      nofun, rfl⟩).weaken fun _ _ holds => holds.2
  obtain ⟨below, size, each, rfl⟩ := holds
  refine (consumes_boundedBlob 1 64).bind fun field first named => ?_
  refine (consumes_ordered _ _).silent fun _ passes => ?_
  refine values.bind fun value second read => Consumes.pure ?_
  have last := OrdMap.entries_insert_of_above (below.above passes) value
  refine ⟨below.insert passes value, ?_, ?_, ?_⟩
  · rw [OrdMap.size, last, List.length_append, ← size]
    rfl
  · rw [last, List.forall_mem_append]
    exact ⟨each, List.forall_mem_singleton.mpr read.2⟩
  · rw [last, List.flatMap_append, named.1, read.1]
    simp

/-- So has a loop that collects a list of items. -/
theorem consumes_items {reader : M α} {name encode : α → Bytes} {good : α → Prop}
    (items : Consumes reader fun item text => text = encode item ∧ good item) (count : Nat) :
    Consumes (Cursor.repeatM (namedItem reader name) count (none, [])) fun final text =>
      final.2.length = count ∧ (final.2.map name).Pairwise (· < ·) ∧ (∀ item ∈ final.2, good item) ∧
        text = final.2.flatMap encode := by
  -- a name that passes the one remembered is above all names read so far
  refine (Consumes.repeatM (fun done (state : Option Bytes × List α) text =>
    (∀ next, state.1.any (next ≤ ·) = false → ∀ item ∈ state.2, name item < next) ∧
      state.2.length = done ∧ (state.2.map name).Pairwise (· < ·) ∧ (∀ item ∈ state.2, good item) ∧
        text = state.2.flatMap encode) (fun done state text holds => ?_)
    ⟨fun _ _ => List.forall_mem_nil _, rfl, .nil, List.forall_mem_nil _, rfl⟩).weaken
      fun _ _ holds => holds.2
  obtain ⟨above, size, increasing, each, rfl⟩ := holds
  refine items.bind fun item _ read => ?_
  refine (consumes_ordered _ _).silent fun _ passes => Consumes.pure ?_
  have greatest := above (name item) passes
  refine ⟨fun next passed => ?_, ?_, ?_, ?_, ?_⟩
  · have later : name item < next := by simpa using passed
    rw [List.forall_mem_append, List.forall_mem_singleton]
    exact ⟨fun other old => (greatest other old).trans later, later⟩
  · rw [List.length_append, size]
    rfl
  · rw [List.map_append, List.pairwise_append]
    refine ⟨increasing, List.pairwise_singleton _ _, ?_⟩
    simpa using greatest
  · rw [List.forall_mem_append, List.forall_mem_singleton]
    exact ⟨each, read.2⟩
  · rw [List.flatMap_append, read.1]
    simp

theorem consumes_memoryMember {descriptor : Descriptor} :
    Consumes (memoryMember descriptor) fun member text =>
      text = encodeMember descriptor.dimension member ∧ member.Typed ∧
        member.validate descriptor = .ok () := by
  refine (consumes_boundedBlob 1 256).bind fun id _ first => ?_
  refine (consumes_boundedBlob 0 256).bind fun nameSpace _ second => ?_
  refine (consumes_boundedBlob 0 65536).bind fun content _ third => ?_
  refine consumes_u32.bind fun dimension _ fourth => ?_
  refine (Consumes.reject _ _).silent fun _ same => ?_
  refine (Consumes.take _ _).bind fun vector _ fifth => ?_
  refine (consumes_deadline true).bind fun deadline _ sixth => ?_
  refine (consumes_memoryCount 32 6).bind fun metadataCount _ seventh => ?_
  refine (consumes_fields consumes_scalar metadataCount).bind fun metadata _ eighth => ?_
  refine (consumes_memoryCount 16 9).bind fun provenanceCount _ ninth => ?_
  refine (consumes_fields ((consumes_boundedBlob 0 4096).weaken fun _ _ holds =>
    (⟨holds.1, trivial⟩ : _ ∧ True)) provenanceCount).bind fun provenance _ tenth => ?_
  refine (Consumes.reject _ _).silent fun _ valid => Consumes.pure ?_
  obtain rfl := not_not.mp same
  obtain ⟨rfl, _⟩ := fifth
  refine ⟨?_, ⟨fun value found => (sixth.2 value found).1, eighth.2.1⟩, not_not.mp valid⟩
  rw [first.1, second.1, third.1, fourth.1, sixth.1, seventh.1, eighth.2.2, ninth.1, tenth.2.2,
    ← eighth.1, ← tenth.1]
  simp only [encodeMember, List.append_nil]

/-! ### Images -/

theorem consumes_image (key : Bytes) (descriptor : Descriptor) :
    Consumes (image key descriptor) fun mutation text => ∃ collection keyDeadline,
      mutation = .image key collection keyDeadline ∧ collection.descriptor = descriptor ∧
      collection.validateKey key = .ok () ∧ mutation.Typed ∧
      text = u32Bytes collection.members.size ++ (collection.members.values.flatMap
        (encodeMember descriptor.dimension) ++ encodeDeadline keyDeadline) := by
  refine (consumes_memoryCount _ _).bind fun count _ counted => ?_
  refine (Consumes.reject _ _).silent fun _ _ => ?_
  refine (consumes_items consumes_memoryMember count).bind fun members _ read => ?_
  obtain ⟨length_eq, _, each, written⟩ := read
  refine (consumes_deadline false).bind fun keyDeadline _ dated => ?_
  intro input mutation rest returned
  unfold collection at returned
  cases built : Collection.fromMembers descriptor members.2 key with
  | error error => rw [built] at returned; cases returned
  | ok found =>
    rw [built] at returned
    cases returned
    obtain ⟨same, values, quota⟩ := Collection.fromMembers_eq_ok built
    have size : found.members.size = count := by
      rw [← length_eq, ← values]
      exact (List.length_map _).symm
    refine ⟨[], rfl, found, keyDeadline, rfl, same, quota, ⟨?_, dated.2⟩, ?_⟩
    · rw [values]
      exact fun member inside => (each member inside).1
    · rw [counted.1, written, dated.1, values, size, List.append_nil]

end Read

/-! ### Deltas -/

/-- Increasing ids and valid edits pass the checks of a list of edits. -/
theorem validateEditsFrom_of_increasing {descriptor : Descriptor} {edits : List Edit}
    {previous : Option Bytes} (increasing : (edits.map Edit.id).Pairwise (· < ·))
    (each : ∀ edit ∈ edits, bounded edit.id 1 256 = .ok () ∧ edit.validate descriptor = .ok ())
    (above : ∀ edit ∈ edits, previous.any (edit.id ≤ ·) = false) :
    validateEditsFrom descriptor previous edits = .ok () := by
  induction edits generalizing previous with
  | nil => rfl
  | cons edit edits ih =>
    obtain ⟨first, increasing⟩ := List.pairwise_cons.mp increasing
    obtain ⟨⟨bounds, valid⟩, each⟩ := List.forall_mem_cons.mp each
    have ordered : rejectWhen (previous.any (edit.id ≤ ·)) MemoryError.editOrder = .ok () :=
      rejectWhen_eq_ok.mpr (above edit (List.mem_cons_self ..))
    have rest : validateEditsFrom descriptor (some edit.id) edits = .ok () :=
      ih increasing each fun later inside => by simpa using first _ (List.mem_map_of_mem inside)
    show (bounded edit.id 1 256 >>= fun _ => rejectWhen (previous.any (edit.id ≤ ·)) .editOrder >>=
      fun _ => edit.validate descriptor >>= fun _ =>
        validateEditsFrom descriptor (some edit.id) edits) = _
    rw [bounds, ordered, valid]
    exact rest

namespace Read

theorem consumes_edit (descriptor : Descriptor) :
    Consumes (edit descriptor) fun edit text =>
      text = encodeEdit descriptor.dimension edit ∧ bounded edit.id 1 256 = .ok () ∧
        edit.validate descriptor = .ok () ∧ ∀ member, edit = .upsert member → member.Typed := by
  refine consumes_tag fun tag => Consumes.ite (fun one => ?_) fun _ =>
    Consumes.ite (fun two => ?_) fun _ => Consumes.throw _
  · obtain rfl : tag = 1 := Fin.ext one
    refine consumes_memoryMember.bind fun member _ found => Consumes.pure ?_
    obtain ⟨rfl, typed, valid⟩ := found
    refine ⟨by rw [List.append_nil]; rfl, if_pos (Member.checked valid).id, valid, ?_⟩
    intro other same
    obtain rfl := Edit.upsert.inj same
    exact typed
  · obtain rfl : tag = 2 := Fin.ext two
    refine (consumes_boundedBlob 1 256).bind fun id _ found => Consumes.pure ?_
    obtain ⟨rfl, bounds⟩ := found
    exact ⟨by rw [List.append_nil]; rfl, if_pos bounds, rfl, nofun⟩

theorem consumes_delta {key : Bytes} {descriptor : Descriptor} (checked : descriptor.Checked) :
    Consumes (delta key descriptor) fun mutation text => ∃ edits keyDeadline,
      mutation = .delta key descriptor edits keyDeadline ∧ edits.length ≤ maxEdits ∧
      validateEdits descriptor edits = .ok () ∧ mutation.Typed ∧
      text = u32Bytes edits.length ++ (edits.flatMap (encodeEdit descriptor.dimension) ++
        encodeDeadline keyDeadline) := by
  refine (consumes_memoryCount _ _).bind fun count _ counted => ?_
  refine (consumes_items (consumes_edit descriptor) count).bind fun edits _ read => ?_
  refine (consumes_deadline false).bind fun keyDeadline _ dated => Consumes.pure ?_
  obtain ⟨size, increasing, each, written⟩ := read
  refine ⟨edits.2, keyDeadline, rfl, size ▸ counted.2.1, ?_,
    ⟨fun member inside => (each _ inside).2.2 member rfl, dated.2⟩, ?_⟩
  · show (descriptor.validate >>= fun _ => validateEditsFrom descriptor none edits.2) = _
    rw [checked.validate]
    exact validateEditsFrom_of_increasing increasing
      (fun edit inside => ⟨(each edit inside).1, (each edit inside).2.1⟩) fun _ _ => rfl
  · rw [counted.1, written, dated.1, size, List.append_nil]

end Read

/-! ### Mutations -/

/-- An image or a delta. -/
def MemoryMutation.isOwn : MemoryMutation → Bool
  | legacy _ => false
  | image .. => true
  | delta .. => true

/-- `text` is the encoding of a mutation that the encoder sizes. -/
structure MemoryMutation.Written (mutation : MemoryMutation) (text : Bytes) : Prop where
  encodes : mutation.encode = .ok text
  typed : mutation.Typed
  sized : text.length < Machine.word → mutation.encodedBytes = .ok text.length

theorem foldlM_addSize (cost : α → Nat) {items : List α} {start : Nat}
    (small : start + (items.map cost).sum < Machine.word) :
    items.foldlM (fun size item => addSize size (cost item)) start =
      .ok (start + (items.map cost).sum) := by
  induction items generalizing start with
  | nil => rfl
  | cons item items ih =>
    rw [List.map_cons, List.sum_cons, ← Nat.add_assoc] at small ⊢
    rw [List.foldlM_cons, addSize_of_lt (by omega)]
    exact ih small

namespace Read

/-- A version 1 mutation, of which only the length is followed. -/
theorem consumes_mutation : Consumes mutation fun _ _ => True := by
  have blobs : Consumes blob fun _ _ => True :=
    consumes_u32.bind fun size _ _ => (Consumes.take _ size).weaken fun _ _ _ => trivial
  have counts (what : String) (unit : Nat) : Consumes (count what unit) fun _ _ => True :=
    consumes_u32.bind fun _ _ _ => Consumes.remaining.silent fun _ _ =>
      (Consumes.reject _ _).silent fun _ _ => Consumes.pure trivial
  have loops {σ ρ : Type} {what : String} {unit : Nat} {body : σ → M σ} {start : σ} {result : σ → ρ}
      (turns : ∀ state, Consumes (body state) fun _ _ => True) :
      Consumes (do return result (← Cursor.repeatM body (← count what unit) start)) fun _ _ => True :=
    (counts what unit).bind fun _ _ _ => (Consumes.repeatM (fun _ _ _ => True)
      (fun _ state _ _ => turns state) trivial).bind fun _ _ _ => Consumes.pure trivial
  have scores (bits : Nat) : Consumes (score bits) fun _ _ => True := by
    unfold score
    split
    · exact Consumes.throw _
    · exact Consumes.pure trivial
  have values (tag : Nat) : Consumes (value tag) fun _ _ => True := by
    refine Consumes.ite (fun _ => blobs.bind fun _ _ _ => Consumes.pure trivial) fun _ =>
      Consumes.ite (fun _ => loops fun _ => ?_) fun _ => Consumes.ite (fun _ => loops fun _ => ?_)
        fun _ => Consumes.ite (fun _ => loops fun _ => ?_) fun _ => loops fun _ => ?_
    · exact blobs.bind fun _ _ _ => consumes_u64.bind fun bits _ _ => (scores bits).bind fun _ _ _ =>
        (Consumes.reject _ _).silent fun _ _ => Consumes.pure trivial
    · exact blobs.bind fun _ _ _ => (Consumes.reject _ _).silent fun _ _ => Consumes.pure trivial
    · exact blobs.bind fun _ _ _ => Consumes.pure trivial
    · exact blobs.bind fun _ _ _ => blobs.bind fun _ _ _ =>
        (Consumes.reject _ _).silent fun _ _ => Consumes.pure trivial
  refine consumes_byte.bind fun tag _ _ => blobs.bind fun key _ _ => Consumes.ite
    (fun _ => (values tag).bind fun _ _ _ => (consumes_deadline false).bind fun _ _ _ =>
      Consumes.pure trivial) fun _ => Consumes.ite (fun _ => Consumes.pure trivial) fun _ =>
        Consumes.throw _

theorem consumes_peek : Consumes peek fun _ text => text = [] ∧ True := by
  intro input value rest read
  obtain ⟨found, _, read⟩ := bind_eq_ok read
  obtain ⟨_, rfl⟩ := Prod.mk.inj (Except.ok.inj read)
  exact ⟨[], rfl, rfl, trivial⟩

theorem consumes_memoryMutation :
    Consumes memoryMutation fun mutation text => mutation.isOwn = true → mutation.Written text := by
  refine consumes_peek.silent fun peeked _ => Consumes.ite (fun _ => ?_) fun _ => ?_
  · exact consumes_mutation.bind fun _ _ _ => Consumes.pure nofun
  refine consumes_tag fun tag => Consumes.ite (fun _ => Consumes.throw _) fun known => ?_
  refine (consumes_boundedBlob 1 256).bind fun key _ keyed => ?_
  refine consumes_descriptor.bind fun descriptor _ described => Consumes.ite (fun seven => ?_) fun other => ?_
  · obtain rfl : tag = 7 := Fin.ext seven
    refine (consumes_image key descriptor).weaken fun mutation text found _ => ?_
    obtain ⟨collection, keyDeadline, rfl, rfl, quota, typed, rfl⟩ := found
    rw [keyed.1, described.1]
    refine ⟨rfl, typed, fun _ => ?_⟩
    have exact_ := collection.valid.encoded_exact
    unfold MemoryMutation.encodedBytes
    dsimp only
    rw [quota]
    refine congrArg Except.ok ?_
    simp only [List.length_append, List.length_cons, length_encodeBlob,
      length_encodeDescriptor, length_u32Bytes, length_encodeMembers, length_encodeDeadline]
    omega
  · obtain rfl : tag = 8 := by
      rcases not_not.mp known with seven | eight
      · exact absurd seven other
      · exact Fin.ext eight
    refine (consumes_delta described.2).weaken fun mutation text found _ => ?_
    obtain ⟨edits, keyDeadline, rfl, few, checked, typed, rfl⟩ := found
    rw [keyed.1, described.1]
    refine ⟨rfl, typed, fun small => ?_⟩
    simp only [List.length_append, List.length_cons, length_encodeBlob,
      length_encodeDescriptor, length_u32Bytes, length_encodeEdits, length_encodeDeadline] at small ⊢
    unfold MemoryMutation.encodedBytes
    dsimp only
    have bounds := keyed.2
    rw [if_neg (by
      simp only [Bool.or_eq_true, List.isEmpty_iff, decide_eq_true_eq, not_or, Nat.not_lt]
      exact ⟨⟨List.length_pos_iff.mp bounds.1, bounds.2⟩, few⟩), checked]
    rw [foldlM_addSize Edit.encodedBytes (by omega)]
    refine congrArg Except.ok ?_
    omega

end Read

/-! ### Records -/

theorem Record.Typed.mutations {μ : Type} {typed : μ → Prop} {record : Record μ}
    (holds : record.Typed typed) : ∀ mutation ∈ record.mutations, typed mutation := by
  cases record with
  | snapshot mutation =>
    intro other inside
    rw [List.mem_singleton.mp inside]
    exact holds
  | sealed sequence entries digest => exact nofun
  | batch sequence origin mutations => exact holds.2

/-- The encodings of a list of mutations, of which images and deltas are followed. -/
def WrittenAll (mutations : List MemoryMutation) (texts : List Bytes) : Prop :=
  List.Forall₂ (fun mutation text => mutation.isOwn = true → mutation.Written text) mutations texts

theorem WrittenAll.mapM {mutations : List MemoryMutation} (written : WrittenAll mutations texts)
    (own : ∀ mutation ∈ mutations, mutation.isOwn = true) :
    mutations.mapM MemoryMutation.encode = .ok texts ∧ ∀ mutation ∈ mutations, mutation.Typed := by
  induction written with
  | nil => exact ⟨rfl, nofun⟩
  | cons first rest ih =>
    obtain ⟨head, tail⟩ := List.forall_mem_cons.mp own
    obtain ⟨encodes, typed⟩ := ih tail
    refine ⟨?_, List.forall_mem_cons.mpr ⟨(first head).typed, typed⟩⟩
    rw [List.mapM_cons, (first head).encodes, encodes]
    rfl

/-- The size of a batch of images and deltas. -/
theorem WrittenAll.batchSize {mutations : List MemoryMutation}
    (written : WrittenAll mutations texts) (own : ∀ mutation ∈ mutations, mutation.isOwn = true)
    {keys : OrdSet Bytes} {size : Nat} (nodup : (mutations.map MemoryMutation.key).Nodup)
    (fresh : ∀ mutation ∈ mutations, mutation.key ∉ keys)
    (small : size + texts.flatten.length < Machine.word) :
    ∃ final, mutations.foldlM batchSize (keys, size) = .ok final ∧
      final.2 = size + texts.flatten.length := by
  induction written generalizing keys size with
  | nil => exact ⟨_, rfl, rfl⟩
  | @cons mutation text mutations texts first rest ih =>
    obtain ⟨head, tail⟩ := List.forall_mem_cons.mp own
    obtain ⟨here, later⟩ := List.forall_mem_cons.mp fresh
    rw [List.map_cons, List.nodup_cons] at nodup
    rw [List.flatten_cons, List.length_append] at small ⊢
    have sized := (first head).sized (by omega)
    have step : Sider.batchSize (keys, size) mutation =
        .ok (keys.add mutation.key, size + text.length) := by
      unfold Sider.batchSize
      rw [if_neg here, sized]
      show (addSize size text.length >>= fun size => Except.ok (keys.add mutation.key, size)) = _
      rw [addSize_of_lt (by omega)]
      rfl
    have absent : ∀ other ∈ mutations, other.key ∉ keys.add mutation.key := by
      intro other inside
      rw [OrdMap.mem_add, not_or]
      exact ⟨fun same => nodup.1 (same ▸ List.mem_map_of_mem inside), later other inside⟩
    obtain ⟨final, folded, total⟩ :=
      @ih tail (keys.add mutation.key) (size + text.length) nodup.2 absent (by omega)
    refine ⟨final, ?_, by omega⟩
    rw [List.foldlM_cons, step]
    exact folded

/-- `text` is the payload of a record that the encoder sizes. -/
structure Record.Written (limits : Limits) (record : Record MemoryMutation) (text : Bytes) : Prop where
  encodes : record.payload MemoryMutation.encode = .ok text
  typed : record.Typed MemoryMutation.Typed
  sized : text.length < Machine.word → record.memorySize limits = .ok text.length

theorem Read.consumes_origin :
    Consumes origin fun value text => text = [value.tag] := by
  refine consumes_tag fun tag => Consumes.ite (fun one => Consumes.pure ?_) fun _ =>
    Consumes.ite (fun two => Consumes.pure ?_) fun _ => Consumes.throw _
  · obtain rfl : tag = 1 := Fin.ext one
    rfl
  · obtain rfl : tag = 2 := Fin.ext two
    rfl

/-- What a loop over the mutations of a batch has read. -/
structure BatchRead (done : Nat) (state : OrdSet Bytes × List MemoryMutation) (text : Bytes) : Prop where
  length_eq : state.2.length = done
  keys : ∀ key, key ∈ state.1 ↔ key ∈ state.2.map MemoryMutation.key
  nodup : (state.2.map MemoryMutation.key).Nodup
  written : ∃ texts, text = texts.flatten ∧ WrittenAll state.2 texts

theorem Read.consumes_batch (count : Nat) :
    Consumes (Cursor.repeatM batchMutation count (∅, [])) (BatchRead count) := by
  refine Consumes.repeatM BatchRead (fun done state text holds => ?_)
    ⟨rfl, fun key => ⟨fun inside => absurd inside (OrdMap.not_mem_empty _),
      nofun⟩, List.nodup_nil, [], rfl, .nil⟩
  obtain ⟨size, keys, nodup, texts, rfl, written⟩ := holds
  refine consumes_memoryMutation.bind fun mutation text read => ?_
  refine (Consumes.reject _ _).silent fun _ fresh => Consumes.pure ⟨?_, fun key => ?_, ?_,
    texts ++ [text], by simp, List.rel_append written (.cons read .nil)⟩
  · rw [List.length_append, size]
    rfl
  · rw [OrdMap.mem_add, keys, List.map_append, List.mem_append, or_comm, List.map_singleton,
      List.mem_singleton]
  · rw [List.map_append]
    refine List.Nodup.append nodup (List.nodup_singleton _) fun key old new => fresh ?_
    rw [keys, ← List.mem_singleton.mp new]
    exact old

theorem Read.consumes_memoryRecord (limits : Limits) :
    Consumes (memoryRecord limits) fun record text =>
      (∀ mutation ∈ record.mutations, mutation.isOwn = true) → record.Written limits text := by
  refine consumes_tag fun tag => Consumes.ite (fun one => ?_) fun _ =>
    Consumes.ite (fun two => ?_) fun _ => Consumes.ite (fun three => ?_) fun _ => Consumes.throw _
  · obtain rfl : tag = 1 := Fin.ext one
    refine consumes_memoryMutation.bind fun mutation text written => ?_
    refine (Consumes.reject _ _).silent fun _ whole => Consumes.pure fun own => ?_
    have written := written (own mutation (List.mem_singleton_self _))
    rw [List.append_nil]
    refine ⟨?_, written.typed, fun small => ?_⟩
    · show (mutation.encode >>= fun text => _) = _
      rw [written.encodes]
      rfl
    · rw [List.length_cons] at small ⊢
      have total : (mutation.encodedBytes >>= fun size => addSize size 1) = .ok (text.length + 1) := by
        rw [written.sized (by omega)]
        exact addSize_of_lt (by omega)
      cases mutation with
      | delta => exact absurd rfl whole
      | legacy mutation => exact total
      | image => exact total
  · obtain rfl : tag = 2 := Fin.ext two
    refine consumes_u64.bind fun sequence _ first => ?_
    refine consumes_u64.bind fun entries _ second => ?_
    refine consumes_u32.bind fun digest _ third => Consumes.pure fun _ => ?_
    rw [first.1, second.1, third.1, List.append_nil]
    exact ⟨rfl, ⟨first.2, second.2, third.2⟩, fun _ => by simp [Record.memorySize]⟩
  · obtain rfl : tag = 3 := Fin.ext three
    refine consumes_u64.bind fun sequence _ first => ?_
    refine consumes_origin.bind fun origin _ second => ?_
    refine (consumes_memoryCount _ _).bind fun count _ third => ?_
    refine (Consumes.reject _ _).silent fun _ nonempty => ?_
    refine (consumes_batch count).bind fun state _ batch => Consumes.pure fun own => ?_
    obtain ⟨size, _, nodup, texts, rfl, written⟩ := batch
    obtain ⟨encodes, typed⟩ := written.mapM own
    rw [first.1, second, third.1, List.append_nil, ← size]
    refine ⟨?_, ⟨first.2, typed⟩, fun small => ?_⟩
    · show (state.2.mapM MemoryMutation.encode >>= fun encoded => _) = _
      rw [encodes]
      rfl
    · simp only [List.length_cons, List.length_append, List.length_nil, length_u64Bytes,
        length_u32Bytes] at small ⊢
      obtain ⟨final, folded, total⟩ := written.batchSize own nodup
        (fun _ _ => OrdMap.not_mem_empty _) (show 14 + texts.flatten.length < Machine.word by omega)
      have accepted : ¬ limits.refuses state.2.length = true := by
        rw [size]
        simp only [Limits.refuses, Bool.or_eq_true, decide_eq_true_eq, not_or, Nat.not_lt]
        exact ⟨⟨nonempty, third.2.1⟩, third.2.2⟩
      show (if limits.refuses state.2.length = true then _ else _) = _
      rw [if_neg accepted, folded]
      exact congrArg Except.ok (by omega)

/-- **A version 2 record of images and deltas that was read** is encoded to the bytes it was read
from. -/
theorem Record.decodeMemory_canonical {input rest : Bytes}
    (read : readRecord (Record.decodeMemory limits) limits input = .ok (.item record rest))
    (own : ∀ mutation ∈ record.mutations, mutation.isOwn = true) :
    ∃ text, input = text ++ rest ∧ record.encodeMemory limits = .ok text := by
  obtain ⟨text, rfl, payload, admits, decoded, rfl⟩ := readRecord_item read
  have written := Cursor.whole_of_consumes (Read.consumes_memoryRecord limits) decoded own
  have small : payload.length < Machine.word := lt_of_le_of_lt admits.fixed (by decide)
  refine ⟨_, rfl, ?_⟩
  show (record.memorySize limits >>= fun size => frameRecord limits size _) = _
  rw [written.sized small]
  show frameRecord limits payload.length _ = _
  unfold frameRecord
  have configured := admits.configured
  have fixed := admits.fixed
  rw [if_neg (by omega), written.encodes]
  rfl

/-- The mutations of a record that was given a size have sizes. -/
theorem Record.memorySize_mutations {size : Nat} (sized : record.memorySize limits = .ok size) :
    ∀ mutation ∈ record.mutations, ∃ part, mutation.encodedBytes = .ok part := by
  cases record with
  | snapshot mutation =>
    obtain ⟨inner, found, _⟩ := bind_eq_ok (Record.memorySize_snapshot sized).2
    intro other inside
    rw [List.mem_singleton.mp inside]
    exact ⟨inner, found⟩
  | sealed sequence entries digest => exact nofun
  | batch sequence origin mutations =>
    unfold Record.memorySize at sized
    dsimp only at sized
    split_ifs at sized
    obtain ⟨final, folded, _⟩ := bind_eq_ok sized
    exact fun mutation inside => ⟨_, ((foldlM_batchSize folded).2.1 mutation inside).2⟩

/-- **Round trip of version 2 records**: what is encoded has the predicted sizes, is read back whatever
follows it, and any beginning of it is an incomplete tail; what is read, if it is made of images and
deltas, is encoded to the bytes it was read from. -/
theorem Record.memory_roundTrip (limits : Limits) :
    (∀ record text, record.encodeMemory limits = .ok text → record.Typed MemoryMutation.Typed →
      (∃ size, record.memorySize limits = .ok size ∧ text.length = size + 12) ∧
      (∀ mutation ∈ record.mutations, ∃ bytes, mutation.encode = .ok bytes ∧
        mutation.encodedBytes = .ok bytes.length) ∧
      (∀ rest, readRecord (Record.decodeMemory limits) limits (text ++ rest) =
        .ok (.item record rest)) ∧
      (∀ cut, cut <+: text → cut ≠ [] → cut ≠ text →
        readRecord (Record.decodeMemory limits) limits cut = .ok .torn)) ∧
    (∀ input record rest,
      readRecord (Record.decodeMemory limits) limits input = .ok (.item record rest) →
      (∀ mutation ∈ record.mutations, mutation.isOwn = true) →
        ∃ text, input = text ++ rest ∧ record.encodeMemory limits = .ok text) := by
  refine ⟨fun record text encoded typed => ?_, fun input record rest read own =>
    Record.decodeMemory_canonical read own⟩
  obtain ⟨size, sized, framed⟩ := bind_eq_ok encoded
  obtain ⟨payload, readable⟩ := Record.memoryReadable sized typed
  have isFrame : IsFrame (Record.decodeMemory limits) limits text record := readable.framed framed id
  have frames := isFrame.frames
  refine ⟨⟨size, sized, ?_⟩, fun mutation inside => ?_, frames.reads, frames.torn⟩
  · obtain ⟨_, _, body, found, rfl⟩ := frameRecord_eq_ok framed
    cases readable.encodes.symm.trans found
    rw [length_frame, readable.length_eq]
  · obtain ⟨part, found⟩ := Record.memorySize_mutations sized mutation inside
    obtain ⟨bytes, written⟩ := mutation.readable found (typed.mutations mutation inside)
    exact ⟨bytes, written.encodes, by rw [found, written.length_eq]⟩

/-- One member removed from a collection. -/
def removalRecord : Record MemoryMutation :=
  .batch 7 .expiration [.delta (Bytes.ascii "k")
    ⟨2, Bytes.ascii "p", Bytes.ascii "m", Bytes.ascii "r", Bytes.ascii "t"⟩
    [.remove (Bytes.ascii "a")] none]

theorem Record.memory_roundTrip_removal :
    ∃ text, removalRecord.encodeMemory ⟨128, 1⟩ = .ok text ∧
      readRecord (Record.decodeMemory ⟨128, 1⟩) ⟨128, 1⟩ (text ++ [0]) =
        .ok (.item removalRecord [0]) ∧
      ∃ same, text ++ [0] = same ++ [0] ∧ removalRecord.encodeMemory ⟨128, 1⟩ = .ok same := by
  obtain ⟨text, encoded⟩ : ∃ text, removalRecord.encodeMemory ⟨128, 1⟩ = .ok text := ⟨_, rfl⟩
  have typed : removalRecord.Typed MemoryMutation.Typed := by
    refine ⟨by decide, fun mutation inside => ?_⟩
    rw [List.mem_singleton.mp inside]
    exact ⟨fun member inside => (nomatch List.mem_singleton.mp inside),
      nofun⟩
  obtain ⟨writes, reads⟩ := Record.memory_roundTrip ⟨128, 1⟩
  have back := (writes removalRecord text encoded typed).2.2.1 [0]
  refine ⟨text, encoded, back, reads _ _ _ back fun mutation inside => ?_⟩
  rw [List.mem_singleton.mp inside]
  rfl

end Sider
